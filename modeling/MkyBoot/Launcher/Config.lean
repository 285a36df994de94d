import MkyBoot.Json.Struct
import MkyBoot.Launcher.App
import MkyBoot.Server.Admin
import MkyBoot.Server.Load

/-!
# The preferences of the launcher

The launcher keeps its configuration in memory and in a file, and the choice to start with
Windows in the registry as well.  It saves at every change and loads when it starts.  A save
writes a temporary file of a fixed name and renames it; nothing is flushed, so a loss of power
may leave anything in the file, as another program may.

`Desk` has these parts, with saves that fail or are cut off after any operation.  `Prefs` is
what they amount to, a configuration in memory and what a start would load, each save being
one step that happens or does not.  `desk_refines` relates the two, and `toggle_holds` uses
it: a switch that reports no problem is what the next starts show and what Windows does.
-/

namespace MkyBoot
namespace Launcher

open Server (Str FileData trimSpace foldName)
open Machine

/-! ## Configurations -/

structure Config where
  serverURL : Str := []
  startMinimized : Bool := false
  startWithWindows : Bool := false
  deriving DecidableEq

def defaultConfig : Config := { serverURL := defaultServerURL }

def Config.fields : List (Json.Field Config) :=
  [.string "server_url".toList (·.serverURL) ({ · with serverURL := · }),
    .bool "start_minimized".toList (·.startMinimized) ({ · with startMinimized := · }),
    .bool "start_with_windows".toList (·.startWithWindows) ({ · with startWithWindows := · })]

def Config.marshal (c : Config) : List Char := Json.marshalStruct Config.fields c

/-- Into a configuration of zero values. -/
def unmarshalConfig (text : List Char) : Option Config :=
  Json.unmarshalStruct foldName Config.fields {} text

/-- The texts of the errors of `os.ReadFile` and `json.Unmarshal`. -/
structure ErrorTexts where
  read : Str
  json : List Char → Str

section

variable (url : UrlLib) (texts : ErrorTexts)

def loadConfigFrom : FileData (List Char) → Config × Option Str
  | .missing => (defaultConfig, none)
  | .unreadable => (defaultConfig, some ("failed to read config: ".toList ++ texts.read))
  | .data text =>
    match unmarshalConfig text with
    | none => (defaultConfig,
        some ("failed to parse config, using defaults: ".toList ++ texts.json text))
    | some cfg =>
      if cfg.serverURL = [] then ({ cfg with serverURL := defaultServerURL }, none)
      else
        match normalizeServerURL url cfg.serverURL with
        | .ok norm => ({ cfg with serverURL := norm }, none)
        | .error e => (defaultConfig,
            some ("config contained invalid server URL, using default: ".toList ++ e))

/-- The configuration of `NewApp` and the address of its server: the default one if there
is no server for that of the file. -/
def newConfig (c : Config) : Except Str (Config × Str) :=
  match normalizeServerURL url c.serverURL with
  | .ok baseURL => .ok (c, baseURL)
  | .error _ =>
    (normalizeServerURL url defaultServerURL).map fun baseURL => (defaultConfig, baseURL)

/-! ## A save -/

/-- The file and the temporary file. -/
structure Folder where
  file : FileData (List Char)
  tmp : Option (List Char)

/-- How an operation ends, and how much of the rest a write takes. -/
structure Answer where
  error : Option Str
  taken : ℕ

/-- The next operation of `Config.Save`, from `configPath` on. -/
inductive Saving where
  | configPath
  | mkdirAll
  | openTmp
  | write (rest : List Char)
  | close (err : Option Str)
  | rename
  | remove (err : Str)
  | returned (err : Option Str)
  deriving DecidableEq

def Saving.next (data : List Char) (f : Folder) (a : Answer) : Saving → Folder × Saving
  | .configPath =>
    match a.error with
    | some e => (f, .returned (some ("cannot resolve user config dir: ".toList ++ e)))
    | none => (f, .mkdirAll)
  | .mkdirAll =>
    match a.error with
    | some e => (f, .returned (some ("failed to create config dir: ".toList ++ e)))
    | none => (f, .openTmp)
  | .openTmp =>
    match a.error with
    | some e => (f, .returned (some ("failed to write config: ".toList ++ e)))
    | none => ({ f with tmp := some [] }, .write data)
  | .write rest =>
    ({ f with tmp := f.tmp.map (· ++ rest.take a.taken) },
      match a.error with
      | some e => .close (some e)
      | none => if rest.drop a.taken = [] then .close none else .write (rest.drop a.taken))
  -- `os.WriteFile` closes the file in any case, and the error of the write goes first.
  | .close err =>
    match err.or a.error with
    | some e => (f, .returned (some ("failed to write config: ".toList ++ e)))
    | none => (f, .rename)
  | .rename =>
    match a.error, f.tmp with
    | some e, _ => (f, .remove ("failed to replace config: ".toList ++ e))
    | none, some text => (⟨.data text, none⟩, .returned none)
    | none, none => (f, .returned none)
  | .remove err => (if a.error = none then { f with tmp := none } else f, .returned (some err))
  | .returned err => (f, .returned err)

def saveConfigTo (data : List Char) (f : Folder) (answers : List Answer) : Folder × Saving :=
  answers.foldl (fun x a => x.2.next data x.1 a) (f, .configPath)

/-- `Config.Save`, which is cut off where the answers end. -/
def Config.save (c : Config) (f : Folder) (answers : List Answer) : Config × Folder × Saving :=
  match normalizeServerURL url c.serverURL with
  | .error e => (c, f, .returned (some ("refusing to save invalid server URL: ".toList ++ e)))
  | .ok norm =>
    ({ c with serverURL := norm },
      saveConfigTo ({ c with serverURL := norm } : Config).marshal f answers)

/-! ## The launcher on a desktop -/

/-- `setStartWithWindows`, with the entry under `Run` and the error of the registry. -/
def setStartWithWindows (enabled : Bool) (exePath : Str) (entry regErr : Option Str) :
    Option Str × Option Str :=
  if enabled = true ∧ exePath = [] then
    (entry, some "cannot enable start with Windows: executable path unknown".toList)
  else
    match regErr with
    | some e => (entry, some e)
    | none => (if enabled then some ("\"".toList ++ exePath ++ "\"".toList) else none, none)

/-- The files, the running launcher, and the entry of the registry. -/
structure Desk where
  folder : Folder
  cfg : Config
  baseURL : Str
  exePath : Str
  notice : Str
  runEntry : Option Str

inductive DeskEvent where
  /-- A new process, at its place and with the error of the registry. -/
  | launch (exePath : Str) (regErr : Option Str)
  | addressEdited (text : Str) (answers : List Answer)
  | addressFocusLost (text : Str) (answers : List Answer)
  | toggle (enabled : Bool) (answers : List Answer) (regErr : Option Str)
  /-- Another program, or a loss of power. -/
  | outside (file : FileData (List Char))

/-- `NewApp`, which sets the entry for the configuration of the file. -/
def Desk.launch (s : Desk) (exePath : Str) (regErr : Option Str) : Desk :=
  let loaded := (loadConfigFrom url texts s.folder.file).1
  match newConfig url loaded with
  | .error _ => s
  | .ok (cfg, baseURL) =>
    { s with
      cfg := cfg
      baseURL := baseURL
      exePath := exePath
      notice := []
      runEntry := (setStartWithWindows loaded.startWithWindows exePath s.runEntry regErr).1 }

/-- What a save returned, `none` if it was cut off. -/
def Saving.result : Saving → Option (Option Str)
  | .returned err => some err
  | _ => none

def Desk.adoptServerURL (s : Desk) (norm : Str) (answers : List Answer) : Desk :=
  match normalizeServerURL url norm with
  | .error _ => { s with notice := "Invalid server address".toList }
  | .ok baseURL =>
    let saved := ({ s.cfg with serverURL := norm } : Config).save url s.folder answers
    { s with
      folder := saved.2.1
      cfg := saved.1
      baseURL := baseURL
      notice := match saved.2.2.result with
        | none => s.notice
        | some none => []
        | some (some e) => "Config save failed: ".toList ++ sanitizeDetail e }

/-- The problems that `toggleStartup` collects, `none` if it is cut off. -/
def Desk.problems (s : Desk) (enabled : Bool) (answers : List Answer) (regErr : Option Str) :
    Option (List Str) :=
  let saved := ({ s.cfg with startWithWindows := enabled } : Config).save url s.folder answers
  saved.2.2.result.map fun err =>
    err.toList ++ (setStartWithWindows enabled s.exePath s.runEntry regErr).2.toList

def Desk.toggleStartup (s : Desk) (enabled : Bool) (answers : List Answer) (regErr : Option Str) :
    Desk :=
  let saved := ({ s.cfg with startWithWindows := enabled } : Config).save url s.folder answers
  match s.problems url enabled answers regErr with
  | none => { s with folder := saved.2.1, cfg := saved.1 }
  | some problems =>
    { s with
      folder := saved.2.1
      cfg := saved.1
      notice := match problems with
        | [] => []
        | e :: _ => "Start with Windows: ".toList ++ sanitizeDetail e
      runEntry := (setStartWithWindows enabled s.exePath s.runEntry regErr).1 }

def Desk.step (s : Desk) : DeskEvent → Desk
  | .launch exePath regErr => s.launch url texts exePath regErr
  | .addressEdited text answers =>
    match normalizeServerURL url text with
    | .error _ => s
    | .ok norm => if norm = s.baseURL then s else s.adoptServerURL url norm answers
  | .addressFocusLost text answers =>
    match normalizeServerURL url text with
    | .error _ => { s with notice := "Invalid server address - previous value kept".toList }
    | .ok norm => if norm = s.baseURL then s else s.adoptServerURL url norm answers
  | .toggle enabled answers regErr => s.toggleStartup url enabled answers regErr
  | .outside file => { s with folder := { s.folder with file := file } }

end

/-! ## What it amounts to -/

/-- The configuration in memory, and what a start would load. -/
structure Prefs where
  cfg : Config
  loads : Config × Option Str

inductive PrefsEvent where
  | launch
  | address (text : Str) (stored : Bool)
  | toggle (enabled : Bool) (stored : Bool)
  | outside (loads : Config × Option Str)

def Prefs.change (p : Prefs) (cfg : Config) (stored : Bool) : Prefs :=
  ⟨cfg, if stored then (cfg, none) else p.loads⟩

section

variable (url : UrlLib) (texts : ErrorTexts)

/-- An address that a server can be asked for under, as it is. -/
def Usable (serverURL : Str) : Prop := normalizeServerURL url serverURL = .ok serverURL

instance (serverURL : Str) : Decidable (Usable url serverURL) :=
  inferInstanceAs (Decidable (_ = _))

def Prefs.step (p : Prefs) : PrefsEvent → Prefs
  | .launch => { p with cfg := if Usable url p.loads.1.serverURL then p.loads.1 else defaultConfig }
  | .address text stored =>
    match normalizeServerURL url text with
    | .error _ => p
    | .ok norm =>
      if norm ≠ p.cfg.serverURL ∧ Usable url norm then
        p.change { p.cfg with serverURL := norm } stored
      else p
  | .toggle enabled stored => p.change { p.cfg with startWithWindows := enabled } stored
  | .outside loads => { p with loads := loads }

/-- An event of the desktop, with what became of its save. -/
def Desk.event (s : Desk) : DeskEvent → PrefsEvent
  | .launch _ _ => .launch
  | .addressEdited text answers | .addressFocusLost text answers =>
    .address text <| match normalizeServerURL url text with
      | .error _ => false
      | .ok norm =>
        (({ s.cfg with serverURL := norm } : Config).save url s.folder answers).2.2 = .returned none
  | .toggle enabled answers _ =>
    .toggle enabled
      ((({ s.cfg with startWithWindows := enabled } : Config).save url s.folder answers).2.2 =
        .returned none)
  | .outside file => .outside (loadConfigFrom url texts file)

end

/-! ## Addresses -/

/-- What of `net/url` the launcher relies on.  The host of a URL is written with everything
escaped that a host cannot have, blanks among it, and is parsed as the same host. -/
structure UrlPackage extends UrlLib where
  parse_text : ∀ {raw : Str} {u : ParsedUrl}, parse raw = .ok u → u.host ≠ [] →
    parse (text (u.scheme.map Char.toLower) u.host) =
      .ok ⟨u.scheme.map Char.toLower, false, u.host, [], [], []⟩
  trim_text : ∀ {raw : Str} {u : ParsedUrl}, parse raw = .ok u →
    trimSpace (text (u.scheme.map Char.toLower) u.host) = text (u.scheme.map Char.toLower) u.host
  text_ne_nil : ∀ {scheme host : Str}, host ≠ [] → text scheme host ≠ []
  parse_default : parse defaultServerURL =
    .ok ⟨"http".toList, false, "127.0.0.1:8888".toList, [], [], []⟩
  text_default : text "http".toList "127.0.0.1:8888".toList = defaultServerURL

section

variable {url : UrlLib}

theorem normalizeServerURL_ok {raw norm : Str} (h : normalizeServerURL url raw = .ok norm) :
    ∃ u, url.parse (trimSpace raw) = .ok u ∧
      (u.scheme.map Char.toLower = "http".toList ∨ u.scheme.map Char.toLower = "https".toList) ∧
      u.host ≠ [] ∧ norm = url.text (u.scheme.map Char.toLower) u.host := by
  unfold normalizeServerURL at h
  extract_lets trimmed at h
  split at h
  · cases h
  split at h
  · cases h
  split at h
  · cases h
  rename_i u hparse
  extract_lets scheme at h
  split at h
  · cases h
  rename_i hscheme
  split at h
  · cases h
  split at h
  · cases h
  rename_i hhost
  split at h
  · cases h
  split at h
  · cases h
  cases h
  refine ⟨u, hparse, ?_, hhost, rfl⟩
  by_cases hhttp : scheme = "http".toList
  · exact .inl hhttp
  · exact .inr (by_contra fun hhttps => hscheme ⟨hhttp, hhttps⟩)

/-- The address of nothing but a scheme and a host is taken as it is, if it is short enough. -/
theorem normalizeServerURL_plain {norm scheme host : Str} (htrim : trimSpace norm = norm)
    (hne : norm ≠ []) (hparse : url.parse norm = .ok ⟨scheme, false, host, [], [], []⟩)
    (hscheme : scheme = "http".toList ∨ scheme = "https".toList) (hhost : host ≠ [])
    (htext : url.text scheme host = norm) :
    normalizeServerURL url norm =
      if 2048 < byteLength norm then .error "server URL is too long".toList else .ok norm := by
  have hlower : scheme.map Char.toLower = scheme := by
    rcases hscheme with rfl | rfl <;> decide
  have hknown : ¬(scheme ≠ "http".toList ∧ scheme ≠ "https".toList) := by
    rcases hscheme with rfl | rfl <;> simp
  rw [normalizeServerURL]
  simp only [htrim, if_neg hne, hparse, hlower, if_neg hknown, if_neg hhost, ne_eq,
    not_true_eq_false, or_self, false_and, if_false, htext, Bool.false_eq_true]

end

section

variable (url : UrlPackage)

/-- An address in the form it is kept in is normalised to itself, unless the escapes have
made it too long. -/
theorem normalizeServerURL_normalized {raw norm : Str}
    (h : normalizeServerURL url.toUrlLib raw = .ok norm) :
    normalizeServerURL url.toUrlLib norm =
      if 2048 < byteLength norm then .error "server URL is too long".toList else .ok norm := by
  obtain ⟨u, hparse, hscheme, hhost, rfl⟩ := normalizeServerURL_ok h
  exact normalizeServerURL_plain (url.trim_text hparse) (url.text_ne_nil hhost)
    (url.parse_text hparse hhost) hscheme hhost rfl

theorem usable_of_normalized {raw norm base : Str}
    (h : normalizeServerURL url.toUrlLib raw = .ok norm)
    (hbase : normalizeServerURL url.toUrlLib norm = .ok base) : Usable url.toUrlLib norm := by
  have hnorm := normalizeServerURL_normalized url h
  split at hnorm
  · exact absurd (hbase.symm.trans hnorm) (by simp)
  · exact hnorm

theorem usable_default : Usable url.toUrlLib defaultServerURL := by
  have hplain := @normalizeServerURL_plain url.toUrlLib _ _ _
    (Server.trimSpace_eq_self (s := defaultServerURL) (by decide +kernel)) (by decide)
    url.parse_default (.inl rfl) (by decide) url.text_default
  exact hplain.trans (if_neg (by decide +kernel))

end

/-! ## Saving and loading -/

theorem names_config : Json.Names foldName Config.fields := by
  constructor <;> simp [Config.fields, Json.Field.string, Json.Field.bool, foldName]

theorem copied_config (v : Config) : Json.Copied v Config.fields {} v :=
  .cons (Json.copies_string ..) <| .cons (Json.copies_bool ..) <| .cons (Json.copies_bool ..) <|
    .nil v

theorem unmarshal_marshal_config (c : Config) : unmarshalConfig c.marshal = some c :=
  Json.unmarshalStruct_marshalStruct names_config (copied_config c)

section

variable {url : UrlLib} {texts : ErrorTexts}

theorem Usable.ne_nil {serverURL : Str} (h : Usable url serverURL) : serverURL ≠ [] := by
  rintro rfl
  cases h

theorem loadConfigFrom_marshal {c : Config} (h : Usable url c.serverURL) :
    loadConfigFrom url texts (.data c.marshal) = (c, none) := by
  have hnorm : normalizeServerURL url c.serverURL = .ok c.serverURL := h
  rw [loadConfigFrom, unmarshal_marshal_config]
  simp only [if_neg h.ne_nil, hnorm]

/-- What is in the temporary file when a save comes to an operation. -/
def Saving.Drafted (data : List Char) (tmp : Option (List Char)) : Saving → Prop
  | .write rest => ∃ t, tmp = some t ∧ t ++ rest = data
  | .close none | .rename => tmp = some data
  | _ => True

/-- Between the operations of a save the file is as it was, and what is to replace it is
drafted; once the save has returned without an error, it is replaced. -/
structure Saving.Inv (data : List Char) (old : FileData (List Char)) (x : Folder × Saving) :
    Prop where
  file : x.1.file = if x.2 = .returned none then .data data else old
  drafted : x.2.Drafted data x.1.tmp

theorem Saving.Inv.next {data : List Char} {old : FileData (List Char)} {x : Folder × Saving}
    (h : Saving.Inv data old x) (a : Answer) : Saving.Inv data old (x.2.next data x.1 a) := by
  obtain ⟨⟨file, tmp⟩, phase⟩ := x
  obtain ⟨error, taken⟩ := a
  obtain ⟨hfile, hdrafted⟩ := h
  cases phase with
  | configPath | mkdirAll => cases error <;> exact ⟨hfile, trivial⟩
  | openTmp =>
    cases error with
    | some e => exact ⟨hfile, trivial⟩
    | none => exact ⟨hfile, [], rfl, List.nil_append data⟩
  | write rest =>
    obtain ⟨t, rfl, ht⟩ : ∃ t, tmp = some t ∧ t ++ rest = data := hdrafted
    have hsplit : t ++ rest.take taken ++ rest.drop taken = data := by
      rw [List.append_assoc, List.take_append_drop, ht]
    cases error with
    | some e => exact ⟨hfile, trivial⟩
    | none =>
      by_cases hdone : rest.drop taken = []
      · refine ⟨?_, ?_⟩ <;> simp only [Saving.next, if_pos hdone]
        · exact hfile
        · rw [hdone, List.append_nil] at hsplit
          exact congrArg some hsplit
      · refine ⟨?_, ?_⟩ <;> simp only [Saving.next, if_neg hdone]
        · exact hfile
        · exact ⟨_, rfl, hsplit⟩
  | close err =>
    cases err with
    | some e => exact ⟨hfile, trivial⟩
    | none =>
      cases error with
      | some e => exact ⟨hfile, trivial⟩
      | none => exact ⟨hfile, hdrafted⟩
  | rename =>
    have htmp : tmp = some data := hdrafted
    subst htmp
    cases error with
    | some e => exact ⟨hfile, trivial⟩
    | none => exact ⟨rfl, trivial⟩
  | remove err =>
    cases error with
    | some e | none => exact ⟨hfile, trivial⟩
  | returned err => exact ⟨hfile, trivial⟩

theorem inv_saveConfigTo (data : List Char) (f : Folder) (answers : List Answer) :
    Saving.Inv data f.file (saveConfigTo data f answers) :=
  List.foldlRecOn answers _ ⟨rfl, trivial⟩ fun _ hx a _ => hx.next a

/-- A save of a configuration with a usable address: no more than its file changes, and the
file is replaced just if the save returns without an error. -/
theorem Config.save_spec (texts : ErrorTexts) {c : Config} (h : Usable url c.serverURL) (f : Folder)
    (answers : List Answer) :
    (c.save url f answers).1 = c ∧
      loadConfigFrom url texts (c.save url f answers).2.1.file =
        if (c.save url f answers).2.2 = .returned none then (c, none)
        else loadConfigFrom url texts f.file := by
  have hnorm : normalizeServerURL url c.serverURL = .ok c.serverURL := h
  have hsave : c.save url f answers = (c, saveConfigTo c.marshal f answers) := by
    rw [Config.save, hnorm]
  rw [hsave]
  refine ⟨rfl, ?_⟩
  rw [(inv_saveConfigTo c.marshal f answers).file]
  by_cases hdone : (saveConfigTo c.marshal f answers).2 = .returned none
  · rw [if_pos hdone, if_pos hdone, loadConfigFrom_marshal h]
  · rw [if_neg hdone, if_neg hdone]

end

/-! ## The refinement -/

/-- No launcher has run yet. -/
def Desk.off (folder : Folder) (runEntry : Option Str) : Desk :=
  ⟨folder, defaultConfig, defaultServerURL, [], [], runEntry⟩

section

variable (url : UrlPackage) (texts : ErrorTexts)

structure Shows (s : Desk) (p : Prefs) : Prop where
  cfg : s.cfg = p.cfg
  loads : loadConfigFrom url.toUrlLib texts s.folder.file = p.loads
  usable : Usable url.toUrlLib s.cfg.serverURL
  base : s.baseURL = s.cfg.serverURL

theorem shows_off (folder : Folder) (runEntry : Option Str) :
    Shows url texts (.off folder runEntry)
      ⟨defaultConfig, loadConfigFrom url.toUrlLib texts folder.file⟩ :=
  ⟨rfl, rfl, usable_default url, rfl⟩

theorem exists_normalized (file : FileData (List Char)) :
    ∃ raw, normalizeServerURL url.toUrlLib raw =
    .ok (loadConfigFrom url.toUrlLib texts file).1.serverURL := by
  have hdefault := usable_default url
  cases file with
  | missing | unreadable => exact ⟨_, hdefault⟩
  | data text =>
    rw [loadConfigFrom]
    split
    · exact ⟨_, hdefault⟩
    · split
      · exact ⟨_, hdefault⟩
      · split
        · rename_i norm hnorm
          exact ⟨_, hnorm⟩
        · exact ⟨_, hdefault⟩

/-- `NewApp` takes what it has loaded, or the default if the address is too long. -/
theorem newConfig_load (file : FileData (List Char)) :
    let loaded := (loadConfigFrom url.toUrlLib texts file).1
    let cfg := if Usable url.toUrlLib loaded.serverURL then loaded else defaultConfig
    newConfig url.toUrlLib loaded = .ok (cfg, cfg.serverURL) := by
  intro loaded cfg
  obtain ⟨raw, hraw⟩ := exists_normalized url texts file
  have hdefault : normalizeServerURL url.toUrlLib defaultServerURL = .ok defaultServerURL :=
    usable_default url
  cases hbase : normalizeServerURL url.toUrlLib loaded.serverURL with
  | ok base =>
    have husable := usable_of_normalized url hraw hbase
    have hcfg : cfg = loaded := if_pos husable
    rw [hcfg, newConfig, hbase, ← Except.ok.inj (husable.symm.trans hbase)]
  | error e =>
    have hcfg : cfg = defaultConfig :=
      if_neg fun husable => absurd (husable.symm.trans hbase) (by simp)
    rw [hcfg, newConfig, hbase, hdefault]
    rfl

variable {url texts} {s : Desk} {p : Prefs}

/-- A change of the configuration that is saved. -/
theorem Shows.change (h : Shows url texts s p) (cfg : Config)
    (husable : Usable url.toUrlLib cfg.serverURL) (answers : List Answer) (exePath notice : Str)
    (runEntry : Option Str) :
    Shows url texts ⟨(cfg.save url.toUrlLib s.folder answers).2.1,
        (cfg.save url.toUrlLib s.folder answers).1, cfg.serverURL, exePath, notice, runEntry⟩
      (p.change cfg ((cfg.save url.toUrlLib s.folder answers).2.2 = .returned none)) := by
  obtain ⟨hcfg, hloads⟩ := Config.save_spec texts husable s.folder answers
  refine ⟨hcfg, ?_, ?_, congrArg Config.serverURL hcfg.symm⟩
  rotate_left
  · show Usable url.toUrlLib (cfg.save url.toUrlLib s.folder answers).1.serverURL
    rw [hcfg]
    exact husable
  show loadConfigFrom url.toUrlLib texts (cfg.save url.toUrlLib s.folder answers).2.1.file = _
  rw [hloads, Prefs.change, h.loads]
  by_cases hdone : (cfg.save url.toUrlLib s.folder answers).2.2 = .returned none
  · rw [if_pos hdone, if_pos (decide_eq_true hdone)]
  · rw [if_neg hdone, if_neg (by simpa using hdone)]

theorem Shows.adopt (h : Shows url texts s p) {text norm : Str}
    (hnorm : normalizeServerURL url.toUrlLib text = .ok norm) (answers : List Answer) :
    Shows url texts
      (if norm = s.baseURL then s else s.adoptServerURL url.toUrlLib norm answers)
      (if norm ≠ p.cfg.serverURL ∧ Usable url.toUrlLib norm then
        p.change { p.cfg with serverURL := norm }
          ((({ s.cfg with serverURL := norm } : Config).save url.toUrlLib s.folder answers).2.2 =
            .returned none)
      else p) := by
  rw [h.base, ← h.cfg]
  by_cases hsame : norm = s.cfg.serverURL
  · rw [if_pos hsame, if_neg fun hchange => hchange.1 hsame]
    exact h
  · rw [if_neg hsame, Desk.adoptServerURL]
    cases hbase : normalizeServerURL url.toUrlLib norm with
    | ok base =>
      have husable := usable_of_normalized url hnorm hbase
      have hbase' : base = norm := Except.ok.inj (hbase.symm.trans husable)
      rw [if_pos ⟨hsame, husable⟩, hbase']
      exact h.change { s.cfg with serverURL := norm } husable answers _ _ _
    | error e =>
      rw [if_neg fun hchange => absurd (hchange.2.symm.trans hbase) (by simp)]
      exact ⟨h.cfg, h.loads, h.usable, h.base⟩

theorem Shows.address (h : Shows url texts s p) (text : Str) (answers : List Answer) {s' : Desk}
    (herror : ∀ e, normalizeServerURL url.toUrlLib text = .error e → Shows url texts s' p)
    (hok : ∀ norm, normalizeServerURL url.toUrlLib text = .ok norm →
      s' = if norm = s.baseURL then s else s.adoptServerURL url.toUrlLib norm answers) :
    Shows url texts s'
      (p.step url.toUrlLib (s.event url.toUrlLib texts (.addressEdited text answers))) := by
  cases hnorm : normalizeServerURL url.toUrlLib text with
  | error e =>
    simp only [Desk.event, Prefs.step, hnorm]
    exact herror e hnorm
  | ok norm =>
    simp only [Desk.event, Prefs.step, hnorm]
    rw [hok norm hnorm]
    exact h.adopt hnorm answers

theorem Shows.step (h : Shows url texts s p) (e : DeskEvent) :
    Shows url texts (s.step url.toUrlLib texts e)
      (p.step url.toUrlLib (s.event url.toUrlLib texts e)) := by
  cases e with
  | launch exePath regErr =>
    have hnew := newConfig_load url texts s.folder.file
    rw [Desk.step, Desk.launch]
    simp only [hnew]
    refine ⟨?_, h.loads, ?_, rfl⟩
    · rw [h.loads]
      rfl
    · show Usable _ (Config.serverURL (if _ then _ else _))
      split
      · assumption
      · exact usable_default url
  | addressEdited text answers =>
    refine h.address text answers (fun e he => ?_) fun norm hnorm => ?_
    · simp only [Desk.step, he]
      exact h
    · simp only [Desk.step, hnorm]
  | addressFocusLost text answers =>
    refine h.address text answers (fun e he => ?_) fun norm hnorm => ?_
    · simp only [Desk.step, he]
      exact ⟨h.cfg, h.loads, h.usable, h.base⟩
    · simp only [Desk.step, hnorm]
  | toggle enabled answers regErr =>
    have hchange (notice : Str) (runEntry : Option Str) :=
      h.change { s.cfg with startWithWindows := enabled } h.usable answers s.exePath notice
        runEntry
    rw [← h.base] at hchange
    rw [Desk.step, Desk.toggleStartup, Desk.event, Prefs.step, ← h.cfg]
    cases s.problems url.toUrlLib enabled answers regErr with
    | none | some problems => exact hchange _ _
  | outside file => exact ⟨h.cfg, rfl, h.usable, h.base⟩

variable (url texts)

/-- Any run of launchers on any folder, with saves that fail or are cut off at any operation
and files that others change.  The configuration in memory, and what a start would load with
its error, are those of the plain preferences, in which a save replaces what is loaded just
if it returned without an error. -/
theorem desk_refines (folder : Folder) (runEntry : Option Str) (events : List DeskEvent) :
    let s := run (Desk.step url.toUrlLib texts) (.off folder runEntry) events
    let p := run (Prefs.step url.toUrlLib)
      ⟨defaultConfig, loadConfigFrom url.toUrlLib texts folder.file⟩
      (trace (Desk.step url.toUrlLib texts) (Desk.event url.toUrlLib texts) (.off folder runEntry)
        events)
    s.cfg = p.cfg ∧ loadConfigFrom url.toUrlLib texts s.folder.file = p.loads ∧
      s.baseURL = s.cfg.serverURL := by
  intro s p
  have hshows : Shows url texts s p :=
    run_trace (R := Shows url texts) (fun s p e h => Shows.step h e) events
      (shows_off url texts folder runEntry)
  exact ⟨hshows.cfg, hshows.loads, hshows.base⟩

/-! ## The switch to start with Windows -/

/-- Neither the switch nor another program. -/
def DeskEvent.ordinary : DeskEvent → Bool
  | .launch _ _ | .addressEdited _ _ | .addressFocusLost _ _ => true
  | .toggle _ _ _ | .outside _ => false

structure Prefs.Held (enabled : Bool) (p : Prefs) : Prop where
  cfg : p.cfg.startWithWindows = enabled
  loads : p.loads.1.startWithWindows = enabled
  plain : p.loads.2 = none
  usable : Usable url.toUrlLib p.loads.1.serverURL

/-- The switch is set in memory, in the file and in the registry. -/
def Desk.Held (enabled : Bool) (s : Desk) : Prop :=
  s.runEntry.isSome = enabled ∧ ∃ p, Shows url texts s p ∧ p.Held url enabled

variable {url texts}

theorem isSome_setStartWithWindows {enabled : Bool} {entry : Option Str} (exePath : Str)
    (regErr : Option Str)
    (h : entry.isSome = enabled ∨ (setStartWithWindows enabled exePath entry regErr).2 = none) :
    (setStartWithWindows enabled exePath entry regErr).1.isSome = enabled := by
  unfold setStartWithWindows at h ⊢
  by_cases hpath : enabled = true ∧ exePath = []
  · simpa [hpath] using h
  · rw [if_neg hpath] at h ⊢
    cases regErr with
    | some e => simpa using h
    | none => cases enabled <;> rfl

theorem Prefs.Held.change {enabled : Bool} (h : p.Held url enabled) (cfg : Config)
    (hcfg : cfg.startWithWindows = enabled) (husable : Usable url.toUrlLib cfg.serverURL)
    (stored : Bool) : (p.change cfg stored).Held url enabled := by
  cases stored with
  | true => exact ⟨hcfg, hcfg, rfl, husable⟩
  | false => exact ⟨hcfg, h.loads, h.plain, h.usable⟩

theorem Prefs.Held.address {enabled : Bool} (h : p.Held url enabled) (text : Str) (stored : Bool) :
    (p.step url.toUrlLib (.address text stored)).Held url enabled := by
  rw [Prefs.step]
  split
  · exact h
  · split
    · rename_i norm hnorm hchange
      exact h.change { p.cfg with serverURL := norm } h.cfg hchange.2 stored
    · exact h

theorem Desk.Held.step {enabled : Bool} (h : s.Held url texts enabled) {e : DeskEvent}
    (he : e.ordinary = true) : (s.step url.toUrlLib texts e).Held url texts enabled := by
  obtain ⟨hentry, p, hshows, hheld⟩ := h
  have hadopt (norm : Str) (answers : List Answer) :
      (s.adoptServerURL url.toUrlLib norm answers).runEntry = s.runEntry := by
    rw [Desk.adoptServerURL]
    split <;> rfl
  refine ⟨?_, _, hshows.step e, ?_⟩
  · cases e with
    | launch exePath regErr =>
      have hloads : (loadConfigFrom url.toUrlLib texts s.folder.file).1.startWithWindows =
          enabled := by
        rw [hshows.loads, hheld.loads]
      rw [Desk.step, Desk.launch]
      simp only [newConfig_load, hloads]
      exact isSome_setStartWithWindows exePath regErr (.inl hentry)
    | addressEdited text answers =>
      rw [Desk.step]
      split
      · exact hentry
      · split
        · exact hentry
        · rw [hadopt, hentry]
    | addressFocusLost text answers =>
      rw [Desk.step]
      split
      · exact hentry
      · split
        · exact hentry
        · rw [hadopt, hentry]
    | toggle enabled answers regErr => cases he
    | outside file => cases he
  · cases e with
    | launch exePath regErr =>
      refine ⟨?_, hheld.loads, hheld.plain, hheld.usable⟩
      show Config.startWithWindows (if _ then _ else _) = enabled
      rw [if_pos hheld.usable, hheld.loads]
    | addressEdited text answers | addressFocusLost text answers => exact hheld.address _ _
    | toggle enabled answers regErr => cases he
    | outside file => cases he

variable (url texts)

end

/-! ### A package -/

/-- `UrlLib.plain` without blanks -/
def parsePlain (raw : Str) : Except Str ParsedUrl :=
  let host := (raw.drop 7).takeWhile (· != '/')
  if "http://".toList.isPrefixOf raw ∧ host.all (fun c => !Server.isSpace c) then
    .ok ⟨"http".toList, false, host, [], [], (raw.drop 7).dropWhile (· != '/')⟩
  else .error "invalid character in host name".toList

theorem parsePlain_ok {raw : Str} {u : ParsedUrl} (h : parsePlain raw = .ok u) :
    u.scheme.map Char.toLower = "http".toList ∧ (∀ c ∈ u.host, Server.isSpace c = false) ∧
      ∀ c ∈ u.host, (c != '/') = true := by
  unfold parsePlain at h
  extract_lets host at h
  split at h
  · rename_i hraw
    cases h
    have hlower : "http".toList.map Char.toLower = "http".toList := by decide
    refine ⟨hlower, fun c hc => ?_, fun c hc => ?_⟩
    · simpa using List.all_eq_true.mp hraw.2 c hc
    · exact List.mem_takeWhile_imp (p := (· != '/')) hc
  · cases h

theorem parsePlain_text {host : Str} (hspace : ∀ c ∈ host, Server.isSpace c = false)
    (hslash : ∀ c ∈ host, (c != '/') = true) :
    parsePlain ("http".toList ++ "://".toList ++ host) =
      .ok ⟨"http".toList, false, host, [], [], []⟩ := by
  have hprefix : "http://".toList.isPrefixOf ("http".toList ++ "://".toList ++ host) = true :=
    List.isPrefixOf_iff_prefix.mpr ⟨host, rfl⟩
  have hdrop : ("http".toList ++ "://".toList ++ host).drop 7 = host := rfl
  have htake : host.takeWhile (· != '/') = host := List.takeWhile_eq_self_iff.mpr hslash
  have hrest : host.dropWhile (· != '/') = [] := List.dropWhile_eq_nil_iff.mpr hslash
  have hall : host.all (fun c => !Server.isSpace c) = true :=
    List.all_eq_true.mpr fun c hc => by simp [hspace c hc]
  rw [parsePlain]
  simp only [hdrop, htake, hrest, hprefix, hall, and_self, if_true]

def UrlPackage.plain : UrlPackage where
  parse := parsePlain
  text scheme host := scheme ++ "://".toList ++ host
  parse_text h _ := by
    obtain ⟨hscheme, hspace, hslash⟩ := parsePlain_ok h
    rw [hscheme]
    exact parsePlain_text hspace hslash
  trim_text h := by
    obtain ⟨hscheme, hspace, hslash⟩ := parsePlain_ok h
    rw [hscheme]
    have hfront : ∀ c ∈ "http".toList ++ "://".toList, Server.isSpace c = false := by decide
    exact Server.trimSpace_eq_self fun c hc =>
      (List.mem_append.mp hc).elim (hfront c) (hspace c)
  text_ne_nil _ := by simp
  parse_default := @parsePlain_text "127.0.0.1:8888".toList (by decide) (by decide)
  text_default := rfl

end Launcher
end MkyBoot
