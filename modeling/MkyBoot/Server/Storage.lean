import MkyBoot.Go.Filepath
import MkyBoot.Machine.Run
import MkyBoot.Server.State

/-!
# Base images and overlays

`Storage` registers base images below its root and reserves one overlay path for each
client that is assigned to an image.  The path is `filepath.Join` of the root,
`overlays` and the client id, which is whatever text the request had.  Two ids can
lead to one file, and an id with `..` in it to a base image; the only check is that
the path is below the root.  `overlays_isolated` gives the condition on the ids and on
the registered paths under which the overlays are apart from each other and from the
images.
-/

namespace MkyBoot
namespace Server

open Go Machine

inductive ImageFormat where
  | unknown
  | vhdx
  | vhd
  | raw
  deriving DecidableEq

structure BaseImage where
  id : Str
  name : Str
  path : Str
  format : ImageFormat
  sizeBytes : ℤ
  readOnly : Bool
  createdAt : Time
  deriving DecidableEq

structure ClientAssignment where
  clientID : Str
  imageID : Str
  overlayPath : Str
  writable : Bool
  assignedAt : Time
  deriving DecidableEq

structure Storage (os : Filepath.OS) where
  root : Filepath.Abs os
  images : Map Str BaseImage
  assignments : Map Str ClientAssignment

/-- `NewStorage`, once the root directory is there -/
def newStorage {os : Filepath.OS} (root : Filepath.Abs os) : Storage os :=
  { root := root, images := ∅, assignments := ∅ }

inductive StorageErr where
  | imageIdRequired
  | alreadyRegistered (id : Str)
  | noAbs (path : Str)
  | outsideRoot (path : Str)
  | missing (path : Str)
  | stat (path : Str)
  | directory (path : Str)
  | clientIdRequired
  | imageNotFound (id : Str)
  | notReadOnly (id : Str)
  | clientAssigned (id : Str)
  | escapesRoot (path : Str)
  | clientNotAssigned (id : Str)
  deriving DecidableEq

/-- What `os.Stat` finds. -/
inductive Stat where
  | missing
  | failed
  | directory
  | file (size : ℤ)

section Operations

variable (sys : Filepath.Sys)

/-- The lower-case path starts with the lower-case root, and a separator follows. -/
def isContained (root abs : Str) : Bool :=
  let root := root.map sys.toLower
  let path := abs.map sys.toLower
  root.isPrefixOf path &&
    match path.drop root.length with
    | [] => true
    | c :: _ => c == sys.os.sep

/-- `filepath.Ext` -/
def ext (path : Str) : Str :=
  let last := path.rtakeWhile fun c => !sys.os.isSep c
  if '.' ∈ last then '.' :: last.rtakeWhile (· ≠ '.') else []

def formatOf (path : Str) : ImageFormat :=
  let ext := (ext sys path).map sys.toLower
  if ext = ".vhdx".toList then .vhdx
  else if ext = ".vhd".toList then .vhd
  else if ext = ".raw".toList ∨ ext = ".img".toList then .raw
  else .unknown

/-- `RegisterExisting`.  What `filepath.Abs` and `os.Stat` return is passed in. -/
def registerExisting (s : Storage sys.os) (id name path : Str) (abs : Option (Filepath.Abs sys.os))
    (stat : Stat) (now : Time) : Except StorageErr (BaseImage × Storage sys.os) :=
  if id = [] then .error .imageIdRequired
  else if s.images[id]? ≠ none then .error (.alreadyRegistered id)
  else match abs with
    | none => .error (.noAbs path)
    | some abs =>
      if !isContained sys s.root.text abs.text then .error (.outsideRoot path)
      else match stat with
        | .missing => .error (.missing path)
        | .failed => .error (.stat path)
        | .directory => .error (.directory path)
        | .file size =>
          let img : BaseImage :=
            { id := id, name := name, path := abs.text, format := formatOf sys abs.text
              sizeBytes := size, readOnly := true, createdAt := now }
          .ok (img, { s with images := s.images.insert id img })

/-- The overlay path of a client. -/
def overlayPath (root : Filepath.Abs sys.os) (clientID : Str) : Str :=
  Filepath.join sys.os root "overlays".toList (clientID ++ ".avhdx".toList)

def assignClient (s : Storage sys.os) (clientID imageID : Str) (now : Time) :
    Except StorageErr (ClientAssignment × Storage sys.os) :=
  if clientID = [] then .error .clientIdRequired
  else if imageID = [] then .error .imageIdRequired
  else match s.images[imageID]? with
    | none => .error (.imageNotFound imageID)
    | some img =>
      if !img.readOnly then .error (.notReadOnly imageID)
      else if s.assignments[clientID]? ≠ none then .error (.clientAssigned clientID)
      else if !isContained sys s.root.text (overlayPath sys s.root clientID) then
        .error (.escapesRoot (overlayPath sys s.root clientID))
      else
        let a : ClientAssignment :=
          { clientID := clientID, imageID := imageID
            overlayPath := overlayPath sys s.root clientID, writable := true, assignedAt := now }
        .ok (a, { s with assignments := s.assignments.insert clientID a })

def releaseAssignment {os : Filepath.OS} (s : Storage os) (clientID : Str) :
    Except StorageErr (Storage os) :=
  if s.assignments[clientID]? = none then .error (.clientNotAssigned clientID)
  else .ok { s with assignments := s.assignments.erase clientID }

inductive StorageOp (os : Filepath.OS) where
  | register (id name path : Str) (abs : Option (Filepath.Abs os)) (stat : Stat) (now : Time)
  | assign (clientID imageID : Str) (now : Time)
  | release (clientID : Str)

def StorageOp.exec (s : Storage sys.os) : StorageOp sys.os → Except StorageErr (Storage sys.os)
  | .register id name path abs stat now =>
    (registerExisting sys s id name path abs stat now).map (·.2)
  | .assign clientID imageID now => (assignClient sys s clientID imageID now).map (·.2)
  | .release clientID => releaseAssignment s clientID

/-- An operation that returns an error leaves the storage. -/
def storageStep (s : Storage sys.os) (op : StorageOp sys.os) : Storage sys.os :=
  match op.exec sys s with
  | .ok s' => s'
  | .error _ => s

end Operations

/-! ## Isolation -/

section Isolation

variable (sys : Filepath.Sys)

/-- The directory of the overlays. -/
def overlaysDir (root : Filepath.Abs sys.os) : Str :=
  root.volume ++ Filepath.render sys.os (root.names ++ ["overlays".toList])

/-- The path is that of a directory with names behind it. -/
def Under (dir path : Str) : Prop :=
  ∃ names, names ≠ [] ∧ (∀ e ∈ names, Filepath.IsName sys.os e) ∧
    path = dir ++ Filepath.render sys.os names

/-- The overlays are different files below the directory of overlays, and none of them
is a base image. -/
structure Isolated (s : Storage sys.os) : Prop where
  distinct : ∀ {c d : Str} {a b : ClientAssignment}, s.assignments[c]? = some a →
    s.assignments[d]? = some b → c ≠ d → ¬ Filepath.SameFile sys a.overlayPath b.overlayPath
  under : ∀ {c : Str} {a : ClientAssignment}, s.assignments[c]? = some a →
    Under sys (overlaysDir sys s.root) a.overlayPath
  noImage : ∀ {c i : Str} {a : ClientAssignment} {img : BaseImage}, s.assignments[c]? = some a →
    s.images[i]? = some img → ¬ Filepath.SameFile sys a.overlayPath img.path

/-- The names a client id leads through below the overlays, if it stays below them. -/
def overlayNames (clientID : Str) : Option (List Str) :=
  Filepath.descend sys.os (clientID ++ ".avhdx".toList)

/-- The file that these names lead to. -/
def overlayFile (root : Filepath.Abs sys.os) (names : List Str) : Str :=
  overlaysDir sys root ++ Filepath.render sys.os names

/-- The two lists of names are the same, up to case where the system does not tell it. -/
def SameNames (xs ys : List Str) : Prop :=
  xs.map (List.map sys.fold) = ys.map (List.map sys.fold)

/-- A client is assigned only when its id stays below the overlays, does not read as
the id of another client that has one, and does not lead to an image; and an image is
registered only when it is no client's overlay. -/
def Apart (s : Storage sys.os) : StorageOp sys.os → Prop
  | .assign c _ _ =>
    ∃ names, overlayNames sys c = some names ∧
      (∀ (d : Str) (ns : List Str), d ≠ c → s.assignments[d]? ≠ none →
        overlayNames sys d = some ns → ¬ SameNames sys ns names) ∧
      ∀ (i : Str) (img : BaseImage), s.images[i]? = some img →
        ¬ Filepath.SameFile sys (overlayFile sys s.root names) img.path
  | .register _ _ _ abs _ _ =>
    ∀ (p : Filepath.Abs sys.os) (d : Str) (ns : List Str), abs = some p →
      s.assignments[d]? ≠ none → overlayNames sys d = some ns →
      ¬ Filepath.SameFile sys (overlayFile sys s.root ns) p.text
  | .release _ => True

variable {sys}

theorem overlays_isName (os : Filepath.OS) : Filepath.IsName os "overlays".toList := by
  cases os with
  | unix => decide
  | windows => decide

theorem overlayPath_eq (root : Filepath.Abs sys.os) {c : Str} {names : List Str}
    (h : overlayNames sys c = some names) :
    overlayPath sys root c = overlayFile sys root names := by
  rw [overlayPath, Filepath.join_eq root (overlays_isName sys.os) h, overlayFile, overlaysDir,
    List.append_assoc, ← Filepath.render_append, List.append_assoc]
  rfl

theorem overlayNames_ne_nil {c : Str} {names : List Str} (h : overlayNames sys c = some names) :
    names ≠ [] := by
  have hsep : ∀ e ∈ ".avhdx".toList, sys.os.isSep e = false := by
    cases sys.os with
    | unix => decide
    | windows => decide
  exact Filepath.descend_ne_nil (by decide) hsep h

/-- Two overlays that are one file have the same names. -/
theorem sameNames_of_sameFile {root : Filepath.Abs sys.os} {c d : Str} {xs ys : List Str}
    (hc : overlayNames sys c = some xs) (hd : overlayNames sys d = some ys)
    (h : Filepath.SameFile sys (overlayFile sys root xs) (overlayFile sys root ys)) :
    SameNames sys xs ys := by
  have hnames : ∀ {e : Str} {q : List Str}, overlayNames sys e = some q →
      ∀ n ∈ root.names ++ ["overlays".toList] ++ q, Filepath.IsName sys.os n := by
    intro e q hq n hn
    rcases List.mem_append.mp hn with hn | hn
    · rcases List.mem_append.mp hn with hn | hn
      · exact root.isName n hn
      · exact List.mem_singleton.mp hn ▸ overlays_isName sys.os
    · exact Filepath.descend_isName hq n hn
  rw [overlayFile, overlayFile, overlaysDir, List.append_assoc, List.append_assoc,
    ← Filepath.render_append, ← Filepath.render_append] at h
  have hall := Filepath.names_of_same (hnames hc) (hnames hd) h
  have happend : ∀ zs : List Str, (root.names ++ ["overlays".toList] ++ zs).map
      (List.map sys.fold) = (root.names ++ ["overlays".toList]).map (List.map sys.fold) ++
        zs.map (List.map sys.fold) := fun zs => List.map_append
  rw [happend, happend] at hall
  exact List.append_cancel_left hall

/-- What an operation does to the storage. -/
inductive StorageChange (s : Storage sys.os) : StorageOp sys.os → Storage sys.os → Prop where
  | none {op : StorageOp sys.os} : StorageChange s op s
  | register {id name path : Str} {p : Filepath.Abs sys.os} {stat : Stat} {now : Time}
      {img : BaseImage} (hpath : img.path = p.text) :
      StorageChange s (.register id name path (some p) stat now)
        { s with images := s.images.insert id img }
  | assign {c imageID : Str} {now : Time} {a : ClientAssignment}
      (hnew : s.assignments[c]? = Option.none) (hpath : a.overlayPath = overlayPath sys s.root c) :
      StorageChange s (.assign c imageID now)
        { s with assignments := s.assignments.insert c a }
  | release {c : Str} :
      StorageChange s (.release c) { s with assignments := s.assignments.erase c }

theorem registerExisting_ok {s s' : Storage sys.os} {id name path : Str}
    {abs : Option (Filepath.Abs sys.os)} {stat : Stat} {now : Time} {img : BaseImage}
    (h : registerExisting sys s id name path abs stat now = .ok (img, s')) :
    ∃ p, abs = some p ∧ img.path = p.text ∧ s' = { s with images := s.images.insert id img } := by
  rw [registerExisting.eq_def] at h
  split at h
  · cases h
  split at h
  · cases h
  split at h
  · cases h
  rename_i p
  split at h
  · cases h
  split at h
  · cases h
  · cases h
  · cases h
  · injection h with h
    injection h with himg hs
    rw [← hs, ← himg]
    exact ⟨p, rfl, rfl, rfl⟩

theorem assignClient_ok {s s' : Storage sys.os} {c imageID : Str} {now : Time}
    {a : ClientAssignment} (h : assignClient sys s c imageID now = .ok (a, s')) :
    s.assignments[c]? = none ∧ a.overlayPath = overlayPath sys s.root c ∧
      s' = { s with assignments := s.assignments.insert c a } := by
  rw [assignClient.eq_def] at h
  split at h
  · cases h
  split at h
  · cases h
  split at h
  · cases h
  split at h
  · cases h
  split at h
  · cases h
  rename_i hassigned
  split at h
  · cases h
  · injection h with h
    injection h with ha hs
    rw [← hs, ← ha]
    exact ⟨not_not.mp hassigned, rfl, rfl⟩

theorem storageStep_change (s : Storage sys.os) (op : StorageOp sys.os) :
    StorageChange s op (storageStep sys s op) := by
  cases op with
  | register id name path abs stat now =>
    rw [storageStep, StorageOp.exec]
    cases h : registerExisting sys s id name path abs stat now with
    | error e => exact .none
    | ok result =>
      obtain ⟨p, rfl, hpath, hs⟩ := registerExisting_ok h
      show StorageChange s _ result.2
      rw [hs]
      exact .register hpath
  | assign c imageID now =>
    rw [storageStep, StorageOp.exec]
    cases h : assignClient sys s c imageID now with
    | error e => exact .none
    | ok result =>
      obtain ⟨hnew, hpath, hs⟩ := assignClient_ok h
      show StorageChange s _ result.2
      rw [hs]
      exact .assign hnew hpath
  | release c =>
    rw [storageStep, StorageOp.exec, releaseAssignment]
    by_cases hnone : s.assignments[c]? = none
    · rw [if_pos hnone]
      exact .none
    · rw [if_neg hnone]
      exact .release

/-- What the operations keep when they are apart. -/
structure Overlays (s : Storage sys.os) : Prop where
  file : ∀ {c : Str} {a : ClientAssignment}, s.assignments[c]? = some a →
    ∃ names, overlayNames sys c = some names ∧ a.overlayPath = overlayFile sys s.root names
  names : ∀ {c d : Str} {xs ys : List Str}, s.assignments[c]? ≠ none →
    s.assignments[d]? ≠ none → c ≠ d → overlayNames sys c = some xs →
    overlayNames sys d = some ys → ¬ SameNames sys xs ys
  image : ∀ {c i : Str} {names : List Str} {img : BaseImage}, s.assignments[c]? ≠ none →
    overlayNames sys c = some names → s.images[i]? = some img →
    ¬ Filepath.SameFile sys (overlayFile sys s.root names) img.path

theorem Overlays.isolated {s : Storage sys.os} (h : Overlays s) : Isolated sys s where
  distinct := by
    intro c d a b ha hb hne hsame
    obtain ⟨xs, hxs, hpath⟩ := h.file ha
    obtain ⟨ys, hys, hpath'⟩ := h.file hb
    rw [hpath, hpath'] at hsame
    have hc : s.assignments[c]? ≠ none := by simp [ha]
    have hd : s.assignments[d]? ≠ none := by simp [hb]
    exact h.names hc hd hne hxs hys (sameNames_of_sameFile hxs hys hsame)
  under := by
    intro c a ha
    obtain ⟨xs, hxs, hpath⟩ := h.file ha
    exact ⟨xs, overlayNames_ne_nil hxs, Filepath.descend_isName hxs, hpath⟩
  noImage := by
    intro c i a img ha himg
    obtain ⟨xs, hxs, hpath⟩ := h.file ha
    rw [hpath]
    exact h.image (by simp [ha]) hxs himg

theorem overlays_new (root : Filepath.Abs sys.os) : Overlays (newStorage root) where
  file := by
    intro c a ha
    cases ha
  names := by
    intro c d xs ys hc
    exact absurd rfl hc
  image := by
    intro c i names img hc
    exact absurd rfl hc

theorem Overlays.step {s : Storage sys.os} (h : Overlays s) {op : StorageOp sys.os}
    (hop : Apart sys s op) : Overlays (storageStep sys s op) := by
  have hchange := storageStep_change s op
  generalize storageStep sys s op = s' at hchange ⊢
  cases hchange with
  | none => exact h
  | register hpath =>
    rename_i id name path p stat now img
    refine ⟨h.file, h.names, ?_⟩
    intro c i names img' hc hnames himg
    rcases getElem?_insert_eq_some himg with ⟨_, heq⟩ | ⟨_, hold⟩
    · rw [heq, hpath]
      exact hop p c names rfl hc hnames
    · exact h.image hc hnames hold
  | assign hnew hpath =>
    rename_i c imageID now a
    obtain ⟨names, hnames, hother, himages⟩ := hop
    refine ⟨?_, ?_, ?_⟩
    · intro d b hb
      rcases getElem?_insert_eq_some hb with ⟨hd, hba⟩ | ⟨_, hold⟩
      · rw [hd, hba, hpath]
        exact ⟨names, hnames, overlayPath_eq s.root hnames⟩
      · exact h.file hold
    · intro d e xs ys hd he hne hxs hys hsame
      rcases eq_or_ne_none_of_insert hd with hdc | hd
      · have hec : e ≠ c := fun hec => hne (hdc.trans hec.symm)
        have he := (eq_or_ne_none_of_insert he).resolve_left hec
        rw [hdc, hnames] at hxs
        rw [← Option.some.inj hxs] at hsame
        exact hother e ys hec he hys hsame.symm
      · rcases eq_or_ne_none_of_insert he with hec | he
        · rw [hec, hnames] at hys
          rw [← Option.some.inj hys] at hsame
          exact hother d xs (fun hdc => hne (hdc.trans hec.symm)) hd hxs hsame
        · exact h.names hd he hne hxs hys hsame
    · intro d i xs img hd hxs himg
      rcases eq_or_ne_none_of_insert hd with hdc | hd
      · rw [hdc, hnames] at hxs
        rw [← Option.some.inj hxs]
        exact himages i img himg
      · exact h.image hd hxs himg
  | release =>
    rename_i c
    have hleft : ∀ {d : Str}, (s.assignments.erase c)[d]? ≠ none → s.assignments[d]? ≠ none := by
      intro d hd
      rw [← getElem?_erase_of_ne_none hd]
      exact hd
    refine ⟨?_, ?_, ?_⟩
    · intro d b hb
      have hd : (s.assignments.erase c)[d]? ≠ none := by
        show (s.assignments.erase c)[d]? ≠ none
        intro hnone
        rw [hnone] at hb
        cases hb
      rw [getElem?_erase_of_ne_none hd] at hb
      exact h.file hb
    · intro d e xs ys hd he
      exact h.names (hleft hd) (hleft he)
    · intro d i xs img hd
      exact h.image (hleft hd)

/-- In every state of a run whose operations keep their paths apart the overlays are
isolated. -/
theorem overlays_isolated (sys : Filepath.Sys) (root : Filepath.Abs sys.os)
    (ops : List (StorageOp sys.os))
    (h : Along (storageStep sys) (Apart sys) (newStorage root) ops) :
    Throughout (storageStep sys) (Isolated sys) (newStorage root) ops := by
  have hrun := throughout_of_along (I := Overlays) (fun s op hs hop => Overlays.step hs hop)
    (overlays_new root) h
  exact hrun.mono fun s hs => hs.isolated

end Isolation

/-! A storage with one image, a client with a plain id, and one with `..` in its id. -/

theorem toLower_eq_slash_iff (c : Char) : (c.toLower == '/') = (c == '/') := by
  by_cases h : 65 ≤ c.toNat ∧ c.toNat ≤ 90
  · have hall : ∀ n < 91, 65 ≤ n → ((Char.ofNat n).toLower == '/') = (Char.ofNat n == '/') := by
      decide
    rw [← Char.ofNat_toNat c]
    exact hall c.toNat (by omega) h.1
  · have hsame : c.toLower = c := by
      rw [Char.toLower, dif_neg]
      exact h
    rw [hsame]

def unixSys : Filepath.Sys where
  os := .unix
  toLower := Char.toLower
  isSep_toLower := toLower_eq_slash_iff

def dataImages : Filepath.Abs unixSys.os where
  volume := []
  names := ["data".toList, "images".toList]
  isName := by decide

def baseImage : Filepath.Abs unixSys.os where
  volume := []
  names := ["data".toList, "images".toList, "base.avhdx".toList]
  isName := by decide

def registerBase : StorageOp unixSys.os :=
  .register "win".toList "Windows".toList "/data/images/base.avhdx".toList (some baseImage)
    (.file 4096) 0

def plainClient : List (StorageOp unixSys.os) :=
  [registerBase, .assign "client-0001".toList "win".toList 1]

theorem plain_client_isolated :
    Along (storageStep unixSys) (Apart unixSys) (newStorage dataImages) plainClient ∧
      Isolated unixSys (run (storageStep unixSys) (newStorage dataImages) plainClient) := by
  have hnone : ∀ (d : Str), (newStorage dataImages).assignments[d]? = none := fun _ => rfl
  have hregister : Apart unixSys (newStorage dataImages) registerBase := by
    intro p d ns _ hd
    exact absurd (hnone d) hd
  have hassign : Apart unixSys (storageStep unixSys (newStorage dataImages) registerBase)
      (.assign "client-0001".toList "win".toList 1) := by
    refine ⟨["client-0001.avhdx".toList], by decide +kernel, ?_, ?_⟩
    · intro d ns _ hd
      exact absurd (hnone d) hd
    · intro i img himg
      rcases getElem?_insert_eq_some himg with ⟨_, heq⟩ | ⟨_, hold⟩
      · rw [heq]
        decide +kernel
      · cases hold
  have halong : Along (storageStep unixSys) (Apart unixSys) (newStorage dataImages) plainClient :=
    ⟨hregister, hassign, trivial⟩
  exact ⟨halong, overlays_isolated unixSys dataImages plainClient halong plainClient
    (List.prefix_refl _)⟩

def dotdotClient : List (StorageOp unixSys.os) :=
  [registerBase, .assign "../base".toList "win".toList 1]

theorem dotdot_overlay_is_image :
    ¬ Isolated unixSys (run (storageStep unixSys) (newStorage dataImages) dotdotClient) := by
  intro h
  have hoverlay : ((run (storageStep unixSys) (newStorage dataImages) dotdotClient).assignments[
      "../base".toList]?).map (·.overlayPath) = some "/data/images/base.avhdx".toList := by
    decide +kernel
  have hpath : ((run (storageStep unixSys) (newStorage dataImages) dotdotClient).images[
      "win".toList]?).map (·.path) = some "/data/images/base.avhdx".toList := by
    decide +kernel
  obtain ⟨a, ha, haeq⟩ := Option.map_eq_some_iff.mp hoverlay
  obtain ⟨img, himg, himgeq⟩ := Option.map_eq_some_iff.mp hpath
  refine h.noImage ha himg ?_
  rw [haeq, himgeq]
  rfl

end Server
end MkyBoot
