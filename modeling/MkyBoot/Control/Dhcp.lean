import MkyBoot.Control.Valid

/-!
# The generated `dhcpd.conf`

`ExportDHCP` writes the global part of the configuration and then, for every
workstation with a name, a host block.  The block is opened and filled under the
test `enable == "1"`, but the workstation's options and the closing brace are
written outside of it.

Every call of `file:write` in the function ends a line, so the file is modelled as
the list of these lines; a line taken from the configuration may contain further
line breaks.
-/

namespace MkyBoot
namespace Control
namespace Dhcp

open Lua

structure Subnet where
  sub : Str
  mask : Str
  ranges : List Str

/-- A workstation with a name.  Its fields are well formed. -/
structure Machine where
  name : Str
  enable : Val
  mac : Str
  ipv4 : Str
  fileboot : Str
  opt : List Str
  name_ok : Valid.hostname (.str name) = true
  mac_ok : Valid.mac (.str mac) = true
  ipv4_ok : Valid.ipv4 (.str ipv4) = true
  fileboot_ok : ∀ c ∈ fileboot, isWord c = true
  opt_ok : ∀ o ∈ opt, '\x7b' ∉ o ∧ '\x7d' ∉ o

structure Config where
  vendor : Str
  version : Str
  global : List (Str × Val)
  opt : List (Str × Val)
  sub : List Subnet
  ipxe : Str
  /-- `cfg.tftp.workdir` -/
  tftp : Option Str
  /-- A deleted workstation leaves an entry without a name. -/
  wks : List (Option Machine)

def Machine.enabled (m : Machine) : Bool := tostring m.enable == ['1']

/-! ## `ExportDHCP` -/

def rule : Str := String.toList
  "#[============================================================================================]#"

def optionLine (i : Str) (v : Val) : Str :=
  if i = "domain-name".toList then
    "\toption ".toList ++ i ++ " \"".toList ++ tostring v ++ "\";".toList
  else "\toption ".toList ++ i ++ " ".toList ++ tostring v ++ ";".toList

def subnetLines (s : Subnet) : List Str :=
  ["\tsubnet ".toList ++ s.sub ++ " netmask ".toList ++ s.mask ++ " \x7b".toList] ++
    s.ranges.map (fun val => "            range ".toList ++ val ++ ";".toList) ++ ["\x7d".toList]

def preamble (cfg : Config) : List Str :=
  ["## ### THIS FILE AUTOGEENERATION ### #".toList,
    "# ### ".toList ++ cfg.vendor ++ " ".toList ++ cfg.version ++ "______  ### #".toList, rule] ++
  cfg.global.map (fun e => e.1 ++ " ".toList ++ tostring e.2 ++ ";".toList) ++ [rule] ++
  cfg.opt.map (fun e => optionLine e.1 e.2) ++ [rule] ++
  cfg.sub.flatMap subnetLines ++ [rule, cfg.ipxe, rule]

section

-- the answers of `isFile`
variable (installed : Str → Bool)

def efi32Lines (cfg : Config) (fileboot : Str) : List Str :=
  if installed (cfg.tftp.getD "/srv/tftp".toList ++ "/".toList ++ fileboot ++ "32.efi".toList) then
    ["\t\tfilename \"".toList ++ fileboot ++ "32.efi\";".toList]
  else
    ["\t\t# ".toList ++ fileboot ++
        "32.efi not installed; using the 64-bit UEFI image instead.".toList,
      "\t\tfilename \"".toList ++ fileboot ++ ".efi\";".toList]

/-- What is written for an enabled workstation, up to the end of its boot files. -/
def hostLines (cfg : Config) (name mac ipv4 fileboot : Str) : List Str :=
  ["host ".toList ++ name ++ " \x7b".toList,
    "\thardware ethernet ".toList ++ mac ++ " ;".toList,
    "\tfixed-address ".toList ++ ipv4 ++ ";".toList,
    "\toption host-name \"".toList ++ name ++ "\";".toList,
    "\tif substring (option vendor-class-identifier, 15, 5) = \"00000\" \x7b".toList,
    "\t\tfilename \"".toList ++ fileboot ++ ".kpxe\";".toList,
    "\t\x7d".toList,
    "\telsif substring (option vendor-class-identifier, 15, 5) = \"00006\" \x7b".toList] ++
  efi32Lines installed cfg fileboot ++
  ["\t\x7d".toList,
    "\telse \x7b".toList,
    "\t\tfilename \"".toList ++ fileboot ++ ".efi\";".toList,
    "\t\x7d".toList]

/-- What is written for every workstation with a name. -/
def closeLines (opt : List Str) : List Str :=
  opt.map (fun val => "option\t".toList ++ val ++ ";".toList) ++ ["\x7d".toList]

def machineLines (cfg : Config) : Option Machine → List Str
  | none => []
  | some m =>
    (if m.enabled then hostLines installed cfg m.name m.mac m.ipv4 m.fileboot else []) ++
      closeLines m.opt

def unlines (ls : List Str) : Str := ls.flatMap (· ++ ['\n'])

def exportDHCP (cfg : Config) : Str :=
  unlines (preamble cfg ++ cfg.wks.flatMap (machineLines installed cfg))

end

/-! ## Braces -/

def brace (d : ℕ) (c : Char) : Option ℕ :=
  if c = '\x7b' then some (d + 1)
  else if c = '\x7d' then (if d = 0 then none else some (d - 1))
  else some d

/-- The depth after a text, `none` when it went below zero. -/
def scan (d : ℕ) (t : Str) : Option ℕ := t.foldlM brace d

def Balanced (t : Str) : Prop := scan 0 t = some 0

instance (t : Str) : Decidable (Balanced t) := inferInstanceAs (Decidable (_ = _))

def Free (t : Str) : Prop := '\x7b' ∉ t ∧ '\x7d' ∉ t

instance (t : Str) : Decidable (Free t) := inferInstanceAs (Decidable (_ ∧ _))

theorem scan_append (d : ℕ) (t u : Str) : scan d (t ++ u) = (scan d t).bind (scan · u) :=
  List.foldlM_append

theorem scan_of_free {t : Str} (h : Free t) (d : ℕ) : scan d t = some d := by
  induction t with
  | nil => rfl
  | cons c t ih =>
    obtain ⟨hopen, hclose⟩ := h
    rw [List.mem_cons, not_or] at hopen hclose
    have hbrace : brace d c = some d := by
      rw [brace, if_neg (Ne.symm hopen.1), if_neg (Ne.symm hclose.1)]
    rw [scan, List.foldlM_cons, hbrace]
    exact ih ⟨hopen.2, hclose.2⟩

theorem free_append {t u : Str} (ht : Free t) (hu : Free u) : Free (t ++ u) := by
  refine ⟨fun h => ?_, fun h => ?_⟩
  · obtain h | h := List.mem_append.mp h
    · exact ht.1 h
    · exact hu.1 h
  · obtain h | h := List.mem_append.mp h
    · exact ht.2 h
    · exact hu.2 h

theorem scan_opens {l t : Str} (hl : l = t ++ ['\x7b']) (ht : Free t) (d : ℕ) :
    scan d l = some (d + 1) := by
  rw [hl, scan_append, scan_of_free ht]
  rfl

theorem scan_closes {l t : Str} (hl : l = t ++ ['\x7d']) (ht : Free t) (d : ℕ) :
    scan (d + 1) l = some d := by
  rw [hl, scan_append, scan_of_free ht]
  rfl

theorem scan_unlines_cons (d : ℕ) (l : Str) (ls : List Str) :
    scan d (unlines (l :: ls)) = (scan d l).bind (scan · (unlines ls)) := by
  have hline : unlines (l :: ls) = l ++ (['\n'] ++ unlines ls) := by simp [unlines]
  have hbreak (e : ℕ) : scan e (['\n'] ++ unlines ls) = scan e (unlines ls) := rfl
  rw [hline, scan_append]
  simp only [hbreak]

theorem unlines_append (ls ms : List Str) : unlines (ls ++ ms) = unlines ls ++ unlines ms :=
  List.flatMap_append

theorem scan_unlines_free {ls : List Str} (h : ∀ l ∈ ls, Free l) (d : ℕ) :
    scan d (unlines ls) = some d := by
  induction ls with
  | nil => rfl
  | cons l ls ih =>
    rw [scan_unlines_cons, scan_of_free (h l List.mem_cons_self)]
    exact ih fun m hm => h m (List.mem_cons_of_mem l hm)

theorem free_of_address {t : Str} (h : Valid.Address t) : Free t := by
  have hopen : Valid.isAddressChar '\x7b' = false := by decide
  have hclose : Valid.isAddressChar '\x7d' = false := by decide
  exact ⟨fun hm => absurd ((h.2 _ hm).symm.trans hopen) (by decide),
    fun hm => absurd ((h.2 _ hm).symm.trans hclose) (by decide)⟩

namespace Machine

variable (m : Machine)

theorem free_name : Free m.name := free_of_address (Valid.address_hostname m.name_ok)

theorem free_mac : Free m.mac := free_of_address (Valid.address_mac m.mac_ok)

theorem free_ipv4 : Free m.ipv4 := free_of_address (Valid.address_ipv4 m.ipv4_ok)

theorem free_fileboot : Free m.fileboot :=
  ⟨fun hm => absurd (m.fileboot_ok _ hm) (by decide),
    fun hm => absurd (m.fileboot_ok _ hm) (by decide)⟩

/-- Fixed text around a field. -/
theorem free_around {a b t : Str} (ht : Free t) (ha : Free a) (hb : Free b) : Free (a ++ t ++ b) :=
  free_append (free_append ha ht) hb

end Machine

section

variable (installed : Str → Bool) (cfg : Config) (m : Machine)

theorem free_efi32Lines : ∀ l ∈ efi32Lines installed cfg m.fileboot, Free l := by
  intro l hl
  unfold efi32Lines at hl
  split at hl
  · rw [List.mem_singleton.mp hl]
    exact Machine.free_around m.free_fileboot (by decide) (by decide)
  · simp only [List.mem_cons, List.not_mem_nil, or_false] at hl
    obtain rfl | rfl := hl
    · exact Machine.free_around m.free_fileboot (by decide) (by decide)
    · exact Machine.free_around m.free_fileboot (by decide) (by decide)

/-- The lines of an enabled workstation leave one block open. -/
theorem scan_hostLines (d : ℕ) :
    scan d (unlines (hostLines installed cfg m.name m.mac m.ipv4 m.fileboot)) = some (d + 1) := by
  have hhost : scan d ("host ".toList ++ m.name ++ " \x7b".toList) = some (d + 1) :=
    scan_opens (List.append_assoc ("host ".toList ++ m.name) [' '] ['\x7b']).symm
      (Machine.free_around m.free_name (by decide) (by decide)) d
  have hfield {a t b : Str} (ht : Free t) (ha : Free a) (hb : Free b) (e : ℕ) :
      scan e (a ++ t ++ b) = some e := scan_of_free (Machine.free_around ht ha hb) e
  have hclose (e : ℕ) : scan (e + 1) "\t\x7d".toList = some e :=
    scan_closes (t := ['\t']) rfl (by decide) e
  have hbios (e : ℕ) :
      scan e "\tif substring (option vendor-class-identifier, 15, 5) = \"00000\" \x7b".toList =
        some (e + 1) :=
    scan_opens (t := "\tif substring (option vendor-class-identifier, 15, 5) = \"00000\" ".toList)
      (by rewrite [String.toList_ofList, String.toList_ofList]; rfl)
      (by rewrite [String.toList_ofList]; decide) e
  have huefi (e : ℕ) :
      scan e "\telsif substring (option vendor-class-identifier, 15, 5) = \"00006\" \x7b".toList =
        some (e + 1) :=
    scan_opens
      (t := "\telsif substring (option vendor-class-identifier, 15, 5) = \"00006\" ".toList)
      (by rewrite [String.toList_ofList, String.toList_ofList]; rfl)
      (by rewrite [String.toList_ofList]; decide) e
  have helse (e : ℕ) : scan e "\telse \x7b".toList = some (e + 1) :=
    scan_opens (t := "\telse ".toList) rfl (by decide) e
  have hnil (e : ℕ) : scan e (unlines []) = some e := rfl
  rw [hostLines, unlines_append, unlines_append, scan_append, scan_append]
  simp (disch := decide) only [scan_unlines_cons, hhost, hfield m.free_mac, hfield m.free_ipv4,
    hfield m.free_name, hfield m.free_fileboot, hbios, huefi, helse, hclose, hnil,
    scan_unlines_free (free_efi32Lines installed cfg m), Option.bind_some]

theorem free_options :
    ∀ l ∈ m.opt.map (fun val => "option\t".toList ++ val ++ ";".toList), Free l := by
  intro l hl
  obtain ⟨o, ho, rfl⟩ := List.mem_map.mp hl
  exact Machine.free_around (m.opt_ok o ho) (by decide) (by decide)

/-- The lines every named workstation gets close a block. -/
theorem scan_closeLines (d : ℕ) : scan (d + 1) (unlines (closeLines m.opt)) = some d := by
  rw [closeLines, unlines_append, scan_append, scan_unlines_free (free_options m)]
  rfl

theorem scan_machineLines (h : m.enabled = true) (d : ℕ) :
    scan d (unlines (machineLines installed cfg (some m))) = some d := by
  rw [machineLines, if_pos h, unlines_append, scan_append, scan_hostLines]
  exact scan_closeLines m d

end

/-! ## Host declarations -/

/-- The name in a line that opens a host block. -/
def hostName (l : Str) : Option Str :=
  if "host ".toList.isPrefixOf l && " \x7b".toList.isSuffixOf l then
    some ((l.drop 5).take (l.length - 7))
  else none

def hosts (t : Str) : List Str := (t.splitOn '\n').filterMap hostName

theorem hosts_unlines (ls : List Str) : hosts (unlines ls) = ls.flatMap hosts := by
  induction ls with
  | nil => rfl
  | cons l ls ih =>
    have hline : unlines (l :: ls) = l ++ '\n' :: unlines ls := by simp [unlines]
    rw [hline, hosts, List.splitOn_append_cons_self, List.filterMap_append, List.flatMap_cons, ← ih]
    rfl

theorem mem_intercalate {ls : List Str} {l : Str} (hl : l ∈ ls) {c : Char} (hc : c ∈ l) :
    c ∈ ['\n'].intercalate ls := by
  induction ls with
  | nil => exact absurd hl List.not_mem_nil
  | cons m ls ih =>
    by_cases hls : ls = []
    · subst hls
      rw [List.intercalate_singleton, ← List.mem_singleton.mp hl]
      exact hc
    · rw [List.intercalate_cons_of_ne_nil hls]
      obtain hl | hl := List.mem_cons.mp hl
      · rw [← hl, List.append_assoc]
        exact List.mem_append_left _ hc
      · exact List.mem_append_right _ (ih hl)

/-- A text without an opening brace declares no host. -/
theorem hosts_of_free {t : Str} (h : Free t) : hosts t = [] := by
  refine List.filterMap_eq_nil_iff.mpr fun l hl => ?_
  have hjoin : ['\n'].intercalate (t.splitOn '\n') = t := List.intercalate_splitOn '\n'
  have hopen : '\x7b' ∉ l := fun hm => h.1 (hjoin ▸ mem_intercalate hl hm)
  rw [hostName, if_neg]
  rw [Bool.and_eq_true, not_and]
  intro _ hsuff
  obtain ⟨u, rfl⟩ := List.isSuffixOf_iff_suffix.mp hsuff
  exact hopen (List.mem_append_right u (by decide))

theorem hosts_declaration {name : Str} (h : Valid.hostname (.str name) = true) :
    hosts ("host ".toList ++ name ++ " \x7b".toList) = [name] := by
  have hname : '\n' ∉ name := fun hm =>
    absurd ((Valid.address_hostname h).2 _ hm) (by decide)
  have hbreak : '\n' ∉ "host ".toList ++ name ++ " \x7b".toList := by
    rw [List.mem_append, List.mem_append, not_or, not_or]
    exact ⟨⟨by decide, hname⟩, by decide⟩
  have hdecl : hostName ("host ".toList ++ name ++ " \x7b".toList) = some name := by
    have hstart : "host ".toList.isPrefixOf ("host ".toList ++ name ++ " \x7b".toList) = true := by
      rw [List.isPrefixOf_iff_prefix, List.append_assoc]
      exact List.prefix_append _ _
    have hend : " \x7b".toList.isSuffixOf ("host ".toList ++ name ++ " \x7b".toList) = true := by
      rw [List.isSuffixOf_iff_suffix]
      exact List.suffix_append _ _
    rw [hostName, hstart, hend]
    simp
  rw [hosts, List.splitOn_eq_singleton hbreak, List.filterMap_cons_some hdecl, List.filterMap_nil]

section

variable (installed : Str → Bool) (cfg : Config) (m : Machine)

theorem hosts_hostLines :
    (hostLines installed cfg m.name m.mac m.ipv4 m.fileboot).flatMap hosts = [m.name] := by
  have hefi : (efi32Lines installed cfg m.fileboot).flatMap hosts = [] :=
    List.flatMap_eq_nil_iff.mpr fun l hl => hosts_of_free (free_efi32Lines installed cfg m l hl)
  have hfield {a t b : Str} (ht : Free t) (ha : Free a) (hb : Free b) : hosts (a ++ t ++ b) = [] :=
    hosts_of_free (Machine.free_around ht ha hb)
  have hfixed : ["\tif substring (option vendor-class-identifier, 15, 5) = \"00000\" \x7b".toList,
      "\telsif substring (option vendor-class-identifier, 15, 5) = \"00006\" \x7b".toList,
      "\telse \x7b".toList, "\t\x7d".toList].map hosts = [[], [], [], []] := by
    rewrite [String.toList_ofList, String.toList_ofList, String.toList_ofList,
      String.toList_ofList]
    decide +kernel
  simp only [List.map_cons, List.map_nil, List.cons.injEq, and_true] at hfixed
  obtain ⟨hbios, huefi, helse, hclose⟩ := hfixed
  rw [hostLines]
  simp (disch := decide) only [List.flatMap_append, List.flatMap_cons, List.flatMap_nil, hefi,
    hosts_declaration m.name_ok, hfield m.free_mac, hfield m.free_ipv4, hfield m.free_name,
    hfield m.free_fileboot, hbios, huefi, helse, hclose, List.append_nil]

theorem hosts_closeLines : (closeLines m.opt).flatMap hosts = [] := by
  rw [closeLines, List.flatMap_append,
    List.flatMap_eq_nil_iff.mpr fun l hl => hosts_of_free (free_options m l hl)]
  rfl

theorem hosts_machineLines (h : m.enabled = true) :
    (machineLines installed cfg (some m)).flatMap hosts = [m.name] := by
  rw [machineLines, if_pos h, List.flatMap_append, hosts_hostLines, hosts_closeLines]
  rfl

/-! ## Well-formed exports -/

/-- The workstations that should have a host block. -/
def enabledMachines (wks : List (Option Machine)) : List Machine :=
  (wks.filterMap id).filter Machine.enabled

/-- Braces are balanced, the hosts declared after the global part are the enabled
workstations, and no other workstation contributes to the text. -/
def WellFormed : Prop :=
  Balanced (exportDHCP installed cfg) ∧
    hosts (exportDHCP installed cfg) =
      hosts (unlines (preamble cfg)) ++ (enabledMachines cfg.wks).map Machine.name ∧
    exportDHCP installed cfg =
      exportDHCP installed { cfg with wks := (enabledMachines cfg.wks).map some }

def AllEnabled (wks : List (Option Machine)) : Prop := ∀ m, some m ∈ wks → m.enabled = true

theorem exportDHCP_eq : exportDHCP installed cfg =
    unlines (preamble cfg) ++ unlines (cfg.wks.flatMap (machineLines installed cfg)) :=
  unlines_append _ _

theorem scan_wks {wks : List (Option Machine)} (h : AllEnabled wks) (d : ℕ) :
    scan d (unlines (wks.flatMap (machineLines installed cfg))) = some d := by
  induction wks with
  | nil => rfl
  | cons w wks ih =>
    have hrest := ih fun m hm => h m (List.mem_cons_of_mem w hm)
    rw [List.flatMap_cons, unlines_append, scan_append]
    cases w with
    | none => exact hrest
    | some m =>
      rw [scan_machineLines installed cfg m (h m List.mem_cons_self)]
      exact hrest

theorem enabledMachines_cons_none (wks : List (Option Machine)) :
    enabledMachines (none :: wks) = enabledMachines wks := rfl

theorem enabledMachines_cons_some (wks : List (Option Machine)) :
    enabledMachines (some m :: wks) =
      if m.enabled then m :: enabledMachines wks else enabledMachines wks := by
  show (m :: wks.filterMap id).filter Machine.enabled = _
  rw [List.filter_cons]
  rfl

theorem hosts_wks {wks : List (Option Machine)} (h : AllEnabled wks) :
    (wks.flatMap (machineLines installed cfg)).flatMap hosts =
      (enabledMachines wks).map Machine.name := by
  induction wks with
  | nil => rfl
  | cons w wks ih =>
    have hrest := ih fun m hm => h m (List.mem_cons_of_mem w hm)
    rw [List.flatMap_cons, List.flatMap_append, hrest]
    cases w with
    | none => rfl
    | some m =>
      have hm := h m List.mem_cons_self
      rw [hosts_machineLines installed cfg m hm, enabledMachines_cons_some, if_pos hm]
      rfl

theorem lines_wks {wks : List (Option Machine)} (h : AllEnabled wks) :
    ((enabledMachines wks).map some).flatMap (machineLines installed cfg) =
      wks.flatMap (machineLines installed cfg) := by
  induction wks with
  | nil => rfl
  | cons w wks ih =>
    have hrest := ih fun m hm => h m (List.mem_cons_of_mem w hm)
    cases w with
    | none => exact hrest
    | some m =>
      rw [enabledMachines_cons_some, if_pos (h m List.mem_cons_self), List.map_cons,
        List.flatMap_cons, List.flatMap_cons, hrest]

/-- The other named workstations add the text of their closing lines. -/
theorem length_wks (wks : List (Option Machine)) :
    (unlines (((enabledMachines wks).map some).flatMap (machineLines installed cfg))).length ≤
        (unlines (wks.flatMap (machineLines installed cfg))).length ∧
      ((unlines (((enabledMachines wks).map some).flatMap (machineLines installed cfg))).length =
        (unlines (wks.flatMap (machineLines installed cfg))).length → AllEnabled wks) := by
  induction wks with
  | nil => exact ⟨Nat.le_refl _, fun _ m hm => absurd hm List.not_mem_nil⟩
  | cons w wks ih =>
    obtain ⟨hle, heq⟩ := ih
    rw [List.flatMap_cons, unlines_append, List.length_append]
    cases w with
    | none =>
      rw [enabledMachines_cons_none]
      have hnone : (unlines (machineLines installed cfg none)).length = 0 := rfl
      refine ⟨by omega, fun h m hm => heq (by omega) m ?_⟩
      exact (List.mem_cons.mp hm).resolve_left (by simp)
    | some n =>
      rw [enabledMachines_cons_some]
      by_cases hn : n.enabled = true
      · rw [if_pos hn, List.map_cons, List.flatMap_cons, unlines_append, List.length_append]
        refine ⟨by omega, fun h m hm => ?_⟩
        obtain hm | hm := List.mem_cons.mp hm
        · injection hm with hm
          rw [hm]
          exact hn
        · exact heq (by omega) m hm
      · rw [if_neg hn]
        have hclose : 0 < (unlines (machineLines installed cfg (some n))).length := by
          rw [machineLines, if_neg hn, closeLines]
          simp [unlines]
        exact ⟨by omega, fun h => absurd h (by omega)⟩

/-- The file is well formed exactly when every workstation with a name is enabled and
the global part is balanced by itself. -/
theorem export_wellFormed_iff :
    WellFormed installed cfg ↔ AllEnabled cfg.wks ∧ Balanced (unlines (preamble cfg)) := by
  constructor
  · rintro ⟨hbalanced, -, honly⟩
    have hall : AllEnabled cfg.wks := by
      refine (length_wks installed cfg cfg.wks).2 ?_
      rw [exportDHCP_eq, exportDHCP_eq] at honly
      exact congrArg List.length (List.append_cancel_left honly).symm
    refine ⟨hall, ?_⟩
    rw [exportDHCP_eq, Balanced, scan_append] at hbalanced
    show scan 0 (unlines (preamble cfg)) = some 0
    simpa [scan_wks installed cfg hall] using hbalanced
  · rintro ⟨hall, hbalanced⟩
    refine ⟨?_, ?_, ?_⟩
    · rw [exportDHCP_eq, Balanced, scan_append, hbalanced]
      exact scan_wks installed cfg hall 0
    · rw [exportDHCP, hosts_unlines, List.flatMap_append, hosts_wks installed cfg hall,
        ← hosts_unlines]
    · rw [exportDHCP_eq, exportDHCP_eq]
      exact congrArg (unlines (preamble cfg) ++ unlines ·) (lines_wks installed cfg hall).symm

/-! One workstation, switched off. -/

def disabledMachine : Machine where
  name := "PC003".toList
  enable := .str ['0']
  mac := "b4:2e:99:2c:dd:52".toList
  ipv4 := "192.168.0.3".toList
  fileboot := "ipxe".toList
  opt := []
  name_ok := by decide
  mac_ok := by decide
  ipv4_ok := by decide +kernel
  fileboot_ok := by decide
  opt_ok := by decide

def disabledConfig : Config where
  vendor := "MKYBOOT".toList
  version := "1.0".toList
  global := [("authoritative".toList, .str [])]
  opt := []
  sub := [⟨"192.168.0.0".toList, "255.255.255.0".toList, ["192.168.0.100 192.168.0.200".toList]⟩]
  ipxe := "option ipxe.no-pxedhcp 1;".toList
  tftp := none
  wks := [some disabledMachine]

/-- Its closing brace closes nothing. -/
theorem disabled_export_unbalanced :
    Balanced (unlines (preamble disabledConfig)) ∧
      ¬ WellFormed (fun _ => false) disabledConfig := by
  refine ⟨by decide +kernel, fun h => ?_⟩
  exact absurd h.1 (by decide +kernel)

end

end Dhcp
end Control
end MkyBoot
