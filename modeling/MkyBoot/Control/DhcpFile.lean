import MkyBoot.Control.Persist
import MkyBoot.Control.Dhcp

/-!
# Writing `dhcpd.conf`

`ExportDHCP` renames the file, opens it again and writes it piece by piece on a walk
through the configuration, of which `checkconf` has looked at a few fields only.  Every
value on the way that is not what the walk needs raises an error, and what is left is the
beginning of a file.  `export_all_or_nothing_iff` says which configurations are written
to the end; a workstation without `opt`, as the README has it, is none of them.

For configurations with all fields the walk writes the text of `Dhcp.exportDHCP`
(`walk_ofConfig`).
-/

namespace MkyBoot
namespace Control
namespace DhcpFile

open Lua Posix Persist Output

def str (s : String) : Tab := .val (.str s.toList)

def fieldAt (cfg : Tab) (keys : List String) : Option Tab := cfg.path (keys.map String.toList)

/-! ## The walk -/

section Walk

def rule : Output := piece (Dhcp.rule ++ ['\n'])

/-- The first three lines. -/
def heading (cfg : Tab) : Output :=
  (piece "## ### THIS FILE AUTOGEENERATION ### #\n".toList).andThen <|
  (need ((fieldAt cfg ["server", "vendor"]).bind Tab.text) fun vendor =>
    need ((fieldAt cfg ["server", "version"]).bind Tab.text) fun version =>
      piece ("# ### ".toList ++ vendor ++ " ".toList ++ version ++
        "______  ### #\n".toList)).andThen
  rule

def globals (cfg : Tab) : Output :=
  need ((fieldAt cfg ["dhcp", "config", "global"]).bind Tab.pairs) fun es => each es fun e =>
    write [.val e.1, str " ", .val (.str (tostring e.2.toVal ++ ";\n".toList))]

def options (cfg : Tab) : Output :=
  need ((fieldAt cfg ["dhcp", "config", "opt"]).bind Tab.pairs) fun es => each es fun e =>
    need (Tab.val e.1).text fun i =>
      if e.1 = .str "domain-name".toList then
        write [.val (.str ("\toption ".toList ++ i)), str " \"",
          .val (.str (tostring e.2.toVal ++ "\";\n".toList))]
      else
        write [.val (.str ("\toption ".toList ++ i)), str " ",
          .val (.str (tostring e.2.toVal ++ ";\n".toList))]

/-- A call of `file:write` with a field of `v` in the middle. -/
def line (v : Tab) (before field after : String) : Output :=
  need (v.index field.toList) fun x => write [str before, x, str after]

/-- A loop over a field of `v` that writes each entry. -/
def entries (v : Tab) (field before after : String) : Output :=
  need ((v.index field.toList).bind Tab.ipairs) fun vals => each vals fun val =>
    write [str before, val, str after]

def subnet (v : Tab) : Output :=
  (need (v.index "sub".toList) fun sub => need (v.index "mask".toList) fun mask =>
    write [str "\tsubnet ", sub, str " netmask ", mask, str " \x7b\n"]).andThen <|
  (entries v "ranges" "            range " ";\n").andThen <|
  piece "\x7d\n".toList

def subnets (cfg : Tab) : Output :=
  need ((fieldAt cfg ["dhcp", "config", "sub"]).bind Tab.ipairs) fun vs => each vs subnet

def ipxe (cfg : Tab) : Output :=
  need (fieldAt cfg ["dhcp", "config", "ipxe"]) fun x => write [x, str "\n"]

/-- `mkyboot.cfg.tftp and mkyboot.cfg.tftp.workdir or "/srv/tftp"` -/
def tftpRoot (cfg : Tab) : Option Tab :=
  (cfg.index "tftp".toList).bind fun tftp =>
    if tftp.falsy then some (str "/srv/tftp")
    else (tftp.index "workdir".toList).map fun dir => if dir.falsy then str "/srv/tftp" else dir

variable (installed : Str → Bool)

/-- The boot file of 32-bit UEFI clients. -/
def efi32 (cfg v : Tab) : Output :=
  need ((tftpRoot cfg).bind Tab.text) fun dir =>
    need ((v.index "fileboot".toList).bind Tab.text) fun fileboot =>
      if installed (dir ++ "/".toList ++ fileboot ++ "32.efi".toList) then
        line v "\t\tfilename \"" "fileboot" "32.efi\";\n"
      else
        (line v "\t\t# " "fileboot"
          "32.efi not installed; using the 64-bit UEFI image instead.\n").andThen
          (line v "\t\tfilename \"" "fileboot" ".efi\";\n")

/-- What is written for an enabled workstation, up to the end of its boot files. -/
def host (cfg v : Tab) : Output :=
  (line v "host " "name" " \x7b\n").andThen <|
  (line v "\thardware ethernet " "mac" " ;\n").andThen <|
  (line v "\tfixed-address " "ipv4" ";\n").andThen <|
  (line v "\toption host-name \"" "name" "\";\n").andThen <|
  (piece <| String.toList
    "\tif substring (option vendor-class-identifier, 15, 5) = \"00000\" \x7b\n").andThen <|
  (line v "\t\tfilename \"" "fileboot" ".kpxe\";\n").andThen <|
  (piece "\t\x7d\n".toList).andThen <|
  (piece <| String.toList
    "\telsif substring (option vendor-class-identifier, 15, 5) = \"00006\" \x7b\n").andThen <|
  (efi32 installed cfg v).andThen <|
  (piece "\t\x7d\n".toList).andThen <|
  (piece "\telse \x7b\n".toList).andThen <|
  (line v "\t\tfilename \"" "fileboot" ".efi\";\n").andThen <|
  piece "\t\x7d\n".toList

def machine (cfg v : Tab) : Output :=
  need (v.index "name".toList) fun name =>
    if name.isNil then done
    else
      (need (v.index "enable".toList) fun enable =>
        if tostring enable.toVal = ['1'] then host installed cfg v else done).andThen <|
      (entries v "opt" "option\t" ";\n").andThen <|
      piece "\x7d\n".toList

def machines (cfg : Tab) : Output :=
  need ((fieldAt cfg ["wks"]).bind Tab.pairs) fun es => each es fun e => machine installed cfg e.2

def walk (cfg : Tab) : Output :=
  (heading cfg).andThen <| (globals cfg).andThen <| rule.andThen <|
  (options cfg).andThen <| rule.andThen <|
  (subnets cfg).andThen <| rule.andThen <|
  (ipxe cfg).andThen <| rule.andThen <|
  machines installed cfg

end Walk

/-! ## `ExportDHCP` -/

/-- What the walk and the file system answer: the files that are installed, whether the
rename and the opening succeed, and the time in the name of the backup. -/
structure Host where
  installed : Str → Bool
  renames : Bool
  opens : Bool
  stamp : Str

/-- `mkyboot.cfg.dhcp.workdir.."/dhcpd.conf"` -/
def confFile (cfg : Tab) : Option Str :=
  ((fieldAt cfg ["dhcp", "workdir"]).bind Tab.text).map (· ++ "/dhcpd.conf".toList)

/-- `os.rename`, whose answer nobody looks at. -/
def moved (h : Host) (conf : Str) : List (FileOp Str) :=
  if h.renames then [.rename conf (conf ++ ".backup_".toList ++ h.stamp)] else []

/-- `ExportDHCP`: how it ends, and what it does to the file system on the way. -/
def exportDHCP (h : Host) (cfg : Tab) : Call Unit × List (FileOp Str) :=
  match checkconf cfg with
  | .raised => (.raised, [])
  | .returned false => (.returned (), [])
  | .returned true =>
    match confFile cfg with
    | none => (.raised, [])
    | some conf =>
      -- the first `file:write` on a file that has not been opened raises
      if h.opens then
        (if (walk h.installed cfg).ok then .returned () else .raised,
          moved h conf ++ FileOp.rewrite conf (walk h.installed cfg).pieces)
      else (.raised, moved h conf)

/-! ## Configurations that are written to the end -/

section Exportable

def isText (t : Tab) : Bool := t.text.isSome

def textField (v : Tab) (field : String) : Bool := (v.index field.toList).any isText

def textList (v : Tab) (field : String) : Bool :=
  ((v.index field.toList).bind Tab.ipairs).any (·.all isText)

def goodSubnet (v : Tab) : Bool := textField v "sub" && textField v "mask" && textList v "ranges"

def goodHost (cfg v : Tab) : Bool :=
  textField v "name" && textField v "mac" && textField v "ipv4" && textField v "fileboot" &&
    (tftpRoot cfg).any isText

/-- A workstation without a name is passed over.  One that has a name needs a list of
options, and if it is enabled the other fields. -/
def goodMachine (cfg v : Tab) : Bool :=
  (v.index "name".toList).any fun name => name.isNil ||
    ((v.index "enable".toList).any (fun enable =>
      tostring enable.toVal != ['1'] || goodHost cfg v) && textList v "opt")

structure Exportable (cfg : Tab) : Prop where
  vendor : (fieldAt cfg ["server", "vendor"]).any isText = true
  version : (fieldAt cfg ["server", "version"]).any isText = true
  global : ((fieldAt cfg ["dhcp", "config", "global"]).bind Tab.pairs).isSome = true
  opt : ((fieldAt cfg ["dhcp", "config", "opt"]).bind Tab.pairs).isSome = true
  sub : ((fieldAt cfg ["dhcp", "config", "sub"]).bind Tab.ipairs).any (·.all goodSubnet) = true
  ipxe : (fieldAt cfg ["dhcp", "config", "ipxe"]).any isText = true
  wks : ((fieldAt cfg ["wks"]).bind Tab.pairs).any (·.all fun e => goodMachine cfg e.2) = true

theorem any_bind_text (o : Option Tab) : ((o.bind Tab.text).any fun _ => true) = o.any isText := by
  cases o with
  | none => rfl
  | some t =>
    show (t.text.any fun _ => true) = t.text.isSome
    cases t.text <;> rfl

theorem heading_ok (cfg : Tab) : (heading cfg).ok =
    ((fieldAt cfg ["server", "vendor"]).any isText &&
      (fieldAt cfg ["server", "version"]).any isText) := by
  rw [← any_bind_text, ← any_bind_text]
  simp only [heading, rule, andThen_ok, need_ok, piece_ok, Bool.true_and, Bool.and_true]
  cases (fieldAt cfg ["server", "vendor"]).bind Tab.text <;> rfl

theorem line_ok (v : Tab) (before field after : String) :
    (line v before field after).ok = textField v field := by
  simp only [line, need_ok, write_ok, textField]
  cases v.index field.toList with
  | none => rfl
  | some x => simp [str, isText]

theorem entries_ok (v : Tab) (field before after : String) :
    (entries v field before after).ok = textList v field := by
  simp only [entries, need_ok, each_ok, write_ok, textList]
  congr 1
  funext vals
  congr 1
  funext val
  simp [str, isText]

/-- A loop over the pairs of a table that writes texts and keys. -/
theorem pairs_ok (o : Option Tab) {f : Val × Tab → Output}
    (h : ∀ e s, (Tab.val e.1).text = some s → (f e).ok = true) :
    (need (o.bind Tab.pairs) fun es => each es f).ok = (o.bind Tab.pairs).isSome := by
  rw [need_ok]
  cases hpairs : o.bind Tab.pairs with
  | none => rfl
  | some es =>
    obtain ⟨t, -, ht⟩ := Option.bind_eq_some_iff.mp hpairs
    rw [Option.any_some, each_ok, Option.isSome_some, List.all_eq_true]
    intro e he
    obtain ⟨s, hs⟩ := Tab.text_of_mem_pairs ht he
    exact h e s hs

theorem globals_ok (cfg : Tab) : (globals cfg).ok =
    ((fieldAt cfg ["dhcp", "config", "global"]).bind Tab.pairs).isSome :=
  pairs_ok _ fun e s hs => by simp [hs, str]

theorem options_ok (cfg : Tab) : (options cfg).ok =
    ((fieldAt cfg ["dhcp", "config", "opt"]).bind Tab.pairs).isSome := by
  refine pairs_ok _ fun e s hs => ?_
  rw [need_ok, hs, Option.any_some]
  split <;> simp [str]

theorem subnet_ok (v : Tab) : (subnet v).ok = goodSubnet v := by
  rw [subnet, andThen_ok, andThen_ok, entries_ok, piece_ok, Bool.and_true, goodSubnet]
  congr 1
  simp only [need_ok, write_ok, textField]
  cases v.index "sub".toList with
  | none => rfl
  | some x =>
    cases v.index "mask".toList with
    | none => simp
    | some y => simp [str, isText]

theorem subnets_ok (cfg : Tab) : (subnets cfg).ok =
    ((fieldAt cfg ["dhcp", "config", "sub"]).bind Tab.ipairs).any (·.all goodSubnet) := by
  simp only [subnets, need_ok, each_ok, subnet_ok]

theorem ipxe_ok (cfg : Tab) :
    (ipxe cfg).ok = (fieldAt cfg ["dhcp", "config", "ipxe"]).any isText := by
  simp only [ipxe, need_ok, write_ok]
  congr 1
  funext x
  simp [str, isText]

section

variable (installed : Str → Bool) (cfg : Tab)

theorem efi32_ok (v : Tab) : (efi32 installed cfg v).ok =
    ((tftpRoot cfg).any isText && textField v "fileboot") := by
  have hfield : textField v "fileboot" =
      ((v.index "fileboot".toList).bind Tab.text).any fun _ => true := (any_bind_text _).symm
  rw [← any_bind_text]
  simp only [efi32, need_ok]
  cases (tftpRoot cfg).bind Tab.text with
  | none => rfl
  | some dir =>
    rw [Option.any_some, Option.any_some, Bool.true_and]
    cases htext : (v.index "fileboot".toList).bind Tab.text with
    | none =>
      rw [hfield, htext]
      rfl
    | some fileboot =>
      rw [htext] at hfield
      rw [Option.any_some]
      split
      · exact line_ok v _ _ _
      · rw [andThen_ok, line_ok, line_ok, Bool.and_self]

theorem host_ok (v : Tab) : (host installed cfg v).ok = goodHost cfg v := by
  simp only [host, andThen_ok, line_ok, piece_ok, efi32_ok, goodHost, Bool.true_and, Bool.and_true]
  cases textField v "name" <;> cases textField v "mac" <;> cases textField v "ipv4" <;>
    cases textField v "fileboot" <;> simp

theorem machine_ok (v : Tab) : (machine installed cfg v).ok = goodMachine cfg v := by
  rw [machine, need_ok, goodMachine]
  congr 1
  funext name
  cases name.isNil with
  | true => rfl
  | false =>
    rw [if_neg Bool.false_ne_true, andThen_ok, andThen_ok, entries_ok, piece_ok, Bool.and_true,
      Bool.false_or, need_ok]
    congr 2
    funext enable
    by_cases henable : tostring enable.toVal = ['1']
    · simp [henable, host_ok]
    · simp [henable]

/-- The walk comes to its end exactly on these configurations. -/
theorem walk_ok_iff : (walk installed cfg).ok = true ↔ Exportable cfg := by
  have hmachines : (machines installed cfg).ok = ((fieldAt cfg ["wks"]).bind Tab.pairs).any
      (·.all fun e => goodMachine cfg e.2) := by
    simp only [machines, need_ok, each_ok, machine_ok]
  have hrule : rule.ok = true := rfl
  simp only [walk, andThen_ok, heading_ok, globals_ok, options_ok, subnets_ok, ipxe_ok, hmachines,
    hrule, Bool.true_and, Bool.and_eq_true]
  constructor
  · rintro ⟨⟨hvendor, hversion⟩, hglobal, hopt, hsub, hipxe, hwks⟩
    exact ⟨hvendor, hversion, hglobal, hopt, hsub, hipxe, hwks⟩
  · rintro ⟨hvendor, hversion, hglobal, hopt, hsub, hipxe, hwks⟩
    exact ⟨⟨hvendor, hversion⟩, hglobal, hopt, hsub, hipxe, hwks⟩

end

end Exportable

/-! ## All or nothing -/

/-- The file has the whole text, or nothing has happened to any file; and an error comes
only before the old file has been moved. -/
structure AllOrNothing (h : Host) (cfg : Tab) (files : Files Str) : Prop where
  whole : (∃ conf text, confFile cfg = some conf ∧ Writes (walk h.installed cfg) text ∧
      Machine.run FileOp.apply files (exportDHCP h cfg).2 conf = some text) ∨
    (exportDHCP h cfg).2 = []
  kept : (exportDHCP h cfg).1 = .raised → ∀ src dst, .rename src dst ∉ (exportDHCP h cfg).2

section

variable {h : Host} {cfg : Tab} {conf : Str} (hconf : checkconf cfg = .returned true)

include hconf

theorem exportDHCP_of_no_file (hfile : confFile cfg = none) : exportDHCP h cfg = (.raised, []) := by
  rw [exportDHCP, hconf]
  dsimp only
  rw [hfile]

theorem exportDHCP_of_file (hfile : confFile cfg = some conf) : exportDHCP h cfg =
    if h.opens then
      (if (walk h.installed cfg).ok then .returned () else .raised,
        moved h conf ++ FileOp.rewrite conf (walk h.installed cfg).pieces)
    else (.raised, moved h conf) := by
  rw [exportDHCP, hconf]
  dsimp only
  rw [hfile]

theorem allOrNothing_of_closed (hfile : confFile cfg = some conf) (hopens : h.opens = false)
    (files : Files Str) : AllOrNothing h cfg files ↔ h.renames = false := by
  have hout := exportDHCP_of_file hconf hfile (h := h)
  rw [hopens, if_neg Bool.false_ne_true] at hout
  constructor
  · intro hall
    by_contra hrenames
    refine hall.kept (by rw [hout]) conf (conf ++ ".backup_".toList ++ h.stamp) ?_
    rw [hout, moved, if_pos (Bool.not_eq_false _ |>.mp hrenames)]
    exact List.mem_singleton_self _
  · intro hrenames
    have hops : (exportDHCP h cfg).2 = [] := by
      rw [hout, moved, hrenames]
      rfl
    exact ⟨Or.inr hops, fun _ src dst => by rw [hops]; exact List.not_mem_nil⟩

theorem allOrNothing_of_open (hfile : confFile cfg = some conf) (hopens : h.opens = true)
    (files : Files Str) : AllOrNothing h cfg files ↔ (walk h.installed cfg).ok = true := by
  have hout := exportDHCP_of_file hconf hfile (h := h)
  rw [if_pos hopens] at hout
  constructor
  · rintro ⟨⟨_, _, -, hwrites, -⟩ | hops, -⟩
    · exact hwrites.1
    · rw [hout] at hops
      exact absurd (List.append_eq_nil_iff.mp hops).2 (by simp [FileOp.rewrite])
  · intro hok
    refine ⟨Or.inl ⟨conf, _, hfile, ⟨hok, rfl⟩, ?_⟩, fun hraised => ?_⟩
    · rw [hout, Machine.run_append, FileOp.run_rewrite, Function.update_self]
    · rw [hout, if_pos hok] at hraised
      cases hraised

end

/-- When `ExportDHCP` is all or nothing, for every configuration that `checkconf`
accepts. -/
theorem export_all_or_nothing_iff (h : Host) (cfg : Tab) (files : Files Str)
    (hconf : checkconf cfg = .returned true) :
    AllOrNothing h cfg files ↔ confFile cfg = none ∨ (h.renames = false ∧ h.opens = false) ∨
      (h.opens = true ∧ Exportable cfg) := by
  cases hfile : confFile cfg with
  | none =>
    have hops : (exportDHCP h cfg).2 = [] := by rw [exportDHCP_of_no_file hconf hfile]
    refine iff_of_true ⟨Or.inr hops, fun _ src dst => ?_⟩ (Or.inl rfl)
    rw [hops]
    exact List.not_mem_nil
  | some conf =>
    rw [or_iff_right (Option.some_ne_none conf), ← walk_ok_iff h.installed]
    cases hopens : h.opens with
    | false => rw [allOrNothing_of_closed hconf hfile hopens]; simp
    | true => rw [allOrNothing_of_open hconf hfile hopens]; simp

/-! The README's workstation, with and without a list of options. -/

def readme (more : List (Str × Tab)) : Tab :=
  .table [] ([("enable".toList, .val (.num 1)), ("name".toList, str "PC001"),
    ("mac".toList, str "b4:2e:99:2c:dd:52"), ("ipv4".toList, str "192.168.0.3"),
    ("fileboot".toList, str "ipxe")] ++ more)

def dhcpConfig : Tab :=
  .table [] [("global".toList, .table [] [("authoritative".toList, str "")]),
    ("opt".toList, .table [] [("domain-name".toList, str "lab")]),
    ("sub".toList, .table [.table [] [("sub".toList, str "192.168.0.0"),
      ("mask".toList, str "255.255.255.0"),
      ("ranges".toList, .table [str "192.168.0.100 192.168.0.200"] [])]] []),
    ("ipxe".toList, str "option ipxe.no-pxedhcp 1;")]

def office (more : List (Str × Tab)) : Tab := site dhcpConfig (.table [readme more] [])

def clean : Host where
  installed := fun _ => false
  renames := true
  opens := true
  stamp := "111526120000".toList

def oldConf : Files Str := fun f =>
  if f = "10/dhcpd.conf".toList then some "authoritative ;\n".toList else none

theorem listed_options_exported :
    checkconf (office [("opt".toList, .table [] [])]) = .returned true ∧
      AllOrNothing clean (office [("opt".toList, .table [] [])]) oldConf := by
  have hconf : checkconf (office [("opt".toList, .table [] [])]) = .returned true := by
    decide +kernel
  refine ⟨hconf, (export_all_or_nothing_iff clean _ oldConf hconf).mpr (Or.inr (Or.inr ⟨rfl, ?_⟩))⟩
  exact (walk_ok_iff clean.installed _).mp (by decide +kernel)

/-- Without the list the file is moved away, and then an error is raised. -/
theorem missing_options_raise :
    checkconf (office []) = .returned true ∧ (exportDHCP clean (office [])).1 = .raised ∧
      .rename "10/dhcpd.conf".toList "10/dhcpd.conf.backup_111526120000".toList ∈
        (exportDHCP clean (office [])).2 ∧
      ¬ AllOrNothing clean (office []) oldConf := by
  have hraised : (exportDHCP clean (office [])).1 = .raised := by decide +kernel
  have hmoved : .rename "10/dhcpd.conf".toList "10/dhcpd.conf.backup_111526120000".toList ∈
      (exportDHCP clean (office [])).2 := by decide +kernel
  exact ⟨by decide +kernel, hraised, hmoved, fun hall => hall.kept hraised _ _ hmoved⟩

/-! ## Configurations with all fields -/

section Complete

def ofText (s : Str) : Tab := .val (.str s)

def ofSubnet (s : Dhcp.Subnet) : Tab :=
  .table [] [("sub".toList, ofText s.sub), ("mask".toList, ofText s.mask),
    ("ranges".toList, .table (s.ranges.map ofText) [])]

def ofMachine (m : Dhcp.Machine) : Tab :=
  .table [] [("name".toList, ofText m.name), ("enable".toList, .val m.enable),
    ("mac".toList, ofText m.mac), ("ipv4".toList, ofText m.ipv4),
    ("fileboot".toList, ofText m.fileboot), ("opt".toList, .table (m.opt.map ofText) [])]

def ofConfig (c : Dhcp.Config) : Tab :=
  .table [] [
    ("server".toList, .table [] [("vendor".toList, ofText c.vendor),
      ("version".toList, ofText c.version)]),
    ("dhcp".toList, .table [] [("config".toList, .table [] [
      ("global".toList, .table [] (c.global.map fun e => (e.1, .val e.2))),
      ("opt".toList, .table [] (c.opt.map fun e => (e.1, .val e.2))),
      ("sub".toList, .table (c.sub.map ofSubnet) []),
      ("ipxe".toList, ofText c.ipxe)])]),
    ("tftp".toList, c.tftp.elim (.val .nil) fun dir =>
      .table [] [("workdir".toList, ofText dir)]),
    ("wks".toList, .table (c.wks.map fun m => m.elim (.table [] []) ofMachine) [])]

theorem writes_line {v : Tab} {field : String} {x : Str}
    (h : v.index field.toList = some (ofText x)) (before after : String) :
    Writes (line v before field after) (before.toList ++ x ++ after.toList) :=
  (Writes.need h (writes_write [before.toList, x, after.toList] rfl)).of_eq (by simp)

theorem ipairs_map {α : Type} {g : α → Tab} (h : ∀ x, (g x).isNil = false) (l : List α) :
    (Tab.table (l.map g) []).ipairs = some (l.map g) := by
  rw [Tab.ipairs, List.takeWhile_eq_self_iff.mpr]
  intro t ht
  obtain ⟨x, -, rfl⟩ := List.mem_map.mp ht
  rw [h x, Bool.not_false]

theorem writes_entries {v : Tab} {field : String} {l : List Str}
    (h : v.index field.toList = some (.table (l.map ofText) [])) (before after : String) :
    Writes (entries v field before after)
      (l.flatMap fun x => before.toList ++ x ++ after.toList) := by
  refine Writes.need (x := l.map ofText) ?_ ?_
  · rw [h, Option.bind_some, ipairs_map fun _ => rfl]
  · rw [each_map]
    exact writes_each fun x _ =>
      (writes_write [before.toList, x, after.toList] rfl).of_eq (by simp)

theorem unlines_map {α : Type} (l : List α) (f : α → Str) :
    Dhcp.unlines (l.map f) = l.flatMap fun x => f x ++ ['\n'] := List.flatMap_map f _ l

theorem unlines_flatMap {α : Type} (l : List α) (f : α → List Str) :
    Dhcp.unlines (l.flatMap f) = l.flatMap fun x => Dhcp.unlines (f x) := List.flatMap_assoc

theorem writes_append {a b : Output} {ls ms : List Str} (ha : Writes a (Dhcp.unlines ls))
    (hb : Writes b (Dhcp.unlines ms)) : Writes (a.andThen b) (Dhcp.unlines (ls ++ ms)) :=
  (ha.andThen hb).of_eq (Dhcp.unlines_append ls ms).symm

theorem writes_cons {a b : Output} {l : Str} {ls : List Str} (ha : Writes a (Dhcp.unlines [l]))
    (hb : Writes b (Dhcp.unlines ls)) : Writes (a.andThen b) (Dhcp.unlines (l :: ls)) :=
  writes_append ha hb

theorem writes_text {s l : Str} (h : s = l ++ ['\n']) : Writes (piece s) (Dhcp.unlines [l]) :=
  (writes_piece s).of_eq (h.trans (List.append_nil _).symm)

theorem writes_ln {v : Tab} {field before after : String} {x l : Str}
    (h : v.index field.toList = some (ofText x))
    (hl : before.toList ++ x ++ after.toList = l ++ ['\n']) :
    Writes (line v before field after) (Dhcp.unlines [l]) :=
  (writes_line h before after).of_eq (hl.trans (List.append_nil _).symm)

theorem writes_subnet (s : Dhcp.Subnet) :
    Writes (subnet (ofSubnet s)) (Dhcp.unlines (Dhcp.subnetLines s)) := by
  have hfirst : Writes (write [str "\tsubnet ", ofText s.sub, str " netmask ", ofText s.mask,
      str " \x7b\n"]) _ :=
    writes_write ["\tsubnet ".toList, s.sub, " netmask ".toList, s.mask, " \x7b\n".toList] rfl
  refine ((Writes.need rfl (Writes.need rfl hfirst)).andThen
    ((writes_entries rfl _ _).andThen (writes_piece _))).of_eq ?_
  rw [Dhcp.subnetLines, Dhcp.unlines_append, Dhcp.unlines_append, unlines_map]
  simp [Dhcp.unlines]

section

variable (installed : Str → Bool) (c : Dhcp.Config)

theorem writes_heading : Writes (heading (ofConfig c)) (Dhcp.unlines
    ["## ### THIS FILE AUTOGEENERATION ### #".toList,
      "# ### ".toList ++ c.vendor ++ " ".toList ++ c.version ++ "______  ### #".toList,
      Dhcp.rule]) := by
  refine ((writes_piece _).andThen ((Writes.need rfl (Writes.need rfl (writes_piece _))).andThen
    (writes_piece _))).of_eq ?_
  simp [Dhcp.unlines]

theorem writes_rule : Writes rule (Dhcp.unlines [Dhcp.rule]) :=
  (writes_piece _).of_eq (by simp [Dhcp.unlines])

theorem writes_globals (h : ∀ e ∈ c.global, e.2 ≠ .nil) : Writes (globals (ofConfig c))
    (Dhcp.unlines (c.global.map fun e => e.1 ++ " ".toList ++ tostring e.2 ++ ";".toList)) := by
  refine Writes.need (Tab.pairs_fields h) ?_
  rw [each_map, unlines_map]
  refine writes_each fun e _ => (writes_write
    [e.1, " ".toList, tostring e.2 ++ ";\n".toList] rfl).of_eq ?_
  simp

theorem writes_options (h : ∀ e ∈ c.opt, e.2 ≠ .nil) : Writes (options (ofConfig c))
    (Dhcp.unlines (c.opt.map fun e => Dhcp.optionLine e.1 e.2)) := by
  refine Writes.need (Tab.pairs_fields h) ?_
  rw [each_map, unlines_map]
  refine writes_each fun e _ => Writes.need (x := e.1) rfl ?_
  rw [Dhcp.optionLine]
  by_cases hname : e.1 = "domain-name".toList
  · rw [if_pos hname, if_pos (congrArg Val.str hname)]
    refine (writes_write ["\toption ".toList ++ e.1, " \"".toList,
      tostring e.2 ++ "\";\n".toList] rfl).of_eq ?_
    simp
  · rw [if_neg hname, if_neg fun h => hname (Val.str.inj h)]
    refine (writes_write ["\toption ".toList ++ e.1, " ".toList,
      tostring e.2 ++ ";\n".toList] rfl).of_eq ?_
    simp

theorem writes_subnets : Writes (subnets (ofConfig c))
    (Dhcp.unlines (c.sub.flatMap Dhcp.subnetLines)) := by
  refine Writes.need (ipairs_map (fun _ => rfl) c.sub) ?_
  rw [each_map, unlines_flatMap]
  exact writes_each fun s _ => writes_subnet s

theorem writes_ipxe : Writes (ipxe (ofConfig c)) (Dhcp.unlines [c.ipxe]) :=
  (Writes.need rfl (writes_write [c.ipxe, "\n".toList] rfl)).of_eq (by simp [Dhcp.unlines])

theorem tftpRoot_ofConfig :
    tftpRoot (ofConfig c) = some (ofText (c.tftp.getD "/srv/tftp".toList)) := by
  have hindex : (ofConfig c).index "tftp".toList = some (c.tftp.elim (.val .nil) fun dir =>
      .table [] [("workdir".toList, ofText dir)]) := rfl
  rw [tftpRoot, hindex]
  cases c.tftp with
  | none => rfl
  | some dir => rfl

theorem writes_efi32 (m : Dhcp.Machine) : Writes (efi32 installed (ofConfig c) (ofMachine m))
    (Dhcp.unlines (Dhcp.efi32Lines installed c m.fileboot)) := by
  refine Writes.need (by rw [tftpRoot_ofConfig]; rfl) (Writes.need (x := m.fileboot) rfl ?_)
  rw [Dhcp.efi32Lines]
  split
  · exact (writes_line rfl _ _).of_eq (by simp [Dhcp.unlines])
  · exact ((writes_line rfl _ _).andThen (writes_line rfl _ _)).of_eq (by simp [Dhcp.unlines])

theorem writes_host (m : Dhcp.Machine) : Writes (host installed (ofConfig c) (ofMachine m))
    (Dhcp.unlines (Dhcp.hostLines installed c m.name m.mac m.ipv4 m.fileboot)) := by
  rw [Dhcp.hostLines, List.append_assoc]
  have hboot : Writes (line (ofMachine m) "\t\tfilename \"" "fileboot" ".efi\";\n") (Dhcp.unlines
      ["\t\tfilename \"".toList ++ m.fileboot ++ ".efi\";".toList]) :=
    writes_ln (x := m.fileboot) rfl (by simp)
  have hrest := writes_append (writes_efi32 installed c m) <|
    writes_cons (writes_text (l := "\t\x7d".toList) rfl) <|
    writes_cons (writes_text (l := "\telse \x7b".toList) rfl) <|
    writes_cons hboot (writes_text (l := "\t\x7d".toList) rfl)
  exact writes_cons (writes_ln (x := m.name) rfl (by simp)) <|
    writes_cons (writes_ln (x := m.mac) rfl (by simp)) <|
    writes_cons (writes_ln (x := m.ipv4) rfl (by simp)) <|
    writes_cons (writes_ln (x := m.name) rfl (by simp)) <|
    writes_cons (writes_text (by simp)) <|
    writes_cons (writes_ln (x := m.fileboot) rfl (by simp)) <|
    writes_cons (writes_text (by simp)) <| writes_cons (writes_text (by simp)) hrest

theorem writes_machine (m : Dhcp.Machine) : Writes (machine installed (ofConfig c) (ofMachine m))
    (Dhcp.unlines (Dhcp.machineLines installed c (some m))) := by
  have hclose : Writes ((entries (ofMachine m) "opt" "option\t" ";\n").andThen
      (piece "\x7d\n".toList)) (Dhcp.unlines (Dhcp.closeLines m.opt)) := by
    refine writes_append ((writes_entries (l := m.opt) rfl _ _).of_eq ?_) (writes_text rfl)
    rw [unlines_map]
    simp
  refine Writes.need (x := ofText m.name) rfl
    (writes_append (Writes.need (x := .val m.enable) rfl ?_)
    hclose)
  have hvalue : (Tab.val m.enable).toVal = m.enable := rfl
  rw [hvalue, Dhcp.Machine.enabled]
  by_cases henable : tostring m.enable = ['1']
  · rw [if_pos henable, if_pos (beq_iff_eq.mpr henable)]
    exact writes_host installed c m
  · rw [if_neg henable, if_neg fun h => henable (beq_iff_eq.mp h)]
    exact writes_done

theorem writes_machines : Writes (machines installed (ofConfig c))
    (Dhcp.unlines (c.wks.flatMap (Dhcp.machineLines installed c))) := by
  have hitems : ∀ t ∈ c.wks.map (fun m => m.elim (.table [] []) ofMachine), t.isNil = false := by
    intro t ht
    obtain ⟨m, -, rfl⟩ := List.mem_map.mp ht
    cases m <;> rfl
  obtain ⟨es, hes, hmap⟩ := Tab.pairs_items hitems
  refine Writes.need hes ?_
  rw [← each_map es Prod.snd (machine installed (ofConfig c)), hmap, each_map, unlines_flatMap]
  refine writes_each fun m _ => ?_
  cases m with
  | none => exact writes_done
  | some m => exact writes_machine installed c m

/-- The walk on a configuration with all fields writes the text of the model without
errors. -/
theorem walk_ofConfig (hglobal : ∀ e ∈ c.global, e.2 ≠ .nil) (hopt : ∀ e ∈ c.opt, e.2 ≠ .nil) :
    Writes (walk installed (ofConfig c)) (Dhcp.exportDHCP installed c) := by
  refine (writes_append (writes_heading c) <| writes_append (writes_globals c hglobal) <|
    writes_append writes_rule <| writes_append (writes_options c hopt) <|
    writes_append writes_rule <| writes_append (writes_subnets c) <|
    writes_append writes_rule <| writes_append (writes_ipxe c) <| writes_append writes_rule <|
    writes_machines installed c).of_eq ?_
  simp only [Dhcp.exportDHCP, Dhcp.preamble, List.append_assoc, List.cons_append, List.nil_append]

end

end Complete

end DhcpFile
end Control
end MkyBoot
