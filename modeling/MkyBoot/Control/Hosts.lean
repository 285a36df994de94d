import MkyBoot.Control.Boot
import MkyBoot.Control.Dhcp
import MkyBoot.Control.Table

/-!
# The DHCP file and the configuration

`ApplyMy` saves the configuration and writes `dhcpd.conf` anew.  `DeleteMachine` saves
the configuration only.  The file is the list of lines as `ExportDHCP` writes them,
for records of any content, and a host block in it is a line that opens a host
followed by the lines of its hardware and its address.
-/

namespace MkyBoot
namespace Control
namespace Hosts

open Lua Update

/-! ## Host blocks of a file -/

/-- What stands between two fixed texts. -/
def between (a b l : Str) : Option Str :=
  if a.isPrefixOf l && b.isSuffixOf l && a.length + b.length ≤ l.length then
    some ((l.drop a.length).take (l.length - a.length - b.length))
  else none

/-- Name, hardware address and address. -/
abbrev Triple := Str × Str × Str

/-- The block that a line opens, by the lines after it. -/
def block (l : Str) (rest : List Str) : Option Triple := do
  let name ← between "host ".toList " \x7b".toList l
  let mac ← rest[0]?.bind (between "\thardware ethernet ".toList " ;".toList)
  let ipv4 ← rest[1]?.bind (between "\tfixed-address ".toList ";".toList)
  some (name, mac, ipv4)

def blocks : List Str → List Triple
  | [] => []
  | l :: rest => (block l rest).toList ++ blocks rest

/-- What `file:write` and `..` make of a value. -/
def written : Val → Option Str
  | .str s => some s
  | .num q => some (numberText q)
  | _ => none

section

-- the answers of `isFile`, the parts of the configuration that no request changes, and
-- the list `v.opt` of a workstation, if it is one
variable (installed : Str → Bool) (base : Dhcp.Config) (opt : Wks → Option (List Str))

/-- What is written for an enabled workstation, unless a field is missing. -/
def hostLines (w : Wks) : Option (List Str) := do
  let name ← written (w.field "name")
  let mac ← written w.mac
  let ipv4 ← written (w.field "ipv4")
  let fileboot ← written (w.field "fileboot")
  some (Dhcp.hostLines installed base name mac ipv4 fileboot)

def openLines (w : Wks) : Option (List Str) :=
  if Boot.on (w.field "enable") then hostLines installed base w else some []

def machineLines (w : Wks) : Option (List Str) :=
  if Named w then do
    let host ← openLines installed base w
    let opts ← opt w
    some (host ++ Dhcp.closeLines opts)
  else some []

def wksLines : List Wks → Option (List Str)
  | [] => some []
  | w :: ws => do
    let lines ← machineLines installed base opt w
    let rest ← wksLines ws
    some (lines ++ rest)

/-- The lines of the file.  `none` is an error on the way. -/
def exportDHCP (ws : List Wks) : Option (List Str) :=
  (wksLines installed base opt ws).map (Dhcp.preamble base ++ ·)

/-- The triple of a named workstation with `enable` one. -/
def triple (w : Wks) : Option Triple :=
  if Named w ∧ Boot.on (w.field "enable") = true then do
    let name ← written (w.field "name")
    let mac ← written w.mac
    let ipv4 ← written (w.field "ipv4")
    some (name, mac, ipv4)
  else none

/-! ## The blocks of an export -/

end

/-! ## Requests -/

/-- The workstations with the keys under which they are, in the order of `pairs`. -/
structure Table where
  entry : Update.Config
  keys : List ℚ
  mem_keys : ∀ q, q ∈ keys ↔ entry q ≠ none

namespace Table

def wks (t : Table) : List Wks := t.keys.filterMap t.entry

def edit (t : Table) (op : Op) : Table where
  entry := Update.edit t.entry op
  keys := (t.keys ++ op.target.toList).filter fun q => (Update.edit t.entry op q).isSome
  mem_keys := by
    intro q
    rw [List.mem_filter, List.mem_append, Option.mem_toList, Option.isSome_iff_ne_none,
      and_iff_right_iff_imp]
    intro hq
    by_cases htarget : op.target = some q
    · exact Or.inr htarget
    · refine Or.inl ((t.mem_keys q).mpr ?_)
      cases hk : op.target with
      | none =>
        rw [Update.edit, hk] at hq
        exact hq
      | some k =>
        have hne : q ≠ k := fun h => htarget (h ▸ hk)
        rw [edit_of_target hk, Function.update_of_ne hne] at hq
        exact hq

end Table

inductive Change where
  | applyMy (r : Wks)
  | deleteMachine (id : Str)

def Change.op : Change → Op
  | .applyMy r => .applyMy r
  | .deleteMachine id => .deleteMachine id

def Change.exports : Change → Bool
  | .applyMy _ => true
  | .deleteMachine _ => false

/-- The request changes the table: it does not raise an error before and does not answer
with one or with nothing. -/
def Change.succeeds (cfg : Update.Config) : Change → Bool
  | .applyMy r =>
    match tonumber r.tid with
    | none => false
    | some k => (Update.applyMy r (cfg k)).saved.isSome
  | .deleteMachine id =>
    match tonumber (.str id) with
    | none => false
    | some k =>
      match cfg k with
      | none => false
      | some w => tostring w.tid = id

structure State where
  table : Table
  conf : List Str

section

variable (installed : Str → Bool) (base : Dhcp.Config) (opt : Wks → Option (List Str))

/-- A successful request. -/
def handle (s : State) (c : Change) : Option State :=
  if c.succeeds s.table.entry then
    match c with
    | .applyMy _ =>
      (exportDHCP installed base opt (s.table.edit c.op).wks).map fun conf =>
        ⟨s.table.edit c.op, conf⟩
    | .deleteMachine _ => some ⟨s.table.edit c.op, s.conf⟩
  else none

def triples (t : Table) : Set Triple := {x | ∃ q w, t.entry q = some w ∧ triple w = some x}

/-- The host blocks are those of the named workstations with `enable` one. -/
def Follows (s : State) : Prop := {x | x ∈ blocks s.conf} = triples s.table

/-- Deleting takes a triple away: the workstation has one that no other one has. -/
def Loses (cfg : Update.Config) (id : Str) : Prop :=
  ∃ k w x, tonumber (.str id) = some k ∧ cfg k = some w ∧ triple w = some x ∧
    ∀ q v, q ≠ k → cfg q = some v → triple v ≠ some x

variable {installed base opt} {s t : State}

variable (installed base opt) in
/-- No deletion after the last export takes a triple away. -/
def Kept (s : State) (cs : List Change) : Prop :=
  ∀ before id after u, cs = before ++ .deleteMachine id :: after →
    (∀ c ∈ after, c.exports = false) → before.foldlM (handle installed base opt) s = some u →
    ¬ Loses u.table.entry id

end

def fresh : State where
  table := { entry := noWks, keys := [], mem_keys := fun q => by simp [noWks] }
  conf := []

def plain : Dhcp.Config where
  vendor := "mkyboot".toList
  version := "1".toList
  global := []
  opt := []
  sub := []
  ipxe := []
  tftp := none
  wks := []

end Hosts
end Control
end MkyBoot
