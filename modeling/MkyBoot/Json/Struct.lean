import MkyBoot.Json.Writer

/-!
# Structs

A struct is written field by field, and a field that is empty may be left out.  It is read
into a value that is there already: a member goes to the field of its name, a member without
a field is passed over, and a null leaves its field as it is.  `decodeMembers_fieldsOf` says
that the members of a struct, read into another one, carry over what `Copied` collects field
by field.
-/

namespace MkyBoot
namespace Json

structure Field (α : Type) where
  name : Text
  /-- `none` for a field that is left out. -/
  encode : α → Option Value
  decode : α → Value → Option α

section

variable {α β : Type}

def fieldsOf (fields : List (Field α)) (v : α) : List (Text × Value) :=
  fields.filterMap fun f => (f.encode v).map fun x => (f.name, x)

def decodeMember (fold : Text → Text) (fields : List (Field α)) (a : α) (m : Text × Value) :
    Option α :=
  match fields.find? fun f => f.name = fold m.1 with
  | none => some a
  | some f => f.decode a m.2

def decodeMembers (fold : Text → Text) (fields : List (Field α)) (a : α)
    (ms : List (Text × Value)) : Option α :=
  ms.foldlM (decodeMember fold fields) a

/-- `json.MarshalIndent` and a newline -/
def marshalStruct (fields : List (Field α)) (v : α) : List Char :=
  write .indented 0 (.obj (fieldsOf fields v)) ++ ['\n']

/-- `json.Unmarshal` into a struct -/
def unmarshalStruct (fold : Text → Text) (fields : List (Field α)) (a : α) (text : List Char) :
    Option α :=
  match decode text with
  | some .null => some a
  | some (.obj ms) => decodeMembers fold fields a ms
  | _ => none

/-! ## Fields -/

def Field.string (name : Text) (get : α → Text) (set : α → Text → α) : Field α where
  name := name
  encode v := some (.str (get v))
  decode a
    | .null => some a
    | .str s => some (set a s)
    | _ => none

def Field.bool (name : Text) (get : α → Bool) (set : α → Bool → α) : Field α where
  name := name
  encode v := some (.bool (get v))
  decode a
    | .null => some a
    | .bool b => some (set a b)
    | _ => none

/-- A number with a fraction or an exponent, or outside the range, is an error. -/
def Field.int (name : Text) (get : α → Int64) (set : α → Int64 → α) : Field α where
  name := name
  encode v := some (.num (intText (get v).toInt))
  decode a
    | .null => some a
    | .num t => (intValue t).bind fun n =>
        if -2 ^ 63 ≤ n ∧ n < 2 ^ 63 then some (set a (Int64.ofInt n)) else none
    | _ => none

def Field.struct (fold : Text → Text) (name : Text) (get : α → β) (set : α → β → α)
    (fields : List (Field β)) : Field α where
  name := name
  encode v := some (.obj (fieldsOf fields (get v)))
  decode a
    | .null => some a
    | .obj ms => (decodeMembers fold fields (get a) ms).map (set a)
    | _ => none

/-- A string that is left out if it is empty. -/
def Field.omitEmpty (name : Text) (get : α → Text) (set : α → Text → α) : Field α :=
  { Field.string name get set with
    encode := fun v => if get v = [] then none else some (.str (get v)) }

/-! ## Reading what was written -/

/-- What is written for a field of `v` takes `a` to `b` when it is read. -/
structure Field.Copies (f : Field α) (v a b : α) : Prop where
  left_out : f.encode v = none → a = b
  read : ∀ x, f.encode v = some x → f.decode a x = some b ∧ x.Numeric

inductive Copied (v : α) : List (Field α) → α → α → Prop where
  | nil (a : α) : Copied v [] a a
  | cons {f : Field α} {fields : List (Field α)} {a b c : α} :
      f.Copies v a b → Copied v fields b c → Copied v (f :: fields) a c

/-- No two fields have a name that reads as the same. -/
structure Names (fold : Text → Text) (fields : List (Field α)) : Prop where
  nodup : (fields.map Field.name).Nodup
  folded : ∀ f ∈ fields, fold f.name = f.name

theorem find?_name {fields : List (Field α)} (hnames : (fields.map Field.name).Nodup) {f : Field α}
    (hf : f ∈ fields) : (fields.find? fun g => g.name = f.name) = some f := by
  induction fields with
  | nil => exact absurd hf List.not_mem_nil
  | cons g fields ih =>
    rw [List.map_cons, List.nodup_cons] at hnames
    rcases List.mem_cons.mp hf with rfl | hmem
    · exact List.find?_cons_of_pos (by simp)
    · have hne : g.name ≠ f.name := fun h => hnames.1 (h ▸ List.mem_map_of_mem hmem)
      rw [List.find?_cons_of_neg (by simpa using hne)]
      exact ih hnames.2 hmem

section

variable {fold : Text → Text} {fields : List (Field α)} {v a b : α}

theorem decodeMembers_cons (hnames : Names fold fields) {f : Field α} (hf : f ∈ fields) {x : Value}
    (h : f.decode a x = some b) (ms : List (Text × Value)) :
    decodeMembers fold fields a ((f.name, x) :: ms) = decodeMembers fold fields b ms := by
  have hmember : decodeMember fold fields a (f.name, x) = some b := by
    rw [decodeMember, hnames.folded f hf, find?_name hnames.nodup hf]
    exact h
  rw [decodeMembers, List.foldlM_cons, hmember]
  rfl

theorem decodeMembers_fieldsOf_of_subset (hnames : Names fold fields) {part : List (Field α)}
    (hpart : ∀ f ∈ part, f ∈ fields) (h : Copied v part a b) :
    decodeMembers fold fields a (fieldsOf part v) = some b := by
  induction h with
  | nil a => rfl
  | @cons f rest a b c hf hrest ih =>
    have hmem : f ∈ fields := hpart f List.mem_cons_self
    have hih := ih fun g hg => hpart g (List.mem_cons_of_mem f hg)
    cases hx : f.encode v with
    | none =>
      rw [fieldsOf, List.filterMap_cons_none (by rw [hx]; rfl), hf.left_out hx]
      exact hih
    | some x =>
      rw [fieldsOf, List.filterMap_cons_some (by rw [hx]; rfl),
        decodeMembers_cons hnames hmem (hf.read x hx).1]
      exact hih

theorem decodeMembers_fieldsOf (hnames : Names fold fields) (h : Copied v fields a b) :
    decodeMembers fold fields a (fieldsOf fields v) = some b :=
  decodeMembers_fieldsOf_of_subset hnames (fun _ hf => hf) h

/-! The order of the members does not matter where no two of them concern the same part of the
struct. -/

def Field.Independent (f g : Field α) : Prop :=
  ∀ a x y, (f.decode a x).bind (g.decode · y) = (g.decode a y).bind (f.decode · x)

theorem decodeMember_comm (hind : ∀ f ∈ fields, ∀ g ∈ fields, f.name ≠ g.name → f.Independent g)
    {m m' : Text × Value} (hne : fold m.1 ≠ fold m'.1) (a : α) :
    (decodeMember fold fields a m).bind (decodeMember fold fields · m') =
      (decodeMember fold fields a m').bind (decodeMember fold fields · m) := by
  unfold decodeMember
  cases hf : fields.find? fun f => f.name = fold m.1 with
  | none =>
    cases hg : fields.find? fun f => f.name = fold m'.1 with
    | none => rfl
    | some g => exact (Option.bind_fun_some (g.decode a m'.2)).symm
  | some f =>
    cases hg : fields.find? fun f => f.name = fold m'.1 with
    | none => exact Option.bind_fun_some (f.decode a m.2)
    | some g =>
      have hfname : f.name = fold m.1 := by simpa using List.find?_some hf
      have hgname : g.name = fold m'.1 := by simpa using List.find?_some hg
      refine hind f (List.mem_of_find?_eq_some hf) g (List.mem_of_find?_eq_some hg) ?_ a m.2 m'.2
      rw [hfname, hgname]
      exact hne

theorem decodeMembers_perm (hind : ∀ f ∈ fields, ∀ g ∈ fields, f.name ≠ g.name → f.Independent g)
    {ms ms' : List (Text × Value)} (hms : (ms.map fun m => fold m.1).Nodup) (h : ms.Perm ms')
    (a : α) : decodeMembers fold fields a ms = decodeMembers fold fields a ms' := by
  have hfoldl (l : List (Text × Value)) (o : Option α) :
      o.bind (decodeMembers fold fields · l) =
        l.foldl (fun o m => o.bind (decodeMember fold fields · m)) o := by
    induction l generalizing o with
    | nil => exact Option.bind_fun_some o
    | cons m l ih =>
      rw [List.foldl_cons, ← ih, Option.bind_assoc]
      rfl
  have hcomm : ∀ m ∈ ms, ∀ m' ∈ ms, ∀ o : Option α,
      (o.bind (decodeMember fold fields · m)).bind (decodeMember fold fields · m') =
        (o.bind (decodeMember fold fields · m')).bind (decodeMember fold fields · m) := by
    intro m hm m' hm' o
    by_cases heq : m = m'
    · rw [heq]
    · have hne : fold m.1 ≠ fold m'.1 :=
        fun hname => heq (List.inj_on_of_nodup_map hms hm hm' hname)
      cases o with
      | none => rfl
      | some b => exact decodeMember_comm hind hne b
  have hperm := h.foldl_eq' (f := fun o m => o.bind (decodeMember fold fields · m)) hcomm (some a)
  rw [← hfoldl, ← hfoldl] at hperm
  exact hperm

theorem numericMembers_fieldsOf (h : Copied v fields a b) : NumericMembers (fieldsOf fields v) := by
  induction h with
  | nil a => trivial
  | @cons f rest a b c hf hrest ih =>
    cases hx : f.encode v with
    | none =>
      rw [fieldsOf, List.filterMap_cons_none (by rw [hx]; rfl)]
      exact ih
    | some x =>
      rw [fieldsOf, List.filterMap_cons_some (by rw [hx]; rfl)]
      exact ⟨(hf.read x hx).2, ih⟩

theorem unmarshalStruct_marshalStruct (hnames : Names fold fields) (h : Copied v fields a b) :
    unmarshalStruct fold fields a (marshalStruct fields v) = some b := by
  have hnum : (Value.obj (fieldsOf fields v)).Numeric := numericMembers_fieldsOf h
  rw [unmarshalStruct, marshalStruct, decode_write .indented hnum]
  exact decodeMembers_fieldsOf hnames h

end

/-! ## What each kind of field carries over -/

theorem Field.copies_of_encode {f : Field α} {v a b : α} {x : Value} (hx : f.encode v = some x)
    (h : f.decode a x = some b) (hnum : x.Numeric) : f.Copies v a b where
  left_out hnone := absurd (hx.symm.trans hnone) (Option.some_ne_none x)
  read y hy := by
    rw [← Option.some.inj (hx.symm.trans hy)]
    exact ⟨h, hnum⟩

theorem copies_string (name : Text) (get : α → Text) (set : α → Text → α) (v a : α) :
    (Field.string name get set).Copies v a (set a (get v)) :=
  Field.copies_of_encode rfl rfl trivial

theorem copies_bool (name : Text) (get : α → Bool) (set : α → Bool → α) (v a : α) :
    (Field.bool name get set).Copies v a (set a (get v)) :=
  Field.copies_of_encode rfl rfl trivial

theorem decode_int (name : Text) (get : α → Int64) (set : α → Int64 → α) (a : α) {n : ℤ}
    (hlow : -2 ^ 63 ≤ n) (hhigh : n < 2 ^ 63) :
    (Field.int name get set).decode a (.num (intText n)) = some (set a (Int64.ofInt n)) := by
  show ((intValue (intText n)).bind fun n =>
    if -2 ^ 63 ≤ n ∧ n < 2 ^ 63 then some (set a (Int64.ofInt n)) else none) = _
  rw [intValue_intText, Option.bind_some, if_pos ⟨hlow, hhigh⟩]

theorem copies_int (name : Text) (get : α → Int64) (set : α → Int64 → α) (v a : α) :
    (Field.int name get set).Copies v a (set a (get v)) := by
  refine Field.copies_of_encode rfl ?_ (isNumber_intText _)
  rw [decode_int name get set a (Int64.le_toInt (get v)) (Int64.toInt_lt (get v)),
    Int64.ofInt_toInt]

theorem decode_struct {fold : Text → Text} (name : Text) {get : α → β} (set : α → β → α)
    {fields : List (Field β)} {a : α} {b : β} {ms : List (Text × Value)}
    (h : decodeMembers fold fields (get a) ms = some b) :
    (Field.struct fold name get set fields).decode a (.obj ms) = some (set a b) := by
  show (decodeMembers fold fields (get a) ms).map (set a) = _
  rw [h, Option.map_some]

theorem copies_struct {fold : Text → Text} (name : Text) {get : α → β} (set : α → β → α)
    {fields : List (Field β)} (hnames : Names fold fields) {v a : α} {b : β}
    (h : Copied (get v) fields (get a) b) :
    (Field.struct fold name get set fields).Copies v a (set a b) :=
  Field.copies_of_encode rfl (decode_struct name set (decodeMembers_fieldsOf hnames h))
    (numericMembers_fieldsOf h)

/-- An empty string is carried over by leaving it out only if it is empty on the other side. -/
theorem copies_omitEmpty (name : Text) (get : α → Text) (set : α → Text → α) {v a : α}
    (hempty : set a [] = a) : (Field.omitEmpty name get set).Copies v a (set a (get v)) := by
  by_cases h : get v = []
  · have hx : (Field.omitEmpty name get set).encode v = none := if_pos h
    exact ⟨fun _ => by rw [h, hempty],
      fun x hy => absurd (hx.symm.trans hy) (Option.some_ne_none x).symm⟩
  · exact Field.copies_of_encode (if_neg h) rfl trivial

end

end Json
end MkyBoot
