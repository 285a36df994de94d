import MkyBoot.Lua.Value

/-!
# Lua tables

A table with the values at one, two, three and so on, and the values at string keys, in
the order in which `pairs` comes by them.  Reading a field of a value that has none
raises an error, and so does going through a value that is no table; `none` stands for
the error.

A program that walks through a table and writes a file stops at the first error and
leaves what it has written.  Its `Output` is both, the pieces written and whether the
program came to its end; `Writes` says that it did, and with which text.
-/

namespace MkyBoot
namespace Lua

inductive Tab where
  | val (v : Val)
  | table (items : List Tab) (fields : List (Str × Tab))

namespace Tab

def isNil : Tab → Bool
  | .val .nil => true
  | _ => false

/-- `t[k]` for a key that is no string method. -/
def index (t : Tab) (k : Str) : Option Tab :=
  match t with
  | .table _ fields => some ((fields.find? (·.1 == k)).elim (.val .nil) (·.2))
  | .val (.str _) => some (.val .nil)
  | .val _ => none

/-- `t.a.b.c` -/
def path (t : Tab) (keys : List Str) : Option Tab := keys.foldlM index t

/-- A value as an operand.  Tables take part in no conversion. -/
def toVal : Tab → Val
  | .val v => v
  | .table _ _ => .other

/-- `ipairs(t)` -/
def ipairs : Tab → Option (List Tab)
  | .table items _ => some (items.takeWhile (!·.isNil))
  | .val _ => none

/-- `pairs(t)`.  A key without a value is not there. -/
def pairs : Tab → Option (List (Val × Tab))
  | .table items fields =>
    some (((items.zipIdx 1).map fun e => (Val.num e.2, e.1)) ++
      (fields.map fun e => (Val.str e.1, e.2)) |>.filter (!·.2.isNil))
  | .val _ => none

/-- The text of a value for `..` and for `file:write`, which raise an error on a value that
has none. -/
def text : Tab → Option Str
  | .val (.str s) => some s
  | .val (.num q) => some (numberText q)
  | _ => none

@[simp] theorem text_str (s : Str) : text (.val (.str s)) = some s := rfl

/-- `not t` -/
def falsy : Tab → Bool
  | .val .nil => true
  | .val (.bool false) => true
  | _ => false

/-- The keys of `pairs` have a text. -/
theorem text_of_mem_pairs {t : Tab} {es : List (Val × Tab)} (h : t.pairs = some es)
    {e : Val × Tab} (he : e ∈ es) : ∃ s, text (.val e.1) = some s := by
  cases t with
  | val v => cases h
  | table items fields =>
    obtain rfl := Option.some.inj h
    obtain he | he := List.mem_append.mp (List.mem_of_mem_filter he)
    · obtain ⟨x, -, rfl⟩ := List.mem_map.mp he
      exact ⟨_, rfl⟩
    · obtain ⟨x, -, rfl⟩ := List.mem_map.mp he
      exact ⟨_, rfl⟩

/-- The values of a list without a hole. -/
theorem pairs_items {items : List Tab} (h : ∀ t ∈ items, t.isNil = false) :
    ∃ es, (Tab.table items []).pairs = some es ∧ es.map Prod.snd = items := by
  refine ⟨_, rfl, ?_⟩
  rw [List.filter_eq_self.mpr]
  · simp [Function.comp_def]
  · intro e he
    simp only [List.map_nil, List.append_nil] at he
    obtain ⟨x, hx, rfl⟩ := List.mem_map.mp he
    rw [h x.1 (List.fst_mem_of_mem_zipIdx hx), Bool.not_false]

theorem pairs_fields {fields : List (Str × Val)} (h : ∀ e ∈ fields, e.2 ≠ .nil) :
    (Tab.table [] (fields.map fun e => (e.1, .val e.2))).pairs =
      some (fields.map fun e => (.str e.1, .val e.2)) := by
  rw [pairs, List.zipIdx_nil, List.map_nil, List.nil_append, List.map_map, List.filter_eq_self.mpr]
  · rfl
  · intro e he
    obtain ⟨x, hx, rfl⟩ := List.mem_map.mp he
    have hne := h x hx
    show (!(Tab.val x.2).isNil) = true
    cases hval : x.2 with
    | nil => exact absurd hval hne
    | _ => rfl

end Tab

/-! ## Writing -/

structure Output where
  pieces : List Str
  ok : Bool

namespace Output

variable {α : Type}

def done : Output := ⟨[], true⟩

def raise : Output := ⟨[], false⟩

def piece (s : Str) : Output := ⟨[s], true⟩

def andThen (a b : Output) : Output := if a.ok then ⟨a.pieces ++ b.pieces, b.ok⟩ else a

/-- A value that may be an error, and what follows. -/
def need (o : Option α) (f : α → Output) : Output := o.elim raise f

def each (l : List α) (f : α → Output) : Output := l.foldr (fun x o => (f x).andThen o) done

/-- `file:write(...)` writes its arguments up to the first that has no text. -/
def write (args : List Tab) : Output := each args fun a => need a.text piece

@[simp] theorem done_ok : done.ok = true := rfl

@[simp] theorem piece_ok (s : Str) : (piece s).ok = true := rfl

@[simp] theorem andThen_ok (a b : Output) : (a.andThen b).ok = (a.ok && b.ok) := by
  unfold andThen
  cases h : a.ok <;> simp [h]

@[simp] theorem need_ok (o : Option α) (f : α → Output) :
    (need o f).ok = o.any fun x => (f x).ok := by
  cases o <;> rfl

@[simp] theorem each_ok (l : List α) (f : α → Output) :
    (each l f).ok = l.all fun x => (f x).ok := by
  induction l with
  | nil => rfl
  | cons x l ih =>
    rw [List.all_cons, ← ih]
    exact andThen_ok _ _

@[simp] theorem write_ok (args : List Tab) : (write args).ok = args.all fun a => a.text.isSome := by
  rw [write, each_ok]
  congr 1
  funext a
  cases a.text <;> rfl

/-- The program comes to its end and has written the text. -/
def Writes (o : Output) (s : Str) : Prop := o.ok = true ∧ o.pieces.flatten = s

theorem writes_done : Writes done [] := ⟨rfl, rfl⟩

theorem writes_piece (s : Str) : Writes (piece s) s := ⟨rfl, List.append_nil s⟩

theorem Writes.of_eq {o : Output} {s t : Str} (h : Writes o s) (heq : s = t) : Writes o t := heq ▸ h

theorem Writes.andThen {a b : Output} {s t : Str} (ha : Writes a s) (hb : Writes b t) :
    Writes (a.andThen b) (s ++ t) := by
  rw [Output.andThen, if_pos ha.1]
  exact ⟨hb.1, by rw [List.flatten_append, ha.2, hb.2]⟩

theorem Writes.need {o : Option α} {x : α} {f : α → Output} {s : Str} (ho : o = some x)
    (h : Writes (f x) s) : Writes (need o f) s := by
  rw [ho]
  exact h

theorem writes_each {l : List α} {f : α → Output} {g : α → Str}
    (h : ∀ x ∈ l, Writes (f x) (g x)) : Writes (each l f) (l.flatMap g) := by
  induction l with
  | nil => exact writes_done
  | cons x l ih =>
    rw [List.flatMap_cons]
    exact (h x List.mem_cons_self).andThen (ih fun y hy => h y (List.mem_cons_of_mem x hy))

theorem each_map {β : Type} (l : List β) (g : β → α) (f : α → Output) :
    each (l.map g) f = each l fun x => f (g x) := List.foldr_map

theorem writes_write {args : List Tab} (texts : List Str)
    (h : args.map Tab.text = texts.map some) : Writes (write args) texts.flatten := by
  induction args generalizing texts with
  | nil =>
    obtain rfl : texts = [] := List.map_eq_nil_iff.mp h.symm
    exact writes_done
  | cons a args ih =>
    cases texts with
    | nil => cases h
    | cons s texts =>
      rw [List.map_cons, List.map_cons, List.cons.injEq] at h
      exact (Writes.need h.1 (writes_piece s)).andThen (ih texts h.2)

end Output
end Lua
end MkyBoot
