import MkyBoot.Json.Writer
import MkyBoot.Server.State

/-!
# The log

The server logs one JSON object in a line, and much of what it logs comes from requests: names,
addresses, paths.  `log_records` says that nothing of it can break a line or forge an entry: the
lines of the log, read one by one, are the objects that were logged, each with the fields it
was given.  The calls hold a mutex, so that their lines follow each other; a line is written
whole here.
-/

namespace MkyBoot
namespace Server

open Go

/-- Fields that `encoding/json` can write. -/
structure LogFields where
  values : Map Str Json.Value
  numeric : ∀ {k : Str} {v : Json.Value}, values[k]? = some v → v.Numeric

/-- A call of `log`, with its time, and `none` for fields that cannot be written. -/
structure LogCall where
  level : Str
  msg : Str
  ts : Str
  fields : Option LogFields
  order : Order Str Json.Value

/-- What an entry has of its own. -/
def LogCall.head (c : LogCall) : Map Str Json.Value :=
  (((∅ : Map Str Json.Value).insert "ts".toList (.str c.ts)).insert "level".toList
    (.str c.level)).insert "msg".toList (.str c.msg)

def LogCall.entry (c : LogCall) (f : LogFields) : Map Str Json.Value :=
  (entries c.order f.values).foldl (fun m e => m.insert e.1 e.2) c.head

/-- `json.Marshal` of an entry, which has its keys in order, and a newline -/
def logLine (entry : Map Str Json.Value) : List Char :=
  Json.write .compact 0 (.obj entry.toList) ++ ['\n']

/-- `log`, on the text of the file -/
def log (text : List Char) (c : LogCall) : List Char :=
  match c.fields with
  | none => text
  | some f => text ++ logLine (c.entry f)

/-- The lines of a text that ends with a newline. -/
def records (text : List Char) : List (List Char) := (text.splitOn '\n').dropLast

/-! ## Entries -/

/-- A field goes before what an entry has of its own. -/
theorem getElem?_entry (c : LogCall) (f : LogFields) (k : Str) :
    (c.entry f)[k]? = (f.values[k]?).or (c.head[k]?) := by
  cases hk : f.values[k]? with
  | some v =>
    rw [Option.some_or]
    refine getElem?_foldl_insert id (fun w hw => ?_) c.head (.inl ⟨v, mem_entries_iff.mpr hk⟩)
    rw [mem_entries_iff, hk] at hw
    exact (Option.some.inj hw).symm
  | none =>
    rw [Option.none_or]
    refine getElem?_foldl_insert_of_notMem id (fun w hw => ?_) c.head
    rw [mem_entries_iff, hk] at hw
    cases hw

theorem numeric_head (c : LogCall) {k : Str} {v : Json.Value} (h : c.head[k]? = some v) :
    v.Numeric := by
  have hempty {k : Str} {v : Json.Value} (hv : (∅ : Map Str Json.Value)[k]? = some v) :
      v.Numeric := by
    rw [Std.ExtTreeMap.getElem?_empty] at hv
    cases hv
  have hstr (t : Str) : (Json.Value.str t).Numeric := trivial
  exact forall_insert (P := fun _ v => v.Numeric)
    (forall_insert (forall_insert hempty (hstr c.ts)) (hstr c.level)) (hstr c.msg) h

theorem numeric_entry (c : LogCall) (f : LogFields) :
    (Json.Value.obj (c.entry f).toList).Numeric := by
  refine Json.numericMembers_iff.mpr fun e he => ?_
  have hget : (c.entry f)[e.1]? = some e.2 := Std.ExtTreeMap.mem_toList_iff_getElem?_eq_some.mp he
  rw [getElem?_entry, Option.or_eq_some_iff] at hget
  rcases hget with hfield | ⟨-, hhead⟩
  · exact f.numeric hfield
  · exact numeric_head c hhead

/-! ## Lines -/

theorem records_append {line : List Char} (hline : Json.Visible line) (text : List Char) :
    records (line ++ '\n' :: text) = line :: records text := by
  have hno : ∀ c ∈ line, (c == '\n') = false := by
    intro c hc
    have hlow := hline c hc
    exact beq_eq_false_iff_ne.mpr fun heq => absurd (heq ▸ hlow) (by decide)
  have hne : text.splitOnP (· == '\n') ≠ [] := List.splitOnP_ne_nil _ text
  rw [records, List.splitOn, List.splitOnP_append_cons_of_forall_mem hno '\n' rfl,
    List.dropLast_cons_of_ne_nil hne]
  rfl

/-- The entries of calls that write one, in their order. -/
def logged (calls : List LogCall) : List (Map Str Json.Value) :=
  calls.filterMap fun c => c.fields.map c.entry

theorem foldl_log (calls : List LogCall) (text : List Char) :
    calls.foldl log text = text ++ (logged calls).flatMap logLine := by
  induction calls generalizing text with
  | nil => exact (List.append_nil text).symm
  | cons c calls ih =>
    rw [List.foldl_cons, ih]
    cases hf : c.fields with
    | none =>
      have hskip : logged (c :: calls) = logged calls :=
        List.filterMap_cons_none (by rw [hf, Option.map_none])
      rw [log, hf, hskip]
    | some f =>
      have hentry : logged (c :: calls) = c.entry f :: logged calls :=
        List.filterMap_cons_some (by rw [hf, Option.map_some])
      rw [log, hf, hentry, List.flatMap_cons, List.append_assoc]

/-- Whatever is logged, in whatever order the goroutines take the mutex: the lines of the log
are the objects of the calls, in that order.  An object has the fields of its call, and its own
level, message and time where the fields have none of that name. -/
theorem log_records (calls : List LogCall) :
    (records (calls.foldl log [])).map (fun line => Json.decode (line ++ ['\n'])) =
        (logged calls).map (fun entry => some (.obj entry.toList)) ∧
      ∀ (c : LogCall) (f : LogFields) (k : Str),
        (c.entry f)[k]? = (f.values[k]?).or (c.head[k]?) := by
  refine ⟨?_, getElem?_entry⟩
  rw [foldl_log, List.nil_append]
  have hnumeric : ∀ entry ∈ logged calls, (Json.Value.obj entry.toList).Numeric := by
    intro entry hentry
    obtain ⟨c, -, hc⟩ := List.mem_filterMap.mp hentry
    obtain ⟨f, -, rfl⟩ := Option.map_eq_some_iff.mp hc
    exact numeric_entry c f
  generalize logged calls = l at hnumeric ⊢
  induction l with
  | nil => rfl
  | cons entry l ih =>
    obtain ⟨hentry, hl⟩ := List.forall_mem_cons.mp hnumeric
    rw [List.flatMap_cons, logLine, List.append_assoc, List.singleton_append,
      records_append (Json.visible_write Json.oneLine_compact _ hentry 0), List.map_cons,
      List.map_cons, Json.decode_write .compact hentry, ih hl]

end Server
end MkyBoot
