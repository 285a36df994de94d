import MkyBoot.Json.Writer
import MkyBoot.Lua.Value

/-!
# A json module

A module of Lua that writes a document as JSON and reads it back: the fields of a table in
their order, and numbers as `tostring` writes them.  `decode_encode` is the round trip, for
documents without `nil` whose numbers are read back from their texts.
-/

namespace MkyBoot
namespace Lua
namespace Doc

def valValue : Val → Json.Value
  | .nil | .other => .null
  | .bool b => .bool b
  | .num q => .num (numberText q)
  | .str s => .str s

mutual

def toValue : Doc → Json.Value
  | .leaf v => valValue v
  | .table fields => .obj (toMembers fields)

def toMembers : List (Str × Doc) → List (Json.Text × Json.Value)
  | [] => []
  | (k, d) :: fields => (k, toValue d) :: toMembers fields

end

mutual

def ofValue : Json.Value → Doc
  | .null => .leaf .nil
  | .bool b => .leaf (.bool b)
  | .num t => .leaf ((tonumber (.str t)).elim .nil .num)
  | .str s => .leaf (.str s)
  | .arr _ => .table []
  | .obj members => .table (ofMembers members)

def ofMembers : List (Json.Text × Json.Value) → List (Str × Doc)
  | [] => []
  | (k, v) :: members => (k, ofValue v) :: ofMembers members

end

def encode (d : Doc) : Str := Json.write .compact 0 d.toValue

def decode (text : Str) : Option Doc := (Json.decode text).map ofValue

/-- A value with a text of its own: the text of a number has to be read as the number. -/
def writableVal : Val → Bool
  | .nil | .other => false
  | .bool _ | .str _ => true
  | .num q => Json.isNumber (numberText q) && tonumber (.str (numberText q)) == some q

mutual

def writable : Doc → Bool
  | .leaf v => writableVal v
  | .table fields => writableFields fields

def writableFields : List (Str × Doc) → Bool
  | [] => true
  | (_, d) :: fields => writable d && writableFields fields

end

theorem ofValue_valValue {v : Val} (h : writableVal v = true) : ofValue (valValue v) = .leaf v := by
  cases v with
  | nil => cases h
  | other => cases h
  | bool b => rfl
  | str s => rfl
  | num q =>
    have hread : tonumber (.str (numberText q)) = some q :=
      beq_iff_eq.mp (Bool.and_eq_true_iff.mp h).2
    rw [valValue, ofValue, hread]
    rfl

theorem numeric_valValue {v : Val} (h : writableVal v = true) : (valValue v).Numeric := by
  cases v with
  | num q => exact (Bool.and_eq_true_iff.mp h).1
  | nil | other | bool _ | str _ => trivial

mutual

theorem ofValue_toValue : (d : Doc) → d.writable = true → ofValue d.toValue = d
  | .leaf _, h => ofValue_valValue h
  | .table fields, h => congrArg Doc.table (ofMembers_toMembers fields h)

theorem ofMembers_toMembers : (fields : List (Str × Doc)) → writableFields fields = true →
    ofMembers (toMembers fields) = fields
  | [], _ => rfl
  | (k, d) :: fields, h =>
    have hboth := Bool.and_eq_true_iff.mp h
    congrArg₂ (fun d fields => (k, d) :: fields) (ofValue_toValue d hboth.1)
      (ofMembers_toMembers fields hboth.2)

end

mutual

theorem numeric_toValue : (d : Doc) → d.writable = true → d.toValue.Numeric
  | .leaf _, h => numeric_valValue h
  | .table fields, h => numeric_toMembers fields h

theorem numeric_toMembers : (fields : List (Str × Doc)) → writableFields fields = true →
    Json.NumericMembers (toMembers fields)
  | [], _ => trivial
  | (_, d) :: fields, h =>
    have hboth := Bool.and_eq_true_iff.mp h
    ⟨numeric_toValue d hboth.1, numeric_toMembers fields hboth.2⟩

end

theorem decode_encode {d : Doc} (h : d.writable = true) : decode (encode d) = some d := by
  rw [decode, encode, Json.decode_write_bare _ (numeric_toValue d h), Option.map_some,
    ofValue_toValue d h]

example : encode (.table [("count".toList, .leaf (.num 5)), ("name".toList, .leaf (.str ['a']))]) =
    "\x7b\"count\":5,\"name\":\"a\"\x7d".toList := by decide +kernel

end Doc
end Lua
end MkyBoot
