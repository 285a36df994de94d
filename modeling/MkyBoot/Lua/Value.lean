import MkyBoot.Rounding
import MkyBoot.Text

/-!
# Lua values

Strings, numbers and the conversions between them, as the Lua library documents
them.  A Lua string is a byte string, and each byte is written here as the
character with its code, so a string is a list of characters.  A Lua number is a
rational: every finite double is one, and no operation below overflows.

`tostring` and `tonumber` are the two conversions.  The text of a number is the
one `%.14g` gives, which is what string concatenation uses.  The facts proved
about both concern the characters of the text, because that is what a command
line built from them depends on.
-/

namespace MkyBoot
namespace Lua

abbrev Str := List Char

/-! ## Pattern classes in the C locale -/

/-- `%s` -/
def isSpace (c : Char) : Bool := c == ' ' || (9 ≤ c.toNat && c.toNat ≤ 13)

/-- `%x` -/
def isXDigit (c : Char) : Bool :=
  c.isDigit || ('a' ≤ c && c ≤ 'f') || ('A' ≤ c && c ≤ 'F')

/-- `%w` -/
def isWord (c : Char) : Bool := c.isAlphanum

theorem isDigit_iff {c : Char} : c.isDigit = true ↔ 48 ≤ c.toNat ∧ c.toNat ≤ 57 := by
  simp only [Char.isDigit, Bool.and_eq_true, decide_eq_true_eq]
  exact Iff.rfl

theorem isXDigit_iff {c : Char} : isXDigit c = true ↔
    (48 ≤ c.toNat ∧ c.toNat ≤ 57) ∨ (97 ≤ c.toNat ∧ c.toNat ≤ 102) ∨
      (65 ≤ c.toNat ∧ c.toNat ≤ 70) := by
  simp only [isXDigit, Bool.or_eq_true, Bool.and_eq_true, decide_eq_true_eq, isDigit_iff,
    or_assoc]
  exact Iff.rfl

theorem isWord_iff {c : Char} : isWord c = true ↔
    (65 ≤ c.toNat ∧ c.toNat ≤ 90) ∨ (97 ≤ c.toNat ∧ c.toNat ≤ 122) ∨
      (48 ≤ c.toNat ∧ c.toNat ≤ 57) := by
  simp only [isWord, Char.isAlphanum, Char.isAlpha, Char.isUpper, Char.isLower,
    Bool.or_eq_true, Bool.and_eq_true, decide_eq_true_eq, isDigit_iff, or_assoc]
  exact Iff.rfl

theorem isWord_of_isDigit {c : Char} (h : c.isDigit = true) : isWord c = true :=
  isWord_iff.mpr (Or.inr (Or.inr (isDigit_iff.mp h)))

theorem isWord_of_isXDigit {c : Char} (h : isXDigit c = true) : isWord c = true := by
  rw [isXDigit_iff] at h
  rw [isWord_iff]
  omega

/-! ## Values -/

inductive Val where
  | nil
  | bool (b : Bool)
  | num (q : ℚ)
  | str (s : Str)
  /-- A value of another type.  The program never looks inside one here. -/
  | other
  deriving DecidableEq

/-- A value `json.decode` can return: a table, given by its string keys, or a
value of another type.  An array is a table without string keys. -/
inductive Doc where
  | leaf (v : Val)
  | table (fields : List (Str × Doc))

/-- `d[k]` for a table `d`. -/
def Doc.get : Doc → Str → Doc
  | .leaf _, _ => .leaf .nil
  | .table fields, k => (fields.find? (·.1 == k)).elim (.leaf .nil) (·.2)

/-- A document as a plain value.  Tables take part in no comparison. -/
def Doc.val : Doc → Val
  | .leaf v => v
  | .table _ => .other

/-- `a or b` -/
def Val.orElse : Val → Val → Val
  | .nil, b => b
  | .bool false, b => b
  | a, _ => a

/-- `n > v`, where comparing a number with a value of another type raises. -/
def Val.below (n : ℚ) : Val → Option Bool
  | .num q => some (q < n)
  | _ => none

/-- What a call does: it returns a value or raises an error. -/
inductive Call (α : Type) where
  | raised
  | returned (a : α)
  deriving DecidableEq

/-! ## The text of a number -/

/-- A positive number rounded to fourteen significant digits, as the integer
they spell and the exponent of the first.  Rounding can carry into a fifteenth
digit. -/
def significand (q : ℚ) : ℕ × ℤ :=
  let e := Int.log 10 q
  let d := roundEven (q * 10 ^ (13 - e))
  if d = 10 ^ 14 then (10 ^ 13, e + 1) else (d, e)

def significant (q : ℚ) : Str × ℤ := (Nat.toDigits 10 (significand q).1, (significand q).2)

/-- A fraction after its point, with trailing zeros and an idle point removed. -/
def fraction (ds : Str) : Str :=
  match ds.rdropWhile (· == '0') with
  | [] => []
  | d :: rest => '.' :: d :: rest

def exponentText (e : ℤ) : Str :=
  let ds := Nat.toDigits 10 e.natAbs
  'e' :: (if e < 0 then '-' else '+') :: (if ds.length < 2 then '0' :: ds else ds)

/-- The text of a positive number under `%.14g`. -/
def positiveText (q : ℚ) : Str :=
  let (ds, e) := significant q
  if e < -4 ∨ 14 ≤ e then ds.take 1 ++ fraction (ds.drop 1) ++ exponentText e
  else if 0 ≤ e then ds.take (e.toNat + 1) ++ fraction (ds.drop (e.toNat + 1))
  else '0' :: fraction (List.replicate (-e - 1).toNat '0' ++ ds)

def numberText (q : ℚ) : Str :=
  if q = 0 then ['0'] else if q < 0 then '-' :: positiveText (-q) else positiveText q

/-- The characters a number's text is made of. -/
def isNumberChar (c : Char) : Bool := c.isDigit || c ∈ ['.', 'e', '+', '-']

theorem isNumberChar_of_mem_toDigits {c : Char} {n : ℕ} (h : c ∈ Nat.toDigits 10 n) :
    isNumberChar c = true := by
  rw [isNumberChar, Nat.isDigit_of_mem_toDigits (by omega) (by omega) h, Bool.true_or]

theorem mem_significant {q : ℚ} {c : Char} (h : c ∈ (significant q).1) :
    isNumberChar c = true := isNumberChar_of_mem_toDigits h

theorem significant_ne_nil (q : ℚ) : (significant q).1 ≠ [] := Nat.toDigits_ne_nil

theorem mem_fraction {ds : Str} {c : Char} (hds : ∀ d ∈ ds, isNumberChar d = true)
    (h : c ∈ fraction ds) : isNumberChar c = true := by
  unfold fraction at h
  split at h
  · simp at h
  · rename_i d rest hd
    rcases List.mem_cons.mp h with rfl | h
    · decide
    · exact hds c ((List.rdropWhile_prefix _ ds).subset (hd ▸ h))

theorem mem_exponentText {e : ℤ} {c : Char} (h : c ∈ exponentText e) :
    isNumberChar c = true := by
  unfold exponentText at h
  dsimp only at h
  rcases List.mem_cons.mp h with rfl | h
  · decide
  · rcases List.mem_cons.mp h with rfl | h
    · split <;> decide
    · split at h
      · rcases List.mem_cons.mp h with rfl | h
        · decide
        · exact isNumberChar_of_mem_toDigits h
      · exact isNumberChar_of_mem_toDigits h

theorem mem_positiveText {q : ℚ} {c : Char} (h : c ∈ positiveText q) :
    isNumberChar c = true := by
  have hds : ∀ d ∈ (significant q).1, isNumberChar d = true := fun d hd => mem_significant hd
  unfold positiveText at h
  dsimp only at h
  split at h
  · simp only [List.append_assoc, List.mem_append] at h
    rcases h with h | h | h
    · exact hds c (List.mem_of_mem_take h)
    · exact mem_fraction (fun d hd => hds d (List.mem_of_mem_drop hd)) h
    · exact mem_exponentText h
  · split at h
    · rcases List.mem_append.mp h with h | h
      · exact hds c (List.mem_of_mem_take h)
      · exact mem_fraction (fun d hd => hds d (List.mem_of_mem_drop hd)) h
    · rcases List.mem_cons.mp h with rfl | h
      · decide
      · refine mem_fraction (fun d hd => ?_) h
        rcases List.mem_append.mp hd with hd | hd
        · rw [List.eq_of_mem_replicate hd]; decide
        · exact hds d hd

theorem positiveText_ne_nil (q : ℚ) : positiveText q ≠ [] := by
  have hne := significant_ne_nil q
  unfold positiveText
  dsimp only
  split
  · simp [exponentText]
  · split
    · cases hds : (significant q).1 with
      | nil => exact absurd hds hne
      | cons d rest => simp
    · simp

theorem mem_numberText {q : ℚ} {c : Char} (h : c ∈ numberText q) : isNumberChar c = true := by
  unfold numberText at h
  split at h
  · rw [List.mem_singleton.mp h]; decide
  · split at h
    · rcases List.mem_cons.mp h with rfl | h
      · decide
      · exact mem_positiveText h
    · exact mem_positiveText h

theorem numberText_ne_nil (q : ℚ) : numberText q ≠ [] := by
  unfold numberText
  split
  · simp
  · split
    · simp
    · exact positiveText_ne_nil q

def tostring : Val → Str
  | .nil => "nil".toList
  | .bool true => "true".toList
  | .bool false => "false".toList
  | .num q => numberText q
  | .str s => s
  | .other => "table".toList

/-! ## Reading a number

A numeral may be surrounded by white space and may carry a sign.  The decimal
and the hexadecimal form differ in their digits, their base and the letter and
base of the exponent, so one scanner serves both. -/

structure NumeralForm where
  digit : Char → Bool
  base : ℕ
  marks : List Char
  expBase : ℕ

def decimalForm : NumeralForm :=
  { digit := Char.isDigit, base := 10, marks := ['e', 'E'], expBase := 10 }

def hexForm : NumeralForm :=
  { digit := isXDigit, base := 16, marks := ['p', 'P'], expBase := 2 }

def digitValue (c : Char) : ℕ :=
  if c.isDigit then c.toNat - 48 else if c.isLower then c.toNat - 87 else c.toNat - 55

def digitsValue (base : ℕ) (ds : Str) : ℕ := ds.foldl (fun n c => n * base + digitValue c) 0

def signed (s : Str) : ℤ × Str :=
  match s with
  | '-' :: rest => (-1, rest)
  | '+' :: rest => (1, rest)
  | _ => (1, s)

/-- The integer after an exponent mark. -/
def scanExponent (s : Str) : Option ℤ :=
  let (sign, ds) := signed s
  if ds ≠ [] ∧ ds.all Char.isDigit then some (sign * digitsValue 10 ds) else none

/-- Digits with at most one point, not both sides empty. -/
def scanMantissa (f : NumeralForm) (s : Str) : Option ℚ :=
  let whole := s.takeWhile f.digit
  match s.dropWhile f.digit with
  | [] => if whole = [] then none else some (digitsValue f.base whole)
  | c :: frac =>
    if c = '.' ∧ frac.all f.digit ∧ whole ++ frac ≠ [] then
      some (digitsValue f.base (whole ++ frac) / f.base ^ frac.length)
    else none

def scanNumeral (f : NumeralForm) (s : Str) : Option ℚ :=
  let mantissa := s.takeWhile (fun c => !f.marks.contains c)
  match s.dropWhile (fun c => !f.marks.contains c) with
  | [] => scanMantissa f mantissa
  | _ :: expo => do
    let m ← scanMantissa f mantissa
    let e ← scanExponent expo
    some (m * (f.expBase : ℚ) ^ e)

def scanUnsigned (s : Str) : Option ℚ :=
  match s with
  | '0' :: x :: rest =>
    if x = 'x' ∨ x = 'X' then scanNumeral hexForm rest else scanNumeral decimalForm s
  | _ => scanNumeral decimalForm s

/-- White space removed at both ends. -/
def strip (s : Str) : Str := (s.dropWhile isSpace).rdropWhile isSpace

def tonumber : Val → Option ℚ
  | .num q => some q
  | .str s =>
    let (sign, body) := signed (strip s)
    (scanUnsigned body).map (sign * ·)
  | _ => none

/-! The text of a natural number is read as the number. -/

theorem strip_of_digits {ds : Str} (h : ∀ c ∈ ds, c.isDigit = true) : strip ds = ds := by
  have hspace : ∀ c ∈ ds, ¬ isSpace c = true := by
    intro c hc hs
    have hd := isDigit_iff.mp (h c hc)
    rw [isSpace, Bool.or_eq_true, Bool.and_eq_true, decide_eq_true_eq, decide_eq_true_eq] at hs
    obtain hblank | hcontrol := hs
    · rw [beq_iff_eq.mp hblank] at hd
      exact absurd hd (by decide)
    · omega
  have hfront : ds.dropWhile isSpace = ds := by
    rw [List.dropWhile_eq_self_iff]
    exact fun hlen => hspace _ (List.getElem_mem hlen)
  rw [strip, hfront, List.rdropWhile_eq_self_iff]
  exact fun hne => hspace _ (List.getLast_mem hne)

theorem signed_of_digits {ds : Str} (h : ∀ c ∈ ds, c.isDigit = true) : signed ds = (1, ds) := by
  unfold signed
  split
  · exact absurd (h '-' List.mem_cons_self) (by decide)
  · exact absurd (h '+' List.mem_cons_self) (by decide)
  · rfl

theorem scanUnsigned_of_digits {ds : Str} (hne : ds ≠ []) (h : ∀ c ∈ ds, c.isDigit = true) :
    scanUnsigned ds = some (digitsValue 10 ds : ℚ) := by
  have hdigit : ∀ c ∈ ds, decimalForm.digit c = true := h
  have hmark : ∀ c ∈ ds, (!decimalForm.marks.contains c) = true := by
    intro c hc
    rw [Bool.not_eq_true', List.contains_eq_mem, decide_eq_false_iff_not]
    intro hmem
    have hmarks : ∀ m ∈ decimalForm.marks, m.isDigit = false := by decide
    exact absurd ((h c hc).symm.trans (hmarks c hmem)) (by decide)
  have hnumeral : scanNumeral decimalForm ds = some (digitsValue 10 ds : ℚ) := by
    rw [scanNumeral, List.dropWhile_eq_nil_iff.mpr hmark, List.takeWhile_eq_self_iff.mpr hmark]
    dsimp only
    rw [scanMantissa, List.dropWhile_eq_nil_iff.mpr hdigit, List.takeWhile_eq_self_iff.mpr hdigit]
    exact if_neg hne
  unfold scanUnsigned
  split
  · rename_i x rest
    have hx : ¬ (x = 'x' ∨ x = 'X') := by
      intro hx
      have hd := h x (List.mem_cons_of_mem _ List.mem_cons_self)
      obtain rfl | rfl := hx
      · exact absurd hd (by decide)
      · exact absurd hd (by decide)
    rw [if_neg hx]
    exact hnumeral
  · exact hnumeral

theorem digitsValue_eq {ds : Str} (h : ∀ c ∈ ds, c.isDigit = true) :
    digitsValue 10 ds = Nat.ofDigitChars 10 ds 0 := by
  refine List.foldl_ext _ _ _ fun n c hc => ?_
  rw [digitValue, if_pos (h c hc), Nat.mul_comm]
  rfl

theorem tonumber_toDigits (n : ℕ) : tonumber (.str (Nat.toDigits 10 n)) = some (n : ℚ) := by
  have hdigit : ∀ c ∈ Nat.toDigits 10 n, c.isDigit = true := fun c hc =>
    Nat.isDigit_of_mem_toDigits (by omega) (by omega) hc
  rw [tonumber, strip_of_digits hdigit, signed_of_digits hdigit]
  dsimp only
  rw [scanUnsigned_of_digits Nat.toDigits_ne_nil hdigit, digitsValue_eq hdigit,
    Nat.ofDigitChars_ten_toDigits]
  simp

/-- The characters a numeral is made of. -/
def isNumeralChar (c : Char) : Bool := isWord c || c ∈ ['.', '+', '-']

theorem isNumeralChar_of_isWord {c : Char} (h : isWord c = true) : isNumeralChar c = true := by
  rw [isNumeralChar, h, Bool.true_or]

/-- A scanner's digits and exponent marks are letters or digits. -/
def NumeralForm.Wordy (f : NumeralForm) : Prop :=
  (∀ c, f.digit c = true → isWord c = true) ∧ ∀ c ∈ f.marks, isWord c = true

theorem decimalForm_wordy : decimalForm.Wordy :=
  ⟨fun _ => isWord_of_isDigit, by decide⟩

theorem hexForm_wordy : hexForm.Wordy :=
  ⟨fun _ => isWord_of_isXDigit, by decide⟩

theorem mem_signed {s : Str} {c : Char} (hrest : ∀ d ∈ (signed s).2, isNumeralChar d = true)
    (h : c ∈ s) : isNumeralChar c = true := by
  unfold signed at hrest
  split at hrest
  · rcases List.mem_cons.mp h with rfl | h
    · decide
    · exact hrest c h
  · rcases List.mem_cons.mp h with rfl | h
    · decide
    · exact hrest c h
  · exact hrest c h

theorem scanExponent_chars {s : Str} {e : ℤ} (hs : scanExponent s = some e) :
    ∀ c ∈ s, isNumeralChar c = true := by
  intro c hc
  refine mem_signed (fun d hd => ?_) hc
  simp only [scanExponent] at hs
  split at hs
  · rename_i hds
    exact isNumeralChar_of_isWord (isWord_of_isDigit (List.all_eq_true.mp hds.2 d hd))
  · exact absurd hs (by simp)

theorem scanMantissa_chars {f : NumeralForm} (hf : f.Wordy) {s : Str} {q : ℚ}
    (hs : scanMantissa f s = some q) : ∀ c ∈ s, isNumeralChar c = true := by
  intro c hc
  have hdig : ∀ d, f.digit d = true → isNumeralChar d = true :=
    fun d hd => isNumeralChar_of_isWord (hf.1 d hd)
  rw [← List.takeWhile_append_dropWhile (p := f.digit) (l := s)] at hc
  rcases List.mem_append.mp hc with hc | hc
  · exact hdig c (List.mem_takeWhile_imp hc)
  · simp only [scanMantissa] at hs
    split at hs
    · rename_i hnil
      rw [hnil] at hc
      simp at hc
    · rename_i d frac hcons
      rw [hcons] at hc
      split at hs
      · rename_i hcond
        rcases List.mem_cons.mp hc with rfl | hc
        · rw [hcond.1]; decide
        · exact hdig c (List.all_eq_true.mp hcond.2.1 c hc)
      · exact absurd hs (by simp)

theorem scanNumeral_chars {f : NumeralForm} (hf : f.Wordy) {s : Str} {q : ℚ}
    (hs : scanNumeral f s = some q) : ∀ c ∈ s, isNumeralChar c = true := by
  intro c hc
  rw [← List.takeWhile_append_dropWhile (p := fun c => !f.marks.contains c) (l := s)] at hc
  simp only [scanNumeral] at hs
  split at hs
  · rename_i hnil
    rw [hnil, List.append_nil] at hc
    exact scanMantissa_chars hf hs c hc
  · rename_i m expo hcons
    have hne : s.dropWhile (fun c => !f.marks.contains c) ≠ [] := by rw [hcons]; simp
    have hm := List.head_dropWhile_not (fun c => !f.marks.contains c) hne
    simp only [hcons, List.head_cons, Bool.not_eq_false'] at hm
    obtain ⟨v, hv, hs⟩ := Option.bind_eq_some_iff.mp hs
    obtain ⟨e, he, -⟩ := Option.bind_eq_some_iff.mp hs
    rw [hcons] at hc
    rcases List.mem_append.mp hc with hc | hc
    · exact scanMantissa_chars hf hv c hc
    · rcases List.mem_cons.mp hc with rfl | hc
      · exact isNumeralChar_of_isWord (hf.2 c (by simpa using hm))
      · exact scanExponent_chars he c hc

theorem scanUnsigned_chars {s : Str} {q : ℚ} (hs : scanUnsigned s = some q) :
    ∀ c ∈ s, isNumeralChar c = true := by
  unfold scanUnsigned at hs
  split at hs
  · rename_i x rest
    split at hs
    · rename_i hx
      intro c hc
      rcases List.mem_cons.mp hc with rfl | hc
      · decide
      · rcases List.mem_cons.mp hc with rfl | hc
        · rcases hx with rfl | rfl <;> decide
        · exact scanNumeral_chars hexForm_wordy hs c hc
    · exact scanNumeral_chars decimalForm_wordy hs
  · exact scanNumeral_chars decimalForm_wordy hs

/-- A string `tonumber` accepts holds white space and numeral characters only. -/
theorem tonumber_chars {s : Str} {q : ℚ} (h : tonumber (.str s) = some q) :
    ∀ c ∈ s, isSpace c = true ∨ isNumeralChar c = true := by
  intro c hc
  obtain ⟨v, hv, -⟩ := Option.map_eq_some_iff.mp h
  rw [← List.takeWhile_append_dropWhile (p := isSpace) (l := s)] at hc
  rcases List.mem_append.mp hc with hc | hc
  · exact Or.inl (List.mem_takeWhile_imp hc)
  · rw [← List.rdropWhile_append_rtakeWhile (p := isSpace) (l := s.dropWhile isSpace)] at hc
    rcases List.mem_append.mp hc with hc | hc
    · exact Or.inr (mem_signed (fun d hd => scanUnsigned_chars hv d hd) hc)
    · exact Or.inl (List.mem_rtakeWhile_imp hc)

example : tonumber (.str " 0x1F ".toList) = some 31 := by decide +kernel

example : tostring (.num (1 / 8)) = "0.125".toList := by decide +kernel

end Lua
end MkyBoot
