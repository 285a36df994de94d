import MkyBoot.Lua.Value

/-!
# Validators

`mkyboot.inc.valid`, the tests each command wrapper runs on its arguments.  An
anchored pattern whose items are single classes is a list of classes.  What later
modules need from a validator is which characters a text it accepts can have.
-/

namespace MkyBoot
namespace Control
namespace Valid

open Lua

/-- A pattern of single classes, anchored at both ends. -/
def ofClasses : List (Char → Bool) → Str → Bool
  | [], [] => true
  | p :: ps, c :: cs => p c && ofClasses ps cs
  | _, _ => false

def onStr (p : Str → Bool) : Val → Bool
  | .str s => p s
  | _ => false

/-- `%x%x:%x%x:%x%x:%x%x:%x%x:%x%x` -/
def macClasses : List (Char → Bool) :=
  [isXDigit, isXDigit, (· == ':'), isXDigit, isXDigit, (· == ':'), isXDigit, isXDigit, (· == ':'),
    isXDigit, isXDigit, (· == ':'), isXDigit, isXDigit, (· == ':'), isXDigit, isXDigit]

def mac : Val → Bool := onStr (ofClasses macClasses)

def digits (s : Str) : Bool := s ≠ [] && s.all Char.isDigit

/-- One group of an address: digits, and a value in range. -/
def octet (s : Str) : Bool :=
  digits s && (tonumber (.str s)).any (fun q => decide (0 ≤ q ∧ q ≤ 255))

def ipv4 : Val → Bool := onStr fun s =>
  match s.splitOn '.' with
  | [a, b, c, d] => octet a && octet b && octet c && octet d
  | _ => false

def hostname : Val → Bool := onStr fun s =>
  s ≠ [] && s.length ≤ 63 && s.all (fun c => isWord c || c ∈ ['-', '.'])

def iqn : Val → Bool := onStr fun s =>
  s ≠ [] && s.all (fun c => isWord c || c ∈ ['-', '.', ':'])

/-- The text of a numeric argument is read as a number and compared. -/
def inRange (lo hi : ℚ) (v : Val) : Bool := (tonumber v).any (fun q => decide (lo ≤ q ∧ q ≤ hi))

def tid : Val → Bool := inRange 1 500

def lunId : Val → Bool := inRange 0 255

def devPath : Val → Bool := onStr fun s =>
  "/dev/nbd".toList.isPrefixOf s && digits (s.drop 8)

def pid : Val → Bool := onStr fun s =>
  digits s && (tonumber (.str s)).any (fun q => decide (0 < q))

/-- `^%d+[GMK]?$` -/
def imgSize : Val → Bool := onStr fun s =>
  digits s || (s.getLast?.any (· ∈ ['G', 'M', 'K']) && digits s.dropLast)

def cacheMode : Val → Bool := onStr fun s =>
  s ∈ ["none".toList, "unsafe".toList, "writeback".toList, "directsync".toList,
    "writethrough".toList]

/-- The class `[;|&$(){}\n\r]`, and the backquote, of the path validators. -/
def denied : Str := [';', '|', '&', '\x60', '$', '(', ')', '\x7b', '\x7d', '\n', '\r']

def traverses : Str → Bool
  | '.' :: '.' :: _ => true
  | _ :: cs => traverses cs
  | [] => false

def safePath : Val → Bool := onStr fun s =>
  s ≠ [] && s.length ≤ 4096 && s.all (· ∉ denied) && !traverses s

/-- Beside the tests of `safePath` the path is shorter and of these characters only. -/
def imgPath : Val → Bool := onStr fun s =>
  s ≠ [] && s.length ≤ 256 && s.all (· ∉ denied) && !traverses s &&
    s.all (fun c => isWord c || c ∈ ['_', '-', '.', '/'])

/-! ## Hardware addresses

Every class of the pattern is one of word characters or one of the colon alone, so
what is left of an address without its colons determines it. -/

def Wordlike (p : Char → Bool) : Prop :=
  (∀ c, p c = true → isWord c = true) ∨ (∀ c, p c = true → c = ':')

theorem macClasses_wordlike : ∀ p ∈ macClasses, Wordlike p := by
  have hx : Wordlike isXDigit := Or.inl fun _ h => isWord_of_isXDigit h
  have hc : Wordlike (· == ':') := Or.inr fun _ h => beq_iff_eq.mp h
  intro p hp
  simp only [macClasses, List.mem_cons, List.not_mem_nil, or_false] at hp
  obtain h | h | h | h | h | h | h | h | h | h | h | h | h | h | h | h | h := hp <;>
    first | exact h ▸ hx | exact h ▸ hc

theorem ofClasses_cons {p : Char → Bool} {ps : List (Char → Bool)} {s : Str}
    (h : ofClasses (p :: ps) s = true) :
    ∃ c cs, s = c :: cs ∧ p c = true ∧ ofClasses ps cs = true := by
  cases s with
  | nil => exact absurd h Bool.false_ne_true
  | cons c cs =>
    rw [ofClasses, Bool.and_eq_true] at h
    exact ⟨c, cs, rfl, h.1, h.2⟩

theorem ofClasses_filter {ps : List (Char → Bool)} (hps : ∀ p ∈ ps, Wordlike p) {s t : Str}
    (hs : ofClasses ps s = true) (ht : ofClasses ps t = true) :
    (s.filter isWord).length = (t.filter isWord).length ∧
      (s.filter isWord = t.filter isWord → s = t) := by
  induction ps generalizing s t with
  | nil =>
    cases s with
    | nil =>
      cases t with
      | nil => exact ⟨rfl, fun _ => rfl⟩
      | cons => exact absurd ht Bool.false_ne_true
    | cons => exact absurd hs Bool.false_ne_true
  | cons p ps ih =>
    obtain ⟨c, cs, rfl, hc, hcs⟩ := ofClasses_cons hs
    obtain ⟨d, ds, rfl, hd, hds⟩ := ofClasses_cons ht
    obtain ⟨hlen, hinj⟩ := ih (fun q hq => hps q (List.mem_cons_of_mem p hq)) hcs hds
    cases hps p List.mem_cons_self with
    | inl hword =>
      rw [List.filter_cons_of_pos (hword c hc), List.filter_cons_of_pos (hword d hd)]
      refine ⟨congrArg Nat.succ hlen, fun h => ?_⟩
      injection h with hcd hrest
      rw [hcd, hinj hrest]
    | inr hcolon =>
      have hskip : ¬ isWord ':' = true := by decide
      rw [hcolon c hc, hcolon d hd, List.filter_cons_of_neg hskip,
        List.filter_cons_of_neg hskip]
      exact ⟨hlen, fun h => by rw [hinj h]⟩

/-! ## The characters of an accepted text

Names, addresses, devices and sizes consist of word characters and a few signs. -/

def isAddressChar (c : Char) : Bool := isWord c || c ∈ ['-', '.', ':', '/']

def Address (s : Str) : Prop := s ≠ [] ∧ ∀ c ∈ s, isAddressChar c = true

theorem isAddressChar_of_isWord {c : Char} (h : isWord c = true) : isAddressChar c = true := by
  rw [isAddressChar, h, Bool.true_or]

theorem address_of_onStr {q : Str → Bool} (hq : ∀ s, q s = true → Address s) {v : Val}
    (hv : onStr q v = true) : Address (tostring v) := by
  cases v with
  | str s => exact hq s hv
  | nil | bool | num | other => exact absurd hv Bool.false_ne_true

/-- A nonempty text of one class of address characters. -/
theorem address_of_all {p : Char → Bool} (hp : ∀ c, p c = true → isAddressChar c = true) {s : Str}
    (h : (s ≠ [] && s.all p) = true) : Address s := by
  rw [Bool.and_eq_true, decide_eq_true_eq, List.all_eq_true] at h
  exact ⟨h.1, fun c hc => hp c (h.2 c hc)⟩

/-- Word characters and some of the signs. -/
theorem isAddressChar_of_signs {l : List Char} (hl : ∀ c ∈ l, isAddressChar c = true) (c : Char)
    (h : (isWord c || decide (c ∈ l)) = true) : isAddressChar c = true := by
  rw [Bool.or_eq_true, decide_eq_true_eq] at h
  obtain h | h := h
  · exact isAddressChar_of_isWord h
  · exact hl c h

theorem address_iqn {v : Val} (h : iqn v = true) : Address (tostring v) :=
  address_of_onStr (fun _ => address_of_all (isAddressChar_of_signs (by decide))) h

theorem address_hostname {v : Val} (h : hostname v = true) : Address (tostring v) := by
  refine address_of_onStr (fun s hs => ?_) h
  rw [Bool.and_eq_true, Bool.and_eq_true] at hs
  have hname : (s ≠ [] && s.all fun c => isWord c || c ∈ ['-', '.']) = true :=
    Bool.and_eq_true_iff.mpr ⟨hs.1.1, hs.2⟩
  exact address_of_all (isAddressChar_of_signs (by decide)) hname

theorem address_digits {s : Str} (h : digits s = true) : Address s :=
  address_of_all (fun _ hc => isAddressChar_of_isWord (isWord_of_isDigit hc)) h

theorem address_pid {v : Val} (h : pid v = true) : Address (tostring v) :=
  address_of_onStr (fun _ hs => address_digits (Bool.and_eq_true_iff.mp hs).1) h

theorem address_append {s t : Str} (hs : Address s) (ht : Address t) : Address (s ++ t) := by
  refine ⟨by simp [hs.1], fun c hc => ?_⟩
  obtain hc | hc := List.mem_append.mp hc
  · exact hs.2 c hc
  · exact ht.2 c hc

theorem address_singleton {c : Char} (h : isAddressChar c = true) : Address [c] :=
  ⟨List.cons_ne_nil _ _, fun d hd => by rw [List.mem_singleton.mp hd]; exact h⟩

theorem address_imgSize {v : Val} (h : imgSize v = true) : Address (tostring v) := by
  refine address_of_onStr (fun s hs => ?_) h
  rw [Bool.or_eq_true, Bool.and_eq_true] at hs
  obtain hs | ⟨hlast, hinit⟩ := hs
  · exact address_digits hs
  · obtain ⟨c, hc, hmem⟩ := (Option.any_eq_true _ _).mp hlast
    have hunit : ∀ d ∈ ['G', 'M', 'K'], isAddressChar d = true := by decide
    obtain ⟨t, rfl⟩ := List.getLast?_eq_some_iff.mp hc
    rw [List.dropLast_concat] at hinit
    exact address_append (address_digits hinit)
      (address_singleton (hunit c (of_decide_eq_true hmem)))

theorem address_devPath {v : Val} (h : devPath v = true) : Address (tostring v) := by
  refine address_of_onStr (fun s hs => ?_) h
  rw [Bool.and_eq_true] at hs
  obtain ⟨hhead, hdigits⟩ := hs
  obtain ⟨t, rfl⟩ := List.isPrefixOf_iff_prefix.mp hhead
  exact address_append ⟨by decide, by decide⟩ (address_digits hdigits)

theorem ofClasses_all {ps : List (Char → Bool)} {p : Char → Bool}
    (hp : ∀ q ∈ ps, ∀ c, q c = true → p c = true) {s : Str} (hs : ofClasses ps s = true) :
    ∀ c ∈ s, p c = true := by
  induction ps generalizing s with
  | nil =>
    cases s with
    | nil => exact fun c hc => absurd hc (List.not_mem_nil)
    | cons => exact absurd hs Bool.false_ne_true
  | cons q ps ih =>
    obtain ⟨c, cs, rfl, hc, hcs⟩ := ofClasses_cons hs
    intro d hd
    obtain hd | hd := List.mem_cons.mp hd
    · rw [hd]
      exact hp q List.mem_cons_self c hc
    · exact ih (fun r hr => hp r (List.mem_cons_of_mem q hr)) hcs d hd

theorem address_mac {v : Val} (h : mac v = true) : Address (tostring v) := by
  refine address_of_onStr (fun s hs => ⟨?_, ofClasses_all (fun q hq c hc => ?_) hs⟩) h
  · intro hnil
    rw [hnil] at hs
    exact absurd hs (by decide)
  · obtain hword | hcolon := macClasses_wordlike q hq
    · exact isAddressChar_of_isWord (hword c hc)
    · rw [hcolon c hc]
      decide

theorem address_octet {s : Str} (h : octet s = true) : Address s :=
  address_digits (Bool.and_eq_true_iff.mp h).1

/-- An address is four octets with dots between them. -/
theorem ipv4_iff {s : Str} : ipv4 (.str s) = true ↔ ∃ a b c d, s.splitOn '.' = [a, b, c, d] ∧
    octet a = true ∧ octet b = true ∧ octet c = true ∧ octet d = true := by
  unfold ipv4 onStr
  dsimp only
  split
  · next a b c d hsplit =>
    simp only [Bool.and_eq_true, and_assoc]
    constructor
    · intro h
      exact ⟨a, b, c, d, hsplit, h⟩
    · intro h
      obtain ⟨a', b', c', d', heq, h⟩ := h
      rw [hsplit] at heq
      simp only [List.cons.injEq, and_true] at heq
      obtain ⟨rfl, rfl, rfl, rfl⟩ := heq
      exact h
  · next hsplit =>
    refine iff_of_false Bool.false_ne_true fun h => ?_
    obtain ⟨a, b, c, d, heq, -⟩ := h
    exact hsplit a b c d heq

theorem address_ipv4 {v : Val} (h : ipv4 v = true) : Address (tostring v) := by
  refine address_of_onStr (fun s hs => ?_) h
  obtain ⟨a, b, c, d, hsplit, ha, hb, hc, hd⟩ := ipv4_iff.mp hs
  have hjoin : ['.'].intercalate (s.splitOn '.') = s := List.intercalate_splitOn '.'
  have hdot : Address ['.'] := address_singleton (by decide)
  rw [hsplit] at hjoin
  simp only [List.intercalate_cons_cons, List.intercalate_singleton] at hjoin
  rw [← hjoin]
  exact address_append (address_append (address_octet ha) hdot)
    (address_append (address_append (address_octet hb) hdot)
      (address_append (address_append (address_octet hc) hdot) (address_octet hd)))

end Valid
end Control
end MkyBoot
