import Mathlib

/-!
# Texts

A text is a list of characters.  How conditions on a text are decided is fixed here
once, for the programs in every language.
-/

namespace MkyBoot

/-- A condition on the characters of a text is decided by going through the text, not
through all characters. -/
instance (priority := high) decidableAllOf {α : Type} (p : α → Prop) [DecidablePred p]
    (l : List α) : Decidable (∀ x ∈ l, p x) := List.decidableBAll p l

instance lawfulBEqText : LawfulBEq (List Char) := inferInstance

/-! ## Parts of a text -/

section Parts

variable {α : Type} {p : α → Bool}

/-- What is written behind a text without a separator goes to its last part. -/
theorem splitOnP_append {suffix : List α} (h : ∀ c ∈ suffix, p c = false) (l : List α) :
    ∃ init last, l.splitOnP p = init ++ [last] ∧
      (l ++ suffix).splitOnP p = init ++ [last ++ suffix] := by
  induction l with
  | nil => exact ⟨[], [], List.splitOnP_nil, List.splitOnP_eq_singleton h⟩
  | cons c l ih =>
    obtain ⟨init, last, hl, happend⟩ := ih
    rw [List.cons_append, List.splitOnP_cons_eq_if_modifyHead, hl,
      List.splitOnP_cons_eq_if_modifyHead, happend]
    by_cases hc : p c = true
    · rw [if_pos hc, if_pos hc]
      exact ⟨[] :: init, last, rfl, rfl⟩
    · rw [if_neg hc, if_neg hc]
      cases init with
      | nil => exact ⟨[], c :: last, rfl, rfl⟩
      | cons first init => exact ⟨(c :: first) :: init, last, rfl, rfl⟩

/-- The parts are made of what is split, without the separators. -/
theorem mem_of_mem_splitOnP {l part : List α} (h : part ∈ l.splitOnP p) {a : α} (ha : a ∈ part) :
    a ∈ l ∧ p a = false := by
  induction l generalizing part a with
  | nil =>
    rw [List.splitOnP_nil, List.mem_singleton] at h
    exact absurd (h ▸ ha) List.not_mem_nil
  | cons c l ih =>
    have hlater {part : List α} (h : part ∈ l.splitOnP p) (ha : a ∈ part) :
        a ∈ c :: l ∧ p a = false := (ih h ha).imp_left (List.mem_cons_of_mem c)
    rw [List.splitOnP_cons_eq_if_modifyHead] at h
    split at h
    · rcases List.mem_cons.mp h with rfl | h
      · exact absurd ha List.not_mem_nil
      · exact hlater h ha
    · rename_i hc
      obtain ⟨first, rest, hl⟩ := List.exists_cons_of_ne_nil (List.splitOnP_ne_nil p l)
      rw [hl, List.modifyHead_cons] at h
      rcases List.mem_cons.mp h with rfl | h
      · rcases List.mem_cons.mp ha with rfl | ha
        · exact ⟨List.mem_cons_self, Bool.eq_false_iff.mpr hc⟩
        · exact hlater (hl ▸ List.mem_cons_self) ha
      · exact hlater (hl ▸ List.mem_cons_of_mem first h) ha

theorem intercalate_append {sep : List α} {l m : List (List α)} (hl : l ≠ []) (hm : m ≠ []) :
    sep.intercalate (l ++ m) = sep.intercalate l ++ sep ++ sep.intercalate m := by
  induction l with
  | nil => exact absurd rfl hl
  | cons part l ih =>
    by_cases hnil : l = []
    · rw [hnil, List.singleton_append, List.intercalate_cons_of_ne_nil hm,
        List.intercalate_singleton]
    · have hboth : l ++ m ≠ [] := List.append_ne_nil_of_left_ne_nil hnil m
      rw [List.cons_append, List.intercalate_cons_of_ne_nil hboth,
        List.intercalate_cons_of_ne_nil hnil, ih hnil]
      simp only [List.append_assoc]

/-- A text continues another one behind a separator exactly if its parts continue the parts
of the other. -/
theorem splitOn_prefix_iff [DecidableEq α] (x : α) (a b : List α) :
    a.splitOn x <+: b.splitOn x ↔ a = b ∨ a ++ [x] <+: b := by
  have hjoin (l : List α) : [x].intercalate (l.splitOn x) = l := List.intercalate_splitOn x
  constructor
  · rintro ⟨rest, hrest⟩
    by_cases hnil : rest = []
    · rw [hnil, List.append_nil] at hrest
      refine Or.inl ?_
      rw [← hjoin a, ← hjoin b, hrest]
    · refine Or.inr ⟨[x].intercalate rest, ?_⟩
      have hne : a.splitOn x ≠ [] := List.splitOn_ne_nil x a
      have hsplit : [x].intercalate (a.splitOn x ++ rest) =
          [x].intercalate (a.splitOn x) ++ [x] ++ [x].intercalate rest :=
        intercalate_append hne hnil
      rw [hrest, hjoin, hjoin] at hsplit
      exact hsplit.symm
  · rintro (rfl | ⟨rest, rfl⟩)
    · exact List.prefix_rfl
    · rw [List.append_assoc, List.singleton_append, List.splitOn_append_cons_self]
      exact List.prefix_append _ _

/-- A search for the first character that fails `p` stops where it should. -/
theorem takeWhile_append_stop {u v : List α} (hu : ∀ c ∈ u, p c = true)
    (hv : v.head?.any p = false) : (u ++ v).takeWhile p = u ∧ (u ++ v).dropWhile p = v := by
  rw [List.takeWhile_append_of_pos hu, List.dropWhile_append_of_pos hu]
  cases v with
  | nil => exact ⟨List.append_nil u, rfl⟩
  | cons c v =>
    have hc : ¬ p c = true := by simpa using hv
    rw [List.takeWhile_cons_of_neg hc, List.dropWhile_cons_of_neg hc, List.append_nil]
    exact ⟨rfl, rfl⟩

/-- A word without a given character stands before the character or behind it. -/
theorem infix_append_cons_iff {w a b : List α} {x : α} (hx : x ∉ w) :
    w <:+: a ++ x :: b ↔ w <:+: a ∨ w <:+: b := by
  constructor
  · rintro ⟨l, r, h⟩
    rw [List.append_assoc] at h
    rcases List.append_eq_append_iff.mp h with ⟨m, rfl, hm⟩ | ⟨m, rfl, hm⟩
    · rcases List.append_eq_append_iff.mp hm with ⟨k, rfl, hk⟩ | ⟨k, rfl, hk⟩
      · exact Or.inl ⟨l, k, by rw [List.append_assoc]⟩
      · cases k with
        | nil => exact Or.inl ⟨l, [], by simp⟩
        | cons y k =>
          have hy : x = y := (List.cons.inj hk).1
          exact absurd (List.mem_append_right m (hy ▸ List.mem_cons_self)) hx
    · cases m with
      | nil =>
        rw [List.nil_append] at hm
        cases w with
        | nil => exact Or.inl List.nil_infix
        | cons y w =>
          have hy : x = y := (List.cons.inj hm).1
          exact absurd (hy ▸ List.mem_cons_self) hx
      | cons y m =>
        exact Or.inr ⟨m, r, by rw [List.append_assoc]; exact (List.cons.inj hm).2.symm⟩
  · rintro (h | h)
    · exact h.trans (List.prefix_append a _).isInfix
    · exact h.trans ((List.suffix_cons x b).trans (List.suffix_append a _)).isInfix

end Parts

/-! ## The bytes of a text -/

def bytes (s : List Char) : List UInt8 := s.flatMap String.utf8EncodeChar

/-- The number of the bytes. -/
def byteLength (s : List Char) : ℕ := (s.map Char.utf8Size).sum

theorem length_le_byteLength (s : List Char) : s.length ≤ byteLength s := by
  induction s with
  | nil => exact Nat.le_refl 0
  | cons c s ih =>
    have hpos := c.utf8Size_pos
    rw [byteLength, List.map_cons, List.sum_cons, List.length_cons]
    rw [byteLength] at ih
    omega

theorem bytes_append (s t : List Char) : bytes (s ++ t) = bytes s ++ bytes t :=
  List.flatMap_append

/-- The bytes of a character say where the character ends. -/
theorem utf8EncodeChar_append_inj {c d : Char} {x y : List UInt8}
    (h : String.utf8EncodeChar c ++ x = String.utf8EncodeChar d ++ y) : c = d := by
  have hdecode (c : Char) (x : List UInt8) :
      (String.utf8EncodeChar c ++ x).toByteArray.utf8DecodeChar? 0 = some c := by
    rw [List.toByteArray_append]
    exact ByteArray.utf8DecodeChar?_utf8EncodeChar_append
  have hc := hdecode c x
  rw [h, hdecode d y] at hc
  exact (Option.some.inj hc).symm

/-- A text begins with another one exactly if its bytes do. -/
theorem bytes_prefix_iff {s t : List Char} : bytes s <+: bytes t ↔ s <+: t := by
  constructor
  · intro h
    induction s generalizing t with
    | nil => exact List.nil_prefix
    | cons c s ih =>
      obtain ⟨rest, hrest⟩ := h
      rw [bytes, List.flatMap_cons, List.append_assoc] at hrest
      cases t with
      | nil => exact absurd (List.append_eq_nil_iff.mp hrest).1 String.utf8EncodeChar_ne_nil
      | cons d t =>
        rw [bytes, List.flatMap_cons] at hrest
        obtain rfl := utf8EncodeChar_append_inj hrest
        exact List.cons_prefix_cons.mpr ⟨rfl, ih ⟨rest, List.append_cancel_left hrest⟩⟩
  · rintro ⟨rest, rfl⟩
    rw [bytes_append]
    exact List.prefix_append _ _

theorem bytes_injective : Function.Injective bytes := by
  intro s t h
  have hst : s <+: t := bytes_prefix_iff.mp (h ▸ List.prefix_rfl)
  have hts : t <+: s := bytes_prefix_iff.mp (h ▸ List.prefix_rfl)
  exact hst.eq_of_length (Nat.le_antisymm hst.length_le hts.length_le)

/-! ## Hexadecimal digits -/

def upperHex (n : ℕ) : Char := "0123456789ABCDEF".toList.getD n '0'

def hexValue (c : Char) : Option ℕ :=
  if c.isDigit then some (c.toNat - '0'.toNat)
  else if 'a' ≤ c ∧ c ≤ 'f' then some (c.toNat - 'a'.toNat + 10)
  else if 'A' ≤ c ∧ c ≤ 'F' then some (c.toNat - 'A'.toNat + 10)
  else none

theorem upperHex_mem (n : ℕ) : upperHex n ∈ "0123456789ABCDEF".toList := by
  rw [upperHex, List.getD_eq_getElem?_getD]
  cases hn : "0123456789ABCDEF".toList[n]? with
  | none => decide
  | some x => exact List.mem_of_getElem? hn

theorem hexValue_upperHex : ∀ n < 16, hexValue (upperHex n) = some n := by decide

theorem hexValue_digitChar : ∀ n < 16, hexValue (Nat.digitChar n) = some n := by decide

end MkyBoot
