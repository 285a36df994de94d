import MkyBoot.Text

/-!
# Percent escapes in a path

`escape` writes the bytes of every character that it does not keep as a percent sign and two
digits, and `unescape` reads the bytes back.  What may be kept differs from one encoder to
the other; `unescape_escape` holds for all that escape the percent sign.
-/

namespace MkyBoot
namespace Go
namespace Escape

def escapeByte (b : UInt8) : List Char := ['%', upperHex (b.toNat / 16), upperHex (b.toNat % 16)]

def escapeChar (keep : Char → Bool) (c : Char) : List Char :=
  if keep c then [c] else (String.utf8EncodeChar c).flatMap escapeByte

def escape (keep : Char → Bool) (s : List Char) : List Char := s.flatMap (escapeChar keep)

/-- The bytes a text stands for, `none` if an escape is malformed. -/
def unescape : List Char → Option (List UInt8)
  | [] => some []
  | c :: s =>
    if c = '%' then
      match s with
      | a :: b :: rest =>
        (hexValue a).bind fun x => (hexValue b).bind fun y =>
          (unescape rest).map (UInt8.ofNat (x * 16 + y) :: ·)
      | _ => none
    else (unescape s).map (String.utf8EncodeChar c ++ ·)

theorem unescape_plain {c : Char} (hc : c ≠ '%') (s : List Char) :
    unescape (c :: s) = (unescape s).map (String.utf8EncodeChar c ++ ·) := by
  rw [unescape.eq_def]
  exact if_neg hc

theorem unescape_append {s : List Char} (hs : '%' ∉ s) (t : List Char) :
    unescape (s ++ t) = (unescape t).map (bytes s ++ ·) := by
  induction s with
  | nil => exact Option.map_id'.symm
  | cons c s ih =>
    rw [List.mem_cons, not_or] at hs
    rw [List.cons_append, unescape_plain (Ne.symm hs.1), ih hs.2, Option.map_map]
    refine congrArg (fun f => Option.map f (unescape t)) (funext fun r => ?_)
    show _ ++ (bytes s ++ r) = bytes (c :: s) ++ r
    rw [bytes, bytes, List.flatMap_cons, List.append_assoc]

theorem unescape_escapeByte (b : UInt8) (t : List Char) :
    unescape (escapeByte b ++ t) = (unescape t).map (b :: ·) := by
  have hlt := b.toNat_lt
  have hvalue : b.toNat / 16 * 16 + b.toNat % 16 = b.toNat := by omega
  show unescape ('%' :: upperHex (b.toNat / 16) :: upperHex (b.toNat % 16) :: t) = _
  rw [unescape.eq_def]
  simp only [if_true, hexValue_upperHex _ (show b.toNat / 16 < 16 by omega),
    hexValue_upperHex _ (show b.toNat % 16 < 16 by omega), Option.bind_some, hvalue,
    UInt8.ofNat_toNat]

theorem unescape_escapeBytes (bs : List UInt8) (t : List Char) :
    unescape (bs.flatMap escapeByte ++ t) = (unescape t).map (bs ++ ·) := by
  induction bs with
  | nil => exact Option.map_id'.symm
  | cons b bs ih =>
    rw [List.flatMap_cons, List.append_assoc, unescape_escapeByte, ih, Option.map_map]
    rfl

/-- Reading undoes writing. -/
theorem unescape_escape {keep : Char → Bool} (h : keep '%' = false) (s : List Char) :
    unescape (escape keep s) = some (bytes s) := by
  induction s with
  | nil => rfl
  | cons c s ih =>
    rw [escape, List.flatMap_cons, escapeChar, bytes, List.flatMap_cons]
    by_cases hc : keep c = true
    · have hne : c ≠ '%' := by
        rintro rfl
        rw [h] at hc
        cases hc
      rw [if_pos hc, List.singleton_append, unescape_plain hne]
      exact congrArg (Option.map _) ih
    · rw [if_neg hc, unescape_escapeBytes]
      exact congrArg (Option.map _) ih

/-! ## What an escaped text looks like -/

theorem mem_escape {keep : Char → Bool} {s : List Char} {d : Char} (h : d ∈ escape keep s) :
    keep d = true ∧ d ∈ s ∨ d = '%' ∨ d ∈ "0123456789ABCDEF".toList := by
  obtain ⟨c, hc, hd⟩ := List.mem_flatMap.mp h
  rw [escapeChar] at hd
  split at hd
  · rename_i hkeep
    rw [List.mem_singleton] at hd
    exact Or.inl (hd ▸ ⟨hkeep, hc⟩)
  · obtain ⟨b, -, hb⟩ := List.mem_flatMap.mp hd
    simp only [escapeByte, List.mem_cons, List.not_mem_nil, or_false] at hb
    rcases hb with rfl | rfl | rfl
    · exact Or.inr (Or.inl rfl)
    · exact Or.inr (Or.inr (upperHex_mem _))
    · exact Or.inr (Or.inr (upperHex_mem _))

theorem escape_eq_self {keep : Char → Bool} {s : List Char} (h : ∀ c ∈ s, keep c = true) :
    escape keep s = s := by
  have hkept : ∀ c ∈ s, escapeChar keep c = [c] := fun c hc => if_pos (h c hc)
  rw [escape, List.flatMap_congr hkept]
  exact List.flatMap_singleton' s

theorem keep_of_not_mem {keep : Char → Bool} {s : List Char} (h : '%' ∉ escape keep s) :
    ∀ c ∈ s, keep c = true := by
  intro c hc
  by_contra hkeep
  obtain ⟨b, hb⟩ := List.exists_mem_of_ne_nil _ (String.utf8EncodeChar_ne_nil (c := c))
  refine h (List.mem_flatMap.mpr ⟨c, hc, ?_⟩)
  rw [escapeChar, if_neg hkeep]
  exact List.mem_flatMap.mpr ⟨b, hb, List.mem_cons_self⟩

/-- A text without a percent sign is that of the same characters, all of them kept. -/
theorem escape_eq_iff {keep : Char → Bool} {s t : List Char} (ht : '%' ∉ t) :
    escape keep s = t ↔ s = t ∧ ∀ c ∈ t, keep c = true := by
  constructor
  · rintro rfl
    have hkeep := keep_of_not_mem ht
    rw [escape_eq_self hkeep]
    exact ⟨rfl, hkeep⟩
  · rintro ⟨rfl, hkeep⟩
    exact escape_eq_self hkeep

end Escape
end Go
end MkyBoot
