import MkyBoot.Lua.Value

/-!
# `string.gmatch`

A matcher says what it finds at the beginning of a text and how many characters that
takes.  `gmatch` lists what it finds in a text from left to right, going on after each
match.  The rules below take a text apart where the search passes a part without a
match or finds one.  A matcher that begins with a fixed word finds nothing where the
word does not begin, and the last two lemmas say when it does not: before a character
the word does not have, and before the word itself if it cannot overlap itself.
-/

namespace MkyBoot
namespace Lua

variable {α : Type} {m : Str → Option (α × ℕ)}

/-- The number counts the characters that are still part of the last match. -/
def gmatch (m : Str → Option (α × ℕ)) : ℕ → Str → List α
  | _, [] => []
  | n + 1, _ :: cs => gmatch m n cs
  | 0, c :: cs =>
    match m (c :: cs) with
    | none => gmatch m 0 cs
    | some (a, n) => a :: gmatch m (n - 1) cs

theorem gmatch_drop (n : ℕ) (s : Str) : gmatch m n s = gmatch m 0 (s.drop n) := by
  induction s generalizing n with
  | nil =>
    rw [List.drop_nil]
    cases n <;> rfl
  | cons c cs ih =>
    cases n with
    | zero => rfl
    | succ n => exact ih n

/-- The search finds a match and goes on with what is left after it. -/
theorem gmatch_hit {s rest : Str} {a : α} (hrest : rest <:+ s) (hlt : rest.length < s.length)
    (h : m s = some (a, s.length - rest.length)) : gmatch m 0 s = a :: gmatch m 0 rest := by
  obtain ⟨u, rfl⟩ := hrest
  rw [List.length_append, Nat.add_sub_cancel] at h
  cases u with
  | nil => exact absurd hlt (Nat.lt_irrefl _)
  | cons c u =>
    show (match m (c :: (u ++ rest)) with
      | none => gmatch m 0 (u ++ rest)
      | some (a, n) => a :: gmatch m (n - 1) (u ++ rest)) = _
    rw [show m (c :: (u ++ rest)) = some (a, u.length + 1) from h]
    show a :: gmatch m (u.length + 1 - 1) (u ++ rest) = _
    rw [Nat.add_sub_cancel, gmatch_drop, List.drop_left]

/-- The search passes a part in which no match begins. -/
theorem gmatch_pass {u v : Str} (h : ∀ b, b <:+ u → b ≠ [] → m (b ++ v) = none) :
    gmatch m 0 (u ++ v) = gmatch m 0 v := by
  induction u with
  | nil => rfl
  | cons c u ih =>
    have hc : m (c :: (u ++ v)) = none := h (c :: u) (List.suffix_refl _) (List.cons_ne_nil _ _)
    show (match m (c :: (u ++ v)) with
      | none => gmatch m 0 (u ++ v)
      | some (a, n) => a :: gmatch m (n - 1) (u ++ v)) = _
    rw [hc]
    exact ih fun b hb => h b (hb.trans (List.suffix_cons c u))

/-! ## Where a word begins -/

theorem not_infix_of_suffix {w s t : Str} (hs : s <:+ t) (h : ¬ w <:+: t) : ¬ w <:+: s :=
  fun hw => h (hw.trans hs.isInfix)

/-- A character that is not in a word stops it. -/
theorem prefix_append_cons_iff {w b v : Str} {c : Char} (hc : c ∉ w) :
    w <+: b ++ c :: v ↔ w <+: b := by
  refine ⟨fun h => ?_, fun h => h.trans (List.prefix_append b _)⟩
  obtain hlt | hle := Nat.lt_or_ge b.length w.length
  · have hpre : b ++ [c] <+: w := by
      refine List.prefix_of_prefix_length_le ?_ h ?_
      · exact ⟨v, by rw [List.append_assoc]; rfl⟩
      · rw [List.length_append]
        exact hlt
    exact absurd (hpre.subset (List.mem_append_right b List.mem_cons_self)) hc
  · exact List.prefix_of_prefix_length_le h (List.prefix_append b _) hle

theorem not_prefix_of_stop {w b v : Str} {c : Char} (hc : c ∉ w) (hb : ¬ w <:+: b) :
    ¬ w <+: b ++ c :: v :=
  fun h => hb ((prefix_append_cons_iff hc).mp h).isInfix

/-- No end of the word is also its beginning. -/
def Unbordered (w : Str) : Prop := ∀ k < w.length, 0 < k → ¬ w.drop k <+: w

instance (w : Str) : Decidable (Unbordered w) := inferInstanceAs (Decidable (∀ k < w.length, _))

/-- Such a word does not begin shortly before another place where it does. -/
theorem not_prefix_of_unbordered {w b v : Str} (hw : Unbordered w) (hne : b ≠ [])
    (hb : ¬ w <:+: b) : ¬ w <+: b ++ (w ++ v) := by
  intro h
  obtain hlt | hle := Nat.lt_or_ge b.length w.length
  · have hpre : b <+: w := List.prefix_of_prefix_length_le (List.prefix_append b _) h hlt.le
    obtain ⟨c, rfl⟩ := hpre
    have hc : c <+: (b ++ c) ++ v := (List.prefix_append_right_inj b).mp h
    have hdrop : (b ++ c).drop b.length = c := List.drop_left
    refine hw b.length hlt (List.length_pos_iff.mpr hne) ?_
    rw [hdrop]
    refine List.prefix_of_prefix_length_le hc (List.prefix_append _ _) ?_
    rw [List.length_append]
    exact Nat.le_add_left _ _
  · exact hb (List.prefix_of_prefix_length_le h (List.prefix_append b _) hle).isInfix

end Lua
end MkyBoot
