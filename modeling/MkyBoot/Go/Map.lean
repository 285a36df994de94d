import Mathlib

/-!
# Maps and their inverse indexes

A map of the Go program is an extensional tree map, so two maps with the same
entries are equal.  `Inverse f m idx` says that `idx` is exactly the inverse of the
part `f` of the entries of `m`: it sends a value `j` to the one key whose entry has
`j` there.  The rules below build such an index from a map, keep it while the map
grows and while entries change elsewhere, and show that it is determined by the
map.
-/

namespace MkyBoot
namespace Go

abbrev Map (K V : Type) [Ord K] := Std.ExtTreeMap K V compare

/-- The order in which a loop over a map visits the entries, which the language leaves
open. -/
structure Order (K V : Type) where
  visit : List (K × V) → List (K × V)
  perm : ∀ l, (visit l).Perm l

/-- The order of the keys. -/
def Order.sorted (K V : Type) : Order K V := { visit := id, perm := fun l => List.Perm.refl l }

section Maps

variable {K V : Type} [Ord K] [Std.TransOrd K]

/-- The entries of a map as a loop visits them. -/
def entries (order : Order K V) (m : Map K V) : List (K × V) := order.visit m.toList

/-- The largest value of a measure of the keys, as a loop over the map finds it. -/
def maxKey (order : Order K V) (g : K → ℕ) (m : Map K V) : ℕ :=
  (entries order m).foldl (fun n e => if n < g e.1 then g e.1 else n) 0

/-- What is left of a map after a `delete` was there before. -/
theorem getElem?_erase_of_ne_none {m : Map K V} {k a : K} (h : (m.erase k)[a]? ≠ none) :
    (m.erase k)[a]? = m[a]? := by
  rw [Std.ExtTreeMap.getElem?_erase] at h ⊢
  split
  · rename_i hcmp
    rw [if_pos hcmp] at h
    exact absurd rfl h
  · rfl

variable [Std.LawfulEqOrd K]

theorem mem_entries_iff {order : Order K V} {m : Map K V} {k : K} {v : V} :
    (k, v) ∈ entries order m ↔ m[k]? = some v := by
  rw [entries, (order.perm m.toList).mem_iff, Std.ExtTreeMap.mem_toList_iff_getElem?_eq_some]

theorem getElem?_insert_of_ne (m : Map K V) {k a : K} (h : a ≠ k) (v : V) :
    (m.insert k v)[a]? = m[a]? := by
  rw [Std.ExtTreeMap.getElem?_insert, if_neg]
  intro hcmp
  exact h (Std.LawfulEqCmp.eq_of_compare hcmp).symm

/-- What an entry of a map with one more entry can be. -/
theorem getElem?_insert_eq_some {m : Map K V} {k a : K} {v w : V}
    (h : (m.insert k v)[a]? = some w) : (a = k ∧ w = v) ∨ (a ≠ k ∧ m[a]? = some w) := by
  by_cases ha : a = k
  · subst ha
    rw [Std.ExtTreeMap.getElem?_insert_self] at h
    exact Or.inl ⟨rfl, (Option.some.inj h).symm⟩
  · rw [getElem?_insert_of_ne m ha] at h
    exact Or.inr ⟨ha, h⟩

/-- Writing an entry leaves the map exactly when it was there. -/
theorem insert_eq_self_iff {m : Map K V} {k : K} {v : V} : m.insert k v = m ↔ m[k]? = some v := by
  constructor
  · intro h
    rw [← h, Std.ExtTreeMap.getElem?_insert_self]
  · intro h
    refine Std.ExtTreeMap.ext_getElem? fun a => ?_
    by_cases ha : a = k
    · rw [ha, Std.ExtTreeMap.getElem?_insert_self, h]
    · rw [getElem?_insert_of_ne m ha]

/-- What holds of every entry and of one more holds of every entry of the larger map. -/
theorem forall_insert {P : K → V → Prop} {m : Map K V} {k : K} {v : V}
    (h : ∀ {a : K} {w : V}, m[a]? = some w → P a w) (hv : P k v) {a : K} {w : V}
    (haw : (m.insert k v)[a]? = some w) : P a w := by
  rcases getElem?_insert_eq_some haw with ⟨rfl, rfl⟩ | ⟨-, haw⟩
  · exact hv
  · exact h haw

theorem eq_or_ne_none_of_insert {m : Map K V} {k a : K} {v : V}
    (h : (m.insert k v)[a]? ≠ none) : a = k ∨ m[a]? ≠ none := by
  by_cases ha : a = k
  · exact Or.inl ha
  · rw [getElem?_insert_of_ne m ha] at h
    exact Or.inr h

theorem getElem?_insert_ne_none {m : Map K V} {a : K} (h : m[a]? ≠ none) (k : K) (v : V) :
    (m.insert k v)[a]? ≠ none := by
  by_cases ha : a = k
  · rw [ha, Std.ExtTreeMap.getElem?_insert_self]
    exact Option.some_ne_none v
  · rw [getElem?_insert_of_ne m ha]
    exact h

/-- The rules of `insertIfNew`, which keeps an entry that is there. -/
theorem forall_insertIfNew {P : K → V → Prop} {m : Map K V} {k : K} {v : V}
    (h : ∀ {a : K} {w : V}, m[a]? = some w → P a w) (hv : P k v) {a : K} {w : V}
    (haw : (m.insertIfNew k v)[a]? = some w) : P a w := by
  rw [Std.ExtTreeMap.getElem?_insertIfNew] at haw
  split at haw
  · rename_i hnew
    rw [← Std.LawfulEqCmp.eq_of_compare hnew.1, ← Option.some.inj haw]
    exact hv
  · exact h haw

theorem getElem?_insertIfNew_ne_none {m : Map K V} {a k : K} (h : a = k ∨ m[a]? ≠ none) (v : V) :
    (m.insertIfNew k v)[a]? ≠ none := by
  rw [Std.ExtTreeMap.getElem?_insertIfNew]
  split
  · exact Option.some_ne_none v
  · rename_i hold
    rcases h with rfl | h
    · intro hnone
      refine hold ⟨Std.ReflCmp.compare_self, ?_⟩
      rw [Std.ExtTreeMap.mem_iff_isSome_getElem?, hnone]
      exact Bool.false_ne_true
    · exact h

theorem le_maxKey (order : Order K V) (g : K → ℕ) {m : Map K V} {k : K} {v : V}
    (h : m[k]? = some v) : g k ≤ maxKey order g m := by
  have hloop : ∀ (l : List (K × V)) (n : ℕ),
      n ≤ l.foldl (fun n e => if n < g e.1 then g e.1 else n) n ∧
        ∀ e ∈ l, g e.1 ≤ l.foldl (fun n e => if n < g e.1 then g e.1 else n) n := by
    intro l
    induction l with
    | nil => exact fun n => ⟨Nat.le_refl n, fun e he => absurd he List.not_mem_nil⟩
    | cons e l ih =>
      intro n
      obtain ⟨hle, hall⟩ := ih (if n < g e.1 then g e.1 else n)
      have hboth : n ≤ (if n < g e.1 then g e.1 else n) ∧
          g e.1 ≤ (if n < g e.1 then g e.1 else n) := by
        split <;> omega
      refine ⟨Nat.le_trans hboth.1 hle, ?_⟩
      intro e' he'
      rcases List.mem_cons.mp he' with rfl | he'
      · exact Nat.le_trans hboth.2 hle
      · exact hall e' he'
  exact (hloop (entries order m) 0).2 (k, v) (mem_entries_iff.mpr h)

theorem maxKey_attained (order : Order K V) (g : K → ℕ) (m : Map K V) :
    maxKey order g m = 0 ∨ ∃ k v, m[k]? = some v ∧ maxKey order g m = g k := by
  have hloop : ∀ (l : List (K × V)) (n : ℕ),
      l.foldl (fun n e => if n < g e.1 then g e.1 else n) n = n ∨
        ∃ e ∈ l, l.foldl (fun n e => if n < g e.1 then g e.1 else n) n = g e.1 := by
    intro l
    induction l with
    | nil => exact fun n => Or.inl rfl
    | cons e l ih =>
      intro n
      rcases ih (if n < g e.1 then g e.1 else n) with hend | ⟨e', he', hend⟩
      · rw [List.foldl_cons, hend]
        split
        · exact Or.inr ⟨e, List.mem_cons_self, rfl⟩
        · exact Or.inl rfl
      · exact Or.inr ⟨e', List.mem_cons_of_mem e he', hend⟩
  rcases hloop (entries order m) 0 with h | ⟨⟨k, v⟩, he, h⟩
  · exact Or.inl h
  · exact Or.inr ⟨k, v, mem_entries_iff.mp he, h⟩

/-- An entry that is put into a map last stays. -/
theorem getElem?_foldl_insert {W : Type} (f : V → W) {l : List (K × V)} {k : K} {w : W}
    (h : ∀ v, (k, v) ∈ l → f v = w) (m : Map K W) (hm : (∃ v, (k, v) ∈ l) ∨ m[k]? = some w) :
    (l.foldl (fun x e => x.insert e.1 (f e.2)) m)[k]? = some w := by
  induction l generalizing m with
  | nil =>
    obtain ⟨v, hv⟩ | hm := hm
    · cases hv
    · exact hm
  | cons e l ih =>
    refine ih (fun v hv => h v (List.mem_cons_of_mem e hv)) _ ?_
    by_cases hk : k = e.1
    · refine Or.inr ?_
      rw [hk, Std.ExtTreeMap.getElem?_insert_self, h e.2 (hk ▸ List.mem_cons_self)]
    · obtain ⟨v, hv⟩ | hm := hm
      · rcases List.mem_cons.mp hv with rfl | hv
        · exact absurd rfl hk
        · exact Or.inl ⟨v, hv⟩
      · exact Or.inr (by rw [getElem?_insert_of_ne m hk, hm])

theorem getElem?_foldl_insert_of_notMem {W : Type} (f : V → W) {l : List (K × V)} {k : K}
    (h : ∀ v, (k, v) ∉ l) (m : Map K W) :
    (l.foldl (fun x e => x.insert e.1 (f e.2)) m)[k]? = m[k]? := by
  induction l generalizing m with
  | nil => rfl
  | cons e l ih =>
    have hk : k ≠ e.1 := fun hk => h e.2 (hk ▸ List.mem_cons_self)
    rw [List.foldl_cons, ih fun v hv => h v (List.mem_cons_of_mem e hv), getElem?_insert_of_ne m hk]

/-- A map is made once more from its entries. -/
theorem foldl_insert_entries {W : Type} (order : Order K V) (f : V → W) (m : Map K V) :
    (entries order m).foldl (fun x e => x.insert e.1 (f e.2)) (∅ : Map K W) =
      m.map fun _ v => f v := by
  refine Std.ExtTreeMap.ext_getElem? fun k => ?_
  rw [Std.ExtTreeMap.getElem?_map]
  cases hk : m[k]? with
  | none =>
    rw [getElem?_foldl_insert_of_notMem f, Std.ExtTreeMap.getElem?_empty]
    · rfl
    · intro v hv
      rw [mem_entries_iff.mp hv] at hk
      cases hk
  | some v =>
    refine getElem?_foldl_insert f ?_ ∅ (Or.inl ⟨v, mem_entries_iff.mpr hk⟩)
    intro v' hv'
    rw [mem_entries_iff, hk] at hv'
    rw [Option.some.inj hv']

end Maps

/-! ## Inverse indexes -/

section Loop

variable {J K V : Type} [Ord J] [Std.TransOrd J]

/-- One turn of the loop that indexes a map. -/
def note (f : V → Option J) (idx : Map J K) (k : K) (v : V) : Map J K :=
  match f v with
  | some j => idx.insert j k
  | none => idx

variable [Std.LawfulEqOrd J] (f : V → Option J) (idx : Map J K) (l : List (K × V))

/-- What the loop notes comes from an entry. -/
theorem foldl_note {j : J} {k : K}
    (h : (l.foldl (fun idx e => note f idx e.1 e.2) idx)[j]? = some k) :
    idx[j]? = some k ∨ ∃ v, (k, v) ∈ l ∧ f v = some j := by
  induction l generalizing idx with
  | nil => exact Or.inl h
  | cons e l ih =>
    rw [List.foldl_cons] at h
    rcases ih _ h with hnote | ⟨v, hv, hfv⟩
    · rw [note] at hnote
      split at hnote
      · rename_i i hi
        rcases getElem?_insert_eq_some hnote with ⟨rfl, rfl⟩ | ⟨-, hidx⟩
        · exact Or.inr ⟨e.2, List.mem_cons_self, hi⟩
        · exact Or.inl hidx
      · exact Or.inl hnote
    · exact Or.inr ⟨v, List.mem_cons_of_mem e hv, hfv⟩

theorem note_isSome {j : J} (k : K) (v : V) (h : idx[j]?.isSome = true ∨ f v = some j) :
    (note f idx k v)[j]?.isSome = true := by
  rw [note]
  split
  · rename_i i hi
    by_cases hij : j = i
    · rw [hij, Std.ExtTreeMap.getElem?_insert_self]
      rfl
    · rw [getElem?_insert_of_ne idx hij]
      rcases h with h | h
      · exact h
      · rw [hi] at h
        exact absurd (Option.some.inj h).symm hij
  · rename_i hnone
    rcases h with h | h
    · exact h
    · rw [hnone] at h
      cases h

/-- Every entry is noted. -/
theorem foldl_note_isSome {j : J} (h : idx[j]?.isSome = true ∨ ∃ e ∈ l, f e.2 = some j) :
    (l.foldl (fun idx e => note f idx e.1 e.2) idx)[j]?.isSome = true := by
  induction l generalizing idx with
  | nil =>
    rcases h with h | ⟨e, he, -⟩
    · exact h
    · exact absurd he List.not_mem_nil
  | cons e l ih =>
    rw [List.foldl_cons]
    apply ih
    rcases h with h | ⟨e', he', hfe⟩
    · exact Or.inl (note_isSome f idx e.1 e.2 (Or.inl h))
    · rcases List.mem_cons.mp he' with rfl | he'
      · exact Or.inl (note_isSome f idx _ _ (Or.inr hfe))
      · exact Or.inr ⟨e', he', hfe⟩

end Loop

section Indexes

variable {J K V : Type} [Ord J] [Std.TransOrd J] [Ord K] [Std.TransOrd K]

def Inverse (f : V → Option J) (m : Map K V) (idx : Map J K) : Prop :=
  ∀ j k, idx[j]? = some k ↔ ∃ v, m[k]? = some v ∧ f v = some j

def indexBy (order : Order K V) (f : V → Option J) (m : Map K V) : Map J K :=
  (entries order m).foldl (fun idx e => note f idx e.1 e.2) ∅

variable {f : V → Option J} {m : Map K V} {idx : Map J K}

namespace Inverse

theorem empty (f : V → Option J) : Inverse f (∅ : Map K V) ∅ := by
  intro j k
  constructor
  · intro h
    rw [Std.ExtTreeMap.getElem?_empty] at h
    cases h
  · rintro ⟨v, h, -⟩
    rw [Std.ExtTreeMap.getElem?_empty] at h
    cases h

/-- No two entries of the map share a value. -/
theorem inj (h : Inverse f m idx) {j : J} {k k' : K} {v v' : V} (hk : m[k]? = some v)
    (hk' : m[k']? = some v') (hv : f v = some j) (hv' : f v' = some j) : k = k' := by
  have hidx := (h j k).mpr ⟨v, hk, hv⟩
  rw [(h j k').mpr ⟨v', hk', hv'⟩] at hidx
  exact (Option.some.inj hidx).symm

/-- The map determines the index. -/
theorem unique [Std.LawfulEqOrd J] {idx' : Map J K} (h : Inverse f m idx)
    (h' : Inverse f m idx') : idx = idx' := by
  refine Std.ExtTreeMap.ext_getElem? fun j => Option.ext fun k => ?_
  rw [h j k, h' j k]

/-- An entry with a new key and a new value extends map and index alike. -/
theorem insert_new [Std.LawfulEqOrd J] [Std.LawfulEqOrd K] (h : Inverse f m idx)
    {k : K} {v : V} {j : J} (hk : m[k]? = none)
    (hj : idx[j]? = none) (hv : f v = some j) : Inverse f (m.insert k v) (idx.insert j k) := by
  intro i a
  constructor
  · intro hi
    rcases getElem?_insert_eq_some hi with ⟨rfl, rfl⟩ | ⟨hne, hi⟩
    · exact ⟨v, Std.ExtTreeMap.getElem?_insert_self, hv⟩
    · obtain ⟨w, hw, hfw⟩ := (h i a).mp hi
      have hak : a ≠ k := by
        rintro rfl
        rw [hk] at hw
        cases hw
      exact ⟨w, by rw [getElem?_insert_of_ne m hak, hw], hfw⟩
  · rintro ⟨w, hw, hfw⟩
    rcases getElem?_insert_eq_some hw with ⟨rfl, rfl⟩ | ⟨hne, hw⟩
    · rw [hv] at hfw
      rw [← Option.some.inj hfw, Std.ExtTreeMap.getElem?_insert_self]
    · have hi := (h i a).mpr ⟨w, hw, hfw⟩
      have hij : i ≠ j := by
        rintro rfl
        rw [hj] at hi
        cases hi
      rw [getElem?_insert_of_ne idx hij, hi]

/-- An entry that changes elsewhere leaves the index. -/
theorem insert_same [Std.LawfulEqOrd K] (h : Inverse f m idx) {k : K} {v v' : V}
    (hk : m[k]? = some v)
    (hv : f v' = f v) : Inverse f (m.insert k v') idx := by
  intro j a
  rw [h j a]
  by_cases ha : a = k
  · subst ha
    rw [Std.ExtTreeMap.getElem?_insert_self, hk]
    constructor
    · rintro ⟨w, hw, hfw⟩
      exact ⟨v', rfl, by rw [hv, Option.some.inj hw, hfw]⟩
    · rintro ⟨w, hw, hfw⟩
      exact ⟨v, rfl, by rw [← hv, Option.some.inj hw, hfw]⟩
  · rw [getElem?_insert_of_ne m ha]

end Inverse

variable [Std.LawfulEqOrd J] [Std.LawfulEqOrd K]

/-- What is in the index of a map comes from an entry of the map. -/
theorem indexBy_entry (order : Order K V) {j : J} {k : K} (h : (indexBy order f m)[j]? = some k) :
    ∃ v, m[k]? = some v ∧ f v = some j := by
  rcases foldl_note f ∅ (entries order m) h with h | ⟨v, hv, hfv⟩
  · rw [Std.ExtTreeMap.getElem?_empty] at h
    cases h
  · exact ⟨v, mem_entries_iff.mp hv, hfv⟩

/-- Of a map whose entries do not share values, the loop builds the inverse index. -/
theorem inverse_indexBy (order : Order K V) (hinj : ∀ (k k' : K) v v' j, m[k]? = some v →
    m[k']? = some v' → f v = some j → f v' = some j → k = k') :
    Inverse f m (indexBy order f m) := by
  intro j k
  refine ⟨indexBy_entry order, ?_⟩
  intro h
  obtain ⟨v, hv, hfv⟩ := h
  have hsome : (indexBy order f m)[j]?.isSome = true :=
    foldl_note_isSome f ∅ (entries order m) (Or.inr ⟨(k, v), mem_entries_iff.mpr hv, hfv⟩)
  obtain ⟨k', hk'⟩ := Option.isSome_iff_exists.mp hsome
  obtain ⟨v', hv', hfv'⟩ := indexBy_entry order hk'
  rw [hk', hinj k k' v v' j hv hv' hfv hfv']

end Indexes

end Go
end MkyBoot
