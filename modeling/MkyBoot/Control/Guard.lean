import MkyBoot.Control.Persist

/-!
# The guard of the configuration

`checkconf` is what every caller asks before it touches the configuration.  It looks at
thirty-one fields one after the other and does not stop at a missing section, so the fields
of that section are read from `nil` and the guard itself raises an error.  `guards_iff` says
for which configurations it does its work.
-/

namespace MkyBoot
namespace Lua
namespace Tab

/-- A value whose fields can be read. -/
def indexable : Tab → Bool
  | .table _ _ => true
  | .val (.str _) => true
  | .val _ => false

theorem isSome_index (t : Tab) (k : Str) : (t.index k).isSome = t.indexable := by
  cases t with
  | table items fields => rfl
  | val v => cases v <;> rfl

theorem path_concat (t : Tab) (keys : List Str) (k : Str) :
    t.path (keys ++ [k]) = (t.path keys).bind (·.index k) := by
  rw [path, List.foldlM_append]
  exact Option.bind_congr fun u _ => bind_pure (u.index k)

end Tab
end Lua

namespace Control
namespace Persist

open Lua

/-- The tables whose fields the guard looks at. -/
def sections : List (List Str) :=
  [[], ["server"], ["iscsi"], ["dhcp"], ["dhcp", "config"], ["tftp"]].map (List.map String.toList)

/-- A section or key is there. -/
def Present (cfg : Tab) (keys : List Str) : Prop := ∃ v, cfg.path keys = some v ∧ v.isNil = false

/-- The guard returns, and says whether everything it lists is there. -/
def Guards (cfg : Tab) : Prop :=
  ∃ result, checkconf cfg = .returned result ∧ (result = true ↔ ∀ keys ∈ required, Present cfg keys)

variable {cfg : Tab} {l : List (List Str)} {keys : List Str}

theorem checkFields_raised (hmem : keys ∈ l) (h : cfg.path keys = none) :
    checkFields cfg l = .raised := by
  induction l with
  | nil => cases hmem
  | cons first rest ih =>
    obtain rfl | hrest := List.mem_cons.mp hmem
    · rw [checkFields, h]
    · rw [checkFields, ih hrest]
      cases cfg.path first <;> rfl

theorem checkFields_returned (h : ∀ keys ∈ l, (cfg.path keys).isSome = true) :
    ∃ result, checkFields cfg l = .returned result ∧
      (result = true ↔ ∀ keys ∈ l, Present cfg keys) := by
  induction l with
  | nil => exact ⟨true, rfl, by simp⟩
  | cons first rest ih =>
    obtain ⟨v, hv⟩ := Option.isSome_iff_exists.mp (h first List.mem_cons_self)
    obtain ⟨result, hresult, hall⟩ := ih fun keys hkeys => h keys (List.mem_cons_of_mem _ hkeys)
    refine ⟨!v.isNil && result, by rw [checkFields, hv, hresult], ?_⟩
    have hfirst : Present cfg first ↔ v.isNil = false := by
      rw [Present, hv]
      simp
    rw [Bool.and_eq_true, Bool.not_eq_true', hall, List.forall_mem_cons, hfirst]

/-- A field can be looked at exactly when its section has fields. -/
theorem isSome_path_iff (hne : keys ≠ []) :
    (cfg.path keys).isSome = true ↔ ∃ t, cfg.path keys.dropLast = some t ∧ t.indexable = true := by
  rw [← List.dropLast_append_getLast hne, Tab.path_concat, Option.isSome_bind, List.dropLast_concat]
  simp only [Option.any_eq_true, Tab.isSome_index]

/-- The sections are those of the fields that are looked at. -/
theorem sections_exact : (∀ keys ∈ required, keys ≠ [] ∧ keys.dropLast ∈ sections) ∧
    ∀ sec ∈ sections, ∃ keys ∈ required, keys ≠ [] ∧ keys.dropLast = sec := by
  decide

theorem isSome_required_iff : (∀ keys ∈ required, (cfg.path keys).isSome = true) ↔
    ∀ sec ∈ sections, ∃ t, cfg.path sec = some t ∧ t.indexable = true := by
  constructor
  · intro h sec hsec
    obtain ⟨keys, hkeys, hne, rfl⟩ := sections_exact.2 sec hsec
    exact (isSome_path_iff hne).mp (h keys hkeys)
  · intro h keys hkeys
    obtain ⟨hne, hsec⟩ := sections_exact.1 keys hkeys
    exact (isSome_path_iff hne).mpr (h _ hsec)

theorem not_present_of_isNil (h : cfg.isNil = true) (k : Str) : ¬ Present cfg [k] := by
  cases cfg with
  | table items fields => exact absurd h Bool.false_ne_true
  | val v =>
    cases v with
    | nil => simp [Present, Tab.path, Tab.index]
    | _ => exact absurd h Bool.false_ne_true

theorem guards_of_isNil (h : cfg.isNil = true) : Guards cfg := by
  refine ⟨false, by rw [checkconf, h]; rfl, ?_⟩
  refine iff_of_false Bool.false_ne_true fun hall => ?_
  have hserver : ["server".toList] ∈ required := by decide
  exact not_present_of_isNil h _ (hall _ hserver)

theorem guards_of_isSome (hnil : cfg.isNil = false)
    (h : ∀ keys ∈ required, (cfg.path keys).isSome = true) : Guards cfg := by
  rw [Guards, checkconf, hnil]
  exact checkFields_returned h

theorem checkconf_raised (hnil : cfg.isNil = false)
    (h : ¬ ∀ keys ∈ required, (cfg.path keys).isSome = true) : checkconf cfg = .raised := by
  obtain ⟨keys, hkeys⟩ := not_forall.mp h
  obtain ⟨hmem, hnone⟩ := Classical.not_imp.mp hkeys
  rw [checkconf, hnil]
  exact checkFields_raised hmem (Option.not_isSome_iff_eq_none.mp hnone)

theorem not_guards_of_raised (h : checkconf cfg = .raised) : ¬ Guards cfg := by
  rintro ⟨result, hresult, -⟩
  rw [h] at hresult
  cases hresult

/-- The guard is total and complete exactly when there is no configuration at all, or every
section it looks into is there. -/
theorem guards_iff (cfg : Tab) : Guards cfg ↔ cfg.isNil = true ∨
    ∀ sec ∈ sections, ∃ t, cfg.path sec = some t ∧ t.indexable = true := by
  rw [← isSome_required_iff]
  cases hnil : cfg.isNil with
  | true => exact iff_of_true (guards_of_isNil hnil) (Or.inl rfl)
  | false =>
    rw [or_iff_right Bool.false_ne_true]
    refine ⟨fun hguards => ?_, guards_of_isSome hnil⟩
    by_contra h
    exact not_guards_of_raised (checkconf_raised hnil h) hguards

/-- An empty configuration has no section, and the guard raises an error. -/
theorem guards_empty_fails : checkconf (.table [] []) = .raised ∧ ¬ Guards (.table [] []) :=
  ⟨rfl, not_guards_of_raised rfl⟩

/-- A caller of a guard that raises does not get to its own work. -/
theorem saveToFile_of_not_guards {json : Json} {disk : Disk} {data : Tab} {fpath : Str}
    (h : ¬ Guards cfg) : saveToFile json disk cfg fpath data = (.raised, []) := by
  have hnil : cfg.isNil = false := by
    by_contra hne
    exact h (guards_of_isNil (Bool.eq_true_of_not_eq_false hne))
  rw [saveToFile, checkconf_raised hnil fun hsome => h (guards_of_isSome hnil hsome)]

end Persist
end Control
end MkyBoot
