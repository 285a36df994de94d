import Mathlib

/-!
# Runs of a machine

A machine is a function from a state and an input to the next state.  A run feeds
it a list of inputs.  `Along` says that every step of a run meets a condition on
the state before the step and the input of the step.  The rules below carry an
invariant along such a run, turn it into facts about the states reached and the
steps taken, and follow a run in a machine that simulates it.
-/

namespace MkyBoot
namespace Machine

variable {σ ι : Type} (step : σ → ι → σ)

def run (s : σ) (is : List ι) : σ := is.foldl step s

def Along (P : σ → ι → Prop) : σ → List ι → Prop
  | _, [] => True
  | s, i :: is => P s i ∧ Along P (step s i) is

/-- Every state of the run, its ends included. -/
def Throughout (I : σ → Prop) (s : σ) (is : List ι) : Prop :=
  ∀ taken, taken <+: is → I (run step s taken)

theorem run_cons (s : σ) (i : ι) (is : List ι) : run step s (i :: is) = run step (step s i) is :=
  rfl

theorem run_append (s : σ) (is js : List ι) :
    run step s (is ++ js) = run step (run step s is) js := List.foldl_append

theorem along_append {P : σ → ι → Prop} (s : σ) (is js : List ι) :
    Along step P s (is ++ js) ↔ Along step P s is ∧ Along step P (run step s is) js := by
  induction is generalizing s with
  | nil => simp [Along, run]
  | cons i is ih =>
    show P s i ∧ Along step P (step s i) (is ++ js) ↔ _
    rw [ih, run_cons, Along, and_assoc]

theorem along_and {P Q : σ → ι → Prop} {s : σ} {is : List ι} :
    Along step (fun s i => P s i ∧ Q s i) s is ↔ Along step P s is ∧ Along step Q s is := by
  induction is generalizing s with
  | nil => simp [Along]
  | cons i is ih =>
    rw [Along, Along, Along, ih]
    exact and_and_and_comm

/-- A condition on the inputs alone. -/
theorem along_of_forall {P : ι → Prop} (s : σ) {is : List ι} (h : ∀ i ∈ is, P i) :
    Along step (fun _ => P) s is := by
  induction is generalizing s with
  | nil => trivial
  | cons i is ih =>
    exact ⟨h i List.mem_cons_self, ih (step s i) fun j hj => h j (List.mem_cons_of_mem i hj)⟩

/-- A fact that some steps bring about and some inputs end holds after a run exactly if
a step of the run has brought it about and no input has ended it since. -/
theorem run_iff_since {B : σ → Prop} {sets : σ → ι → Prop} {ends : ι → Prop}
    (hstep : ∀ s i, B (step s i) ↔ sets s i ∨ (B s ∧ ¬ ends i)) {s : σ} (h : ¬ B s)
    (is : List ι) : B (run step s is) ↔
      ∃ xs i ys, is = xs ++ i :: ys ∧ sets (run step s xs) i ∧ ∀ j ∈ ys, ¬ ends j := by
  induction is using List.reverseRecOn with
  | nil =>
    refine ⟨fun hB => absurd hB h, ?_⟩
    rintro ⟨xs, i, ys, hsplit, -⟩
    exact absurd hsplit (by simp)
  | append_singleton is k ih =>
    rw [run_append]
    show B (step (run step s is) k) ↔ _
    rw [hstep, ih]
    constructor
    · rintro (hsets | ⟨⟨xs, i, ys, hsplit, hsets, hys⟩, hk⟩)
      · exact ⟨is, k, [], rfl, hsets, fun j hj => absurd hj List.not_mem_nil⟩
      · refine ⟨xs, i, ys ++ [k], by rw [hsplit, List.append_assoc, List.cons_append], hsets, ?_⟩
        intro j hj
        rcases List.mem_append.mp hj with hj | hj
        · exact hys j hj
        · exact List.mem_singleton.mp hj ▸ hk
    · rintro ⟨xs, i, ys, hsplit, hsets, hys⟩
      rcases List.eq_nil_or_concat ys with rfl | ⟨ys', k', rfl⟩
      · obtain ⟨hxs, hk⟩ := List.append_inj' hsplit rfl
        rw [hxs, List.singleton_inj.mp hk]
        exact Or.inl hsets
      · rw [List.concat_eq_append, ← List.cons_append, ← List.append_assoc] at hsplit
        obtain ⟨hinit, hk⟩ := List.append_inj' hsplit rfl
        have hend : ¬ ends k' := hys k' (by simp)
        refine Or.inr ⟨⟨xs, i, ys', hinit, hsets, fun j hj => hys j (by simp [hj])⟩, ?_⟩
        rwa [List.singleton_inj.mp hk]

section Invariant

variable {step} {I : σ → Prop} {P Q : σ → ι → Prop}

/-- An invariant of the steps that meet a condition holds at the end of a run all
of whose steps meet it. -/
theorem inv_run (hstep : ∀ s i, I s → P s i → I (step s i)) {s : σ} {is : List ι} (h : I s)
    (hP : Along step P s is) : I (run step s is) := by
  induction is generalizing s with
  | nil => exact h
  | cons i is ih => exact ih (hstep s i h hP.1) hP.2

theorem throughout_of_along (hstep : ∀ s i, I s → P s i → I (step s i)) {s : σ} {is : List ι}
    (h : I s) (hP : Along step P s is) : Throughout step I s is := by
  rintro taken ⟨rest, rfl⟩
  exact inv_run hstep h ((along_append step s taken rest).mp hP).1

/-- Where the condition of a step is what keeps the invariant, it is that of a run. -/
theorem throughout_iff_along (hstep : ∀ s i, I s → (I (step s i) ↔ P s i)) {s : σ} {is : List ι}
    (h : I s) : Throughout step I s is ↔ Along step P s is := by
  refine ⟨fun hall => ?_, throughout_of_along (fun s i hs hi => (hstep s i hs).mpr hi) h⟩
  induction is generalizing s with
  | nil => trivial
  | cons i is ih =>
    have hnext : I (step s i) := hall [i] (List.prefix_append [i] is)
    refine ⟨(hstep s i h).mp hnext, ih hnext fun taken ht => ?_⟩
    exact hall (i :: taken) (List.cons_prefix_cons.mpr ⟨rfl, ht⟩)

theorem Throughout.mono {J : σ → Prop} (himp : ∀ s, I s → J s) {s : σ} {is : List ι}
    (h : Throughout step I s is) : Throughout step J s is :=
  fun taken ht => himp _ (h taken ht)

/-- What the invariant gives for one step holds of every step of the run. -/
theorem along_of_along (hstep : ∀ s i, I s → P s i → I (step s i))
    (hQ : ∀ s i, I s → P s i → Q s i) {s : σ} {is : List ι} (h : I s)
    (hP : Along step P s is) : Along step Q s is := by
  induction is generalizing s with
  | nil => trivial
  | cons i is ih => exact ⟨hQ s i h hP.1, ih (hstep s i h hP.1) hP.2⟩

/-- A run either meets the condition and keeps the invariant, or breaks the condition
and ends where a break leads. -/
theorem inv_or_broken {J : σ → Prop} (hstep : ∀ s i, I s → P s i → I (step s i))
    (hbreak : ∀ s i, I s → ¬ P s i → J (step s i)) (hbroken : ∀ s i, J s → J (step s i)) {s : σ}
    (is : List ι) (h : I s) :
    (Along step P s is ∧ I (run step s is)) ∨ (¬ Along step P s is ∧ J (run step s is)) := by
  induction is generalizing s with
  | nil => exact Or.inl ⟨trivial, h⟩
  | cons i is ih =>
    by_cases hi : P s i
    · rcases ih (hstep s i h hi) with ⟨hrest, hend⟩ | ⟨hrest, hend⟩
      · exact Or.inl ⟨⟨hi, hrest⟩, hend⟩
      · exact Or.inr ⟨fun hall => hrest hall.2, hend⟩
    · have hend : J (run step (step s i) is) := by
        have hJ := hbreak s i h hi
        exact List.foldlRecOn is step hJ fun s hs i _ => hbroken s i hs
      exact Or.inr ⟨fun hall => hi hall.1, hend⟩

end Invariant

/-! ## Simulation -/

section Simulation

variable {τ κ : Type} {step} {step' : τ → κ → τ} {act : σ → ι → κ} {R : σ → τ → Prop}

variable (step act) in
/-- The inputs a simulating machine takes: one for each step of the run. -/
def trace : σ → List ι → List κ
  | _, [] => []
  | s, i :: is => act s i :: trace (step s i) is

theorem run_trace (hstep : ∀ s t i, R s t → R (step s i) (step' t (act s i))) {s : σ} {t : τ}
    (is : List ι) (h : R s t) : R (run step s is) (run step' t (trace step act s is)) := by
  induction is generalizing s t with
  | nil => exact h
  | cons i is ih => exact ih (hstep s t i h)

end Simulation

instance {P : σ → ι → Prop} [∀ s i, Decidable (P s i)] (s : σ) (is : List ι) :
    Decidable (Along step P s is) :=
  match is with
  | [] => isTrue trivial
  | i :: is =>
    have : Decidable (Along step P (step s i) is) := instDecidableAlong (step s i) is
    inferInstanceAs (Decidable (P s i ∧ Along step P (step s i) is))

end Machine
end MkyBoot
