import Mathlib

/-!
# Events in a window of time

Events are recorded one after another on a clock that never goes back, and a counter
keeps the recent ones.  The counter may forget them all once the last one is `span`
old, and a new event is let in while the counter has fewer than `most`, or once the
last one is `span` old.  Then no window of length `span` holds more than `most` events,
wherever it begins and however often the counter has forgotten.
-/

namespace MkyBoot
namespace Window

variable {T : Type} [AddCommGroup T] [LinearOrder T]

/-- The times in the half-open window of length `span` that begins at `a`. -/
def within (span a : T) (times : List T) : List T := times.filter fun x => a ≤ x ∧ x < a + span

def Sparse (most : ℕ) (span : T) (times : List T) : Prop :=
  ∀ a, (within span a times).length ≤ most

/-- What the counter keeps of the events up to `clock`: the recent ones, in their order;
the others are `span` old. -/
structure Counted (most : ℕ) (span clock : T) (past recent : List T) : Prop where
  sparse : Sparse most span past
  split : ∃ old, past = old ++ recent ∧ ∀ x ∈ old, x + span ≤ clock
  ordered : recent.Pairwise (· ≤ ·)
  bounded : ∀ x ∈ recent, x ≤ clock

/-- Every event that the counter keeps is `span` old. -/
def Lapsed (span clock : T) (recent : List T) : Prop := ∀ x ∈ recent, x + span ≤ clock

variable {most : ℕ} {span clock : T} {past recent old : List T}

theorem within_append (a : T) (l m : List T) :
    within span a (l ++ m) = within span a l ++ within span a m := List.filter_append l m

theorem length_within_le (span a : T) (l : List T) : (within span a l).length ≤ l.length :=
  List.length_filter_le _ l

theorem Counted.nil (clock : T) : Counted most span clock [] [] where
  sparse := fun _ => Nat.zero_le most
  split := ⟨[], rfl, fun _ hx => absurd hx List.not_mem_nil⟩
  ordered := List.Pairwise.nil
  bounded := fun _ hx => absurd hx List.not_mem_nil

theorem Counted.tick (h : Counted most span clock past recent) {clock' : T} (hle : clock ≤ clock') :
    Counted most span clock' past recent := by
  obtain ⟨old, hpast, hold⟩ := h.split
  exact ⟨h.sparse, ⟨old, hpast, fun x hx => (hold x hx).trans hle⟩, h.ordered,
    fun x hx => (h.bounded x hx).trans hle⟩

theorem Counted.forget (h : Counted most span clock past recent)
    (hlapsed : Lapsed span clock recent) : Counted most span clock past [] := by
  obtain ⟨old, rfl, hold⟩ := h.split
  refine ⟨h.sparse, ⟨old ++ recent, (List.append_nil _).symm, fun x hx => ?_⟩, List.Pairwise.nil,
    fun x hx => absurd hx List.not_mem_nil⟩
  rcases List.mem_append.mp hx with hx | hx
  · exact hold x hx
  · exact hlapsed x hx

variable [IsOrderedAddMonoid T]

/-- The last event decides whether all have lapsed. -/
theorem Counted.lapsed (h : Counted most span clock past recent) {last : T}
    (hlast : recent.getLast? = some last) (hspan : last + span ≤ clock) :
    Lapsed span clock recent := by
  intro x hx
  obtain ⟨init, rfl⟩ := List.getLast?_eq_some_iff.mp hlast
  have hle : x ≤ last := by
    rcases List.mem_append.mp hx with hx | hx
    · exact (List.pairwise_append.mp h.ordered).2.2 x hx last List.mem_cons_self
    · exact (List.mem_singleton.mp hx).le
  exact (add_le_add_left hle span).trans hspan

/-- A window that reaches `clock` has no event that is `span` old. -/
theorem within_eq_nil {a : T} (hold : ∀ x ∈ old, x + span ≤ clock) (hclock : clock < a + span) :
    within span a old = [] := by
  refine List.filter_eq_nil_iff.mpr fun x hx hmem => ?_
  have hbefore : x < a := lt_of_add_lt_add_right ((hold x hx).trans_lt hclock)
  exact absurd (of_decide_eq_true hmem).1 (not_le.mpr hbefore)

/-- A new event shares its windows with the recent ones only. -/
theorem sparse_concat (hsparse : Sparse most span (old ++ recent))
    (hold : ∀ x ∈ old, x + span ≤ clock) (hroom : recent.length < most) :
    Sparse most span (old ++ recent ++ [clock]) := by
  intro a
  rw [within_append]
  by_cases hin : a ≤ clock ∧ clock < a + span
  · have hrecent := length_within_le span a recent
    have hnew := length_within_le span a [clock]
    rw [within_append, within_eq_nil hold hin.2, List.nil_append, List.length_append]
    rw [List.length_singleton] at hnew
    omega
  · have hnew : within span a [clock] = [] :=
      List.filter_eq_nil_iff.mpr fun x hx hmem =>
        hin (List.mem_singleton.mp hx ▸ of_decide_eq_true hmem)
    rw [hnew, List.append_nil]
    exact hsparse a

/-- An event is let in while there is room, or when the others have lapsed. -/
theorem Counted.add (h : Counted most span clock past recent) (hmost : 0 < most)
    (hfree : recent.length < most ∨ Lapsed span clock recent) :
    Counted most span clock (past ++ [clock]) (recent ++ [clock]) := by
  have hsparse : Sparse most span (past ++ [clock]) := by
    rcases hfree with hroom | hlapsed
    · obtain ⟨old, rfl, hold⟩ := h.split
      exact sparse_concat h.sparse hold hroom
    · obtain ⟨old, rfl, hold⟩ := (h.forget hlapsed).split
      exact sparse_concat h.sparse hold hmost
  obtain ⟨old, rfl, hold⟩ := h.split
  refine ⟨hsparse, ⟨old, List.append_assoc old recent [clock], hold⟩, ?_, fun x hx => ?_⟩
  · refine List.pairwise_append.mpr ⟨h.ordered, List.pairwise_singleton _ _, fun x hx y hy => ?_⟩
    exact List.mem_singleton.mp hy ▸ h.bounded x hx
  · rcases List.mem_append.mp hx with hx | hx
    · exact h.bounded x hx
    · exact (List.mem_singleton.mp hx).le

end Window
end MkyBoot
