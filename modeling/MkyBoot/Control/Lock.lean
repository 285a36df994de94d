import MkyBoot.Lua.Value
import MkyBoot.Machine.Run

/-!
# The lock of the status refresh

`status.lock` reads a time from a file, and if that is long enough ago truncates the
file and writes the clock to it.  Nothing takes the lock back.  Any number of calls run
at once, and their steps on the file interleave in any way while the clock goes on.
-/

namespace MkyBoot
namespace Control
namespace Lock

open Lua Machine

/-- `status.lock_ttl` -/
def lockTtl : ℕ := 10

/-- `tonumber` of the content, where the file can be read. -/
def timeIn (file : Option Str) : Option ℚ := file.bind fun c => tonumber (.str c)

/-- `held ~= nil and (now - held) < lock_ttl` -/
def held (now : ℕ) (file : Option Str) : Bool :=
  (timeIn file).any fun q => decide ((now : ℚ) - q < lockTtl)

/-- `tostring(now)` -/
def clockText (now : ℕ) : Str := tostring (.num now)

/-- `status.lock`, when nothing else happens.  The file may not be opened for writing, and
what is written may not get there. -/
def lock (now : ℕ) (opens writes : Bool) (file : Option Str) : Bool × Option Str :=
  if held now file then (false, file)
  else if opens then (true, some (if writes then clockText now else []))
  else (false, file)

/-! ## Calls that interleave -/

/-- Where a call is, with the clock it has read. -/
inductive Pc where
  | idle
  | timed (now : ℕ)
  /-- The lock was free. -/
  | taking (now : ℕ)
  | truncated (now : ℕ)
  | returned (ok : Bool) (now : ℕ)
  deriving DecidableEq

/-- The clock of a call between its reading and its writing of the file. -/
def Pc.mid : Pc → Option ℕ
  | .taking now => some now
  | .truncated now => some now
  | _ => none

/-- The clock of a call that has returned true. -/
def Pc.won : Pc → Option ℕ
  | .returned true now => some now
  | _ => none

def Pc.isTruncated : Pc → Bool
  | .truncated _ => true
  | _ => false

structure State (ι : Type) where
  clock : ℕ
  file : Option Str
  pc : ι → Pc

inductive Input (ι : Type) where
  | tick (seconds : ℕ)
  /-- The next step of a call, and whether it succeeds. -/
  | go (i : ι) (ok : Bool)

section

variable {ι : Type} [DecidableEq ι]

def start (clock : ℕ) (file : Option Str) : State ι := ⟨clock, file, fun _ => .idle⟩

def State.goto (s : State ι) (i : ι) (pc : Pc) : State ι :=
  { s with pc := Function.update s.pc i pc }

/-- The next step of a call, by where it is. -/
def advance (s : State ι) (i : ι) (ok : Bool) : Pc → State ι
  | .idle => s.goto i (.timed s.clock)
  | .timed now => s.goto i (if held now s.file then .returned false now else .taking now)
  | .taking now =>
    if ok then State.goto { s with file := some [] } i (.truncated now)
    else s.goto i (.returned false now)
  | .truncated now =>
    State.goto { s with file := some (if ok then clockText now else []) } i (.returned true now)
  | .returned _ _ => s

def step (s : State ι) : Input ι → State ι
  | .tick seconds => { s with clock := s.clock + seconds }
  | .go i ok => advance s i ok (s.pc i)

/-- A call that nothing interrupts does what `lock` does. -/
theorem run_alone {s : State ι} {i : ι} (hidle : s.pc i = .idle) (opens writes : Bool) :
    (run step s [.go i true, .go i true, .go i opens, .go i writes]).pc i =
        .returned (lock s.clock opens writes s.file).1 s.clock ∧
      (run step s [.go i true, .go i true, .go i opens, .go i writes]).file =
        (lock s.clock opens writes s.file).2 := by
  cases hheld : held s.clock s.file <;> cases opens <;>
    simp [run, step, advance, lock, State.goto, hidle, hheld]

/-- The condition on a step of a call, by where the call is. -/
def ExclusiveAt (s : State ι) (i : ι) (ok : Bool) : Pc → Prop
  | .timed _ => ∀ j, j ≠ i → (s.pc j).mid = none
  | .truncated now => ok = true ∧ tonumber (.str (clockText now)) = some (now : ℚ)
  | _ => True

/-- A call reads the file when no other one is between its reading and its writing, and a
call that writes leaves its clock in the file. -/
def Exclusive (s : State ι) : Input ι → Prop
  | .tick _ => True
  | .go i ok => ExclusiveAt s i ok (s.pc i)

instance [Fintype ι] (s : State ι) (i : ι) (ok : Bool) : ∀ pc, Decidable (ExclusiveAt s i ok pc)
  | .timed _ => inferInstanceAs (Decidable (∀ j, j ≠ i → (s.pc j).mid = none))
  | .truncated _ => inferInstanceAs (Decidable (_ ∧ _))
  | .idle => instDecidableTrue
  | .taking _ => instDecidableTrue
  | .returned _ _ => instDecidableTrue

instance [Fintype ι] (s : State ι) : ∀ x, Decidable (Exclusive s x)
  | .tick _ => instDecidableTrue
  | .go i ok => inferInstanceAs (Decidable (ExclusiveAt s i ok (s.pc i)))

/-- Calls that have returned true are `lock_ttl` apart. -/
def Apart (s : State ι) : Prop :=
  ∀ i j m n, i ≠ j → (s.pc i).won = some m → (s.pc j).won = some n →
    m + lockTtl ≤ n ∨ n + lockTtl ≤ m

/-! ## What holds while calls take turns at the file -/

structure Sound (s : State ι) : Prop where
  apart : Apart s
  one : ∀ i j m n, (s.pc i).mid = some m → (s.pc j).mid = some n → i = j
  ahead : ∀ i j m n, (s.pc i).mid = some m → (s.pc j).won = some n → n + lockTtl ≤ m
  kept : (∀ i, (s.pc i).isTruncated = false) → ∀ j n, (s.pc j).won = some n →
    ∃ q, timeIn s.file = some q ∧ (n : ℚ) ≤ q

omit [DecidableEq ι] in
theorem sound_start (clock : ℕ) (file : Option Str) : Sound (start clock file : State ι) where
  apart := fun i j m n _ h => absurd h (by simp [start, Pc.won])
  one := fun i j m n h => absurd h (by simp [start, Pc.mid])
  ahead := fun i j m n h => absurd h (by simp [start, Pc.mid])
  kept := fun _ j n h => absurd h (by simp [start, Pc.won])

variable {s : State ι}

theorem goto_pc (s : State ι) (i j : ι) (pc : Pc) :
    (s.goto i pc).pc j = if j = i then pc else s.pc j := Function.update_apply s.pc i pc j

theorem won_of_goto {i j : ι} {pc : Pc} (hwon : pc.won = none) {n : ℕ}
    (h : ((s.goto i pc).pc j).won = some n) : (s.pc j).won = some n := by
  rw [goto_pc] at h
  split at h
  · exact absurd (hwon.symm.trans h) (by simp)
  · exact h

/-- A call goes on and does not win.  If it is between its steps on the file then, it is
alone there and ahead of the calls that have won; and unless it truncates the file, the
file is the same and was not truncated. -/
theorem Sound.goto (h : Sound s) {i : ι} {pc : Pc} {file : Option Str} (hwon : pc.won = none)
    (hmid : ∀ m, pc.mid = some m → (∀ j n, (s.pc j).mid = some n → j = i) ∧
      ∀ j n, (s.pc j).won = some n → n + lockTtl ≤ m)
    (hfile : pc.isTruncated = true ∨ file = s.file ∧ (s.pc i).isTruncated = false) :
    Sound (State.goto { s with file := file } i pc) where
  apart := fun j k m n hjk hj hk =>
    h.apart j k m n hjk (won_of_goto hwon hj) (won_of_goto hwon hk)
  one := by
    intro j k m n hj hk
    rw [goto_pc] at hj hk
    split at hj
    · next hji =>
      split at hk
      · next hki => rw [hji, hki]
      · rw [hji, (hmid m hj).1 k n hk]
    · split at hk
      · next hki => rw [hki, (hmid n hk).1 j m hj]
      · exact h.one j k m n hj hk
  ahead := by
    intro j k m n hj hk
    have hwas := won_of_goto hwon hk
    rw [goto_pc] at hj
    split at hj
    · exact (hmid m hj).2 k n hwas
    · exact h.ahead j k m n hj hwas
  kept := by
    intro hnone j n hj
    have hown := hnone i
    rw [goto_pc, if_pos rfl] at hown
    obtain ⟨rfl, htrunc⟩ := hfile.resolve_left (by rw [hown]; exact Bool.false_ne_true)
    refine h.kept (fun k => ?_) j n (won_of_goto hwon hj)
    by_cases hk : k = i
    · rw [hk]
      exact htrunc
    · have hother := hnone k
      rw [goto_pc, if_neg hk] at hother
      exact hother

/-- The call that has truncated the file writes its clock. -/
theorem Sound.win (h : Sound s) {i : ι} {now : ℕ} (hpc : s.pc i = .truncated now)
    (htime : tonumber (.str (clockText now)) = some (now : ℚ)) :
    Sound (State.goto { s with file := some (clockText now) } i (.returned true now)) := by
  have hmid : (s.pc i).mid = some now := by
    rw [hpc]
    rfl
  have hothers (j : ι) (n : ℕ) (hj : (s.pc j).won = some n) : n + lockTtl ≤ now :=
    h.ahead i j now n hmid hj
  -- nobody else is between its steps on the file
  have hnobody (j : ι) (m : ℕ) :
      ¬ ((State.goto { s with file := some (clockText now) } i (.returned true now)).pc j).mid =
        some m := by
    intro hj
    rw [goto_pc] at hj
    split at hj
    · exact absurd hj (by simp [Pc.mid])
    · next hji => exact hji (h.one j i m now hj hmid)
  constructor
  · intro j k m n hjk hj hk
    rw [goto_pc] at hj hk
    split at hj
    · next hji =>
      obtain rfl : now = m := Option.some.inj hj
      split at hk
      · next hki => exact absurd (hji.trans hki.symm) hjk
      · exact Or.inr (hothers k n hk)
    · split at hk
      · obtain rfl : now = n := Option.some.inj hk
        exact Or.inl (hothers j m hj)
      · exact h.apart j k m n hjk hj hk
  · exact fun j k m n hj => absurd hj (hnobody j m)
  · exact fun j k m n hj => absurd hj (hnobody j m)
  · intro _ j n hj
    refine ⟨now, htime, ?_⟩
    rw [goto_pc] at hj
    split at hj
    · obtain rfl : now = n := Option.some.inj hj
      exact le_refl _
    · have hle := hothers j n hj
      exact_mod_cast (Nat.le_add_right n lockTtl).trans hle

omit [DecidableEq ι] in
/-- A call that finds the lock free is ahead of those that have won. -/
theorem Sound.ahead_of_free (h : Sound s) (hnone : ∀ i, (s.pc i).isTruncated = false) {now : ℕ}
    (hfree : held now s.file = false) (j : ι) (n : ℕ) (hj : (s.pc j).won = some n) :
    n + lockTtl ≤ now := by
  obtain ⟨q, hq, hnq⟩ := h.kept hnone j n hj
  rw [held, hq, Option.any_some, decide_eq_false_iff_not, not_lt] at hfree
  have hle : ((n + lockTtl : ℕ) : ℚ) ≤ now := by
    rw [Nat.cast_add]
    linarith
  exact_mod_cast hle

omit [DecidableEq ι] in
theorem isTruncated_of_mid {pc : Pc} (h : pc.mid = none) : pc.isTruncated = false := by
  cases pc with
  | truncated now => exact absurd h (by simp [Pc.mid])
  | idle | timed _ | taking _ | returned _ _ => rfl

/-- A call goes on outside its steps on the file. -/
theorem Sound.leave (h : Sound s) {i : ι} {pc : Pc} (hwon : pc.won = none) (hmid : pc.mid = none)
    (htrunc : (s.pc i).isTruncated = false) : Sound (s.goto i pc) :=
  h.goto hwon (fun m hm => absurd (hmid.symm.trans hm) (by simp)) (Or.inr ⟨rfl, htrunc⟩)

theorem Sound.step (h : Sound s) {x : Input ι} (hx : Exclusive s x) : Sound (step s x) := by
  cases x with
  | tick seconds => exact ⟨h.apart, h.one, h.ahead, h.kept⟩
  | go i ok =>
    change ExclusiveAt s i ok (s.pc i) at hx
    show Sound (advance s i ok (s.pc i))
    cases hpc : s.pc i with
    | idle => exact h.leave rfl rfl (by rw [hpc]; rfl)
    | timed now =>
      rw [hpc] at hx
      have hmid (j : ι) : (s.pc j).mid = none := by
        by_cases hj : j = i
        · rw [hj, hpc]
          rfl
        · exact hx j hj
      have htrunc (j : ι) := isTruncated_of_mid (hmid j)
      cases hfree : held now s.file with
      | true =>
        rw [advance, hfree]
        exact h.leave rfl rfl (htrunc i)
      | false =>
        rw [advance, hfree]
        refine h.goto rfl (fun m hm => ⟨fun j n hj => ?_, ?_⟩) (Or.inr ⟨rfl, htrunc i⟩)
        · exact absurd ((hmid j).symm.trans hj) (by simp)
        · obtain rfl : now = m := Option.some.inj hm
          exact h.ahead_of_free htrunc hfree
    | taking now =>
      have hmid : (s.pc i).mid = some now := by
        rw [hpc]
        rfl
      cases ok with
      | true =>
        refine h.goto rfl (fun m hm => ⟨fun j n hj => h.one j i n now hj hmid, ?_⟩) (Or.inl rfl)
        obtain rfl : now = m := Option.some.inj hm
        exact fun j n hj => h.ahead i j now n hmid hj
      | false => exact h.leave rfl rfl (by rw [hpc]; rfl)
    | truncated now =>
      rw [hpc] at hx
      rw [advance, if_pos hx.1]
      exact h.win hpc hx.2
    | returned ok now => exact h

/-- As long as no call reads the file between another one's reading and writing of it, and
what is written can be read back, calls that take the lock are `lock_ttl` apart. -/
theorem locks_apart (clock : ℕ) (file : Option Str) {xs : List (Input ι)}
    (hx : Along step Exclusive (start clock file) xs) :
    Throughout step Apart (start clock file) xs :=
  (throughout_of_along (fun _ _ hs hx => hs.step hx) (sound_start clock file) hx).mono
    fun _ hs => hs.apart

/-- Ten seconds after the first request has taken the lock the second one takes it. -/
theorem locks_in_turn :
    (run step (start 1700000000 none)
        (List.replicate 4 (.go true true) ++ .tick 10 :: List.replicate 4 (.go false true))).pc =
        (fun i : Bool => .returned true (if i then 1700000000 else 1700000010)) ∧
      Throughout step Apart (start 1700000000 none)
        (List.replicate 4 (.go true true) ++ .tick 10 :: List.replicate 4 (.go false true)) :=
  ⟨by decide +kernel, locks_apart 1700000000 none (by decide +kernel)⟩

/-- Two requests read the file before either writes to it, and both take the lock. -/
theorem both_take_the_lock :
    ¬ Throughout step Apart (start 1700000000 none : State Bool)
      [.go true true, .go false true, .go true true, .go false true,
        .go true true, .go false true, .go true true, .go false true] := by
  intro h
  have hwon (i : Bool) : ((run step (start 1700000000 none : State Bool)
      [.go true true, .go false true, .go true true, .go false true,
        .go true true, .go false true, .go true true, .go false true]).pc i).won =
        some 1700000000 := by
    cases i <;> decide +kernel
  have hapart := h _ List.prefix_rfl true false _ _ (by decide) (hwon true) (hwon false)
  exact absurd hapart (by decide)

end

end Lock
end Control
end MkyBoot
