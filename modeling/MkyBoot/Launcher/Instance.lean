import MkyBoot.Machine.Run

/-!
# One launcher in a session

`AcquireInstance` opens a mutex of the kernel by a name with the number of the session, and
asks without waiting whether it gets it.  `main` goes on only if it does; it gives the mutex
back when the window is closed, and the kernel takes it back from a process that ends in any
other way.  Names are local to a session.  If the number of the session cannot be found out, the
name has the number 0, which is another mutex.

`instance_unique` says that of the launchers that ask for the same mutex one is running at
most, and that nothing is left behind: a launcher gets the mutex whenever no other one has it.
A process stands here for its thread that called `AcquireInstance`.
-/

namespace MkyBoot
namespace Launcher
namespace Instance

open Machine

/-- A mutex by its session and the number in its name. -/
abbrev Key (σ : Type) := σ × ℕ

structure Mutex (ι : Type) where
  owner : Option ι
  handles : List ι

/-- Where a process is. -/
inductive Pc (σ : Type) where
  | absent
  /-- `CreateMutexW` has returned a handle. -/
  | opened (k : Key σ)
  /-- The launcher runs. -/
  | owning (k : Key σ)
  /-- `ErrAlreadyRunning` -/
  | refused (k : Key σ)
  /-- `ReleaseMutex` has been called. -/
  | leaving (k : Key σ)

structure State (σ ι : Type) where
  mutex : Key σ → Option (Mutex ι)
  proc : ι → Pc σ

inductive Input (ι : Type) where
  /-- A process calls `CreateMutexW`, with the number of its session if it could find it out. -/
  | create (i : ι) (sid : Option ℕ) (ok : Bool)
  /-- `WaitForSingleObject`, which may fail -/
  | wait (i : ι) (ok : Bool)
  /-- A process that was refused closes its handle and ends. -/
  | close (i : ι)
  /-- `ReleaseMutex`, which fails on another thread -/
  | release (i : ι) (ok : Bool)
  /-- A process ends, at its end or at any other moment. -/
  | exit (i : ι)

section

variable {σ ι : Type} [DecidableEq σ] [DecidableEq ι]

def start : State σ ι := ⟨fun _ => none, fun _ => .absent⟩

/-- The mutex that a process has a handle of. -/
def Pc.handle : Pc σ → Option (Key σ)
  | .absent => none
  | .opened k | .owning k | .refused k | .leaving k => some k

/-- The mutex that a process has, or may have still. -/
def Pc.held : Pc σ → Option (Key σ)
  | .owning k | .leaving k => some k
  | .absent | .opened _ | .refused _ => none

/-- The mutex without a process; it is gone with the last handle. -/
def Mutex.without (m : Mutex ι) (i : ι) : Option (Mutex ι) :=
  if m.handles.filter (· ≠ i) = [] then none
  else some ⟨if m.owner = some i then none else m.owner, m.handles.filter (· ≠ i)⟩

def State.set (s : State σ ι) (k : Key σ) (m : Option (Mutex ι)) (i : ι) (pc : Pc σ) : State σ ι :=
  ⟨Function.update s.mutex k m, Function.update s.proc i pc⟩

/-- The kernel closes the handle of a process and takes its mutex back. -/
def State.drop (s : State σ ι) (i : ι) : State σ ι :=
  match (s.proc i).handle with
  | none => s
  | some k => s.set k ((s.mutex k).bind (·.without i)) i .absent

variable (session : ι → σ)

/-- `instanceMutexName`, in the names of the session of a process. -/
def key (i : ι) (sid : Option ℕ) : Key σ := (session i, sid.getD 0)

def step (s : State σ ι) : Input ι → State σ ι
  | .create i sid ok =>
    match s.proc i with
    | .absent =>
      let m := (s.mutex (key session i sid)).getD ⟨none, []⟩
      if ok then
        s.set (key session i sid) (some { m with handles := i :: m.handles }) i
          (.opened (key session i sid))
      else s
    | _ => s
  | .wait i ok =>
    match s.proc i with
    | .opened k =>
      match s.mutex k with
      | some ⟨none, handles⟩ =>
        if ok then s.set k (some ⟨some i, handles⟩) i (.owning k)
        else s.set k (s.mutex k) i (.refused k)
      | _ => s.set k (s.mutex k) i (.refused k)
    | _ => s
  | .close i =>
    match s.proc i with
    | .refused _ => s.drop i
    | _ => s
  | .release i ok =>
    match s.proc i with
    | .owning k =>
      s.set k ((s.mutex k).map fun m => if ok then { m with owner := none } else m) i (.leaving k)
    | _ => s
  | .exit i => s.drop i

/-! ## What the kernel keeps -/

/-- An owner has its mutex or is about to end, a process that runs owns its mutex, and a mutex
is there as long as a process has a handle of it. -/
structure Sound (s : State σ ι) : Prop where
  owner : ∀ k m i, s.mutex k = some m → m.owner = some i → (s.proc i).held = some k
  owning : ∀ i k, s.proc i = .owning k → ∃ m, s.mutex k = some m ∧ m.owner = some i
  handle : ∀ i k, (s.proc i).handle = some k → ∃ m, s.mutex k = some m ∧ i ∈ m.handles

omit [DecidableEq σ] [DecidableEq ι] in
theorem sound_start : Sound (start : State σ ι) where
  owner k m i h := by cases h
  owning i k h := by cases h
  handle i k h := by cases h

variable {s : State σ ι}

theorem set_mutex (s : State σ ι) (k k' : Key σ) (m : Option (Mutex ι)) (i : ι) (pc : Pc σ) :
    (s.set k m i pc).mutex k' = if k' = k then m else s.mutex k' :=
  Function.update_apply s.mutex k m k'

theorem set_proc (s : State σ ι) (k : Key σ) (m : Option (Mutex ι)) (i j : ι) (pc : Pc σ) :
    (s.set k m i pc).proc j = if j = i then pc else s.proc j :=
  Function.update_apply s.proc i pc j

/-- A process changes the one mutex it has a handle of, before or after.  The mutex keeps its
other handles and, unless it had none or this process, its owner. -/
theorem Sound.set (h : Sound s) {k : Key σ} {m : Option (Mutex ι)} {i : ι} {pc : Pc σ}
    (hbefore : ∀ k', (s.proc i).handle = some k' → k' = k)
    (hafter : ∀ k', pc.handle = some k' → k' = k)
    (howner : ∀ x, m = some x → x.owner = some i → pc.held = some k)
    (howning : pc = .owning k → ∃ x, m = some x ∧ x.owner = some i)
    (hhandle : pc.handle = some k → ∃ x, m = some x ∧ i ∈ x.handles)
    (hothers : ∀ j, j ≠ i → ∀ x, m = some x → x.owner = some j →
      ∃ y, s.mutex k = some y ∧ y.owner = some j)
    (hkept : ∀ j, j ≠ i → ∀ y, s.mutex k = some y → j ∈ y.handles →
      ∃ x, m = some x ∧ j ∈ x.handles ∧ (y.owner = some j → x.owner = some j)) :
    Sound (s.set k m i pc) where
  owner k' x j hx hj := by
    rw [set_mutex] at hx
    rw [set_proc]
    by_cases hji : j = i
    · rw [if_pos hji]
      subst hji
      split at hx
      · rename_i hk
        rw [hk]
        exact howner x hx hj
      · rename_i hk
        -- Another mutex that this process owned would be one it had a handle of.
        have hheld := h.owner k' x j hx hj
        have hbefore' : (s.proc j).handle = some k' := by
          cases hp : s.proc j <;> simp_all [Pc.held, Pc.handle]
        exact absurd (hbefore k' hbefore') hk
    · rw [if_neg hji]
      split at hx
      · rename_i hk
        obtain ⟨y, hy, hyj⟩ := hothers j hji x hx hj
        rw [hk]
        exact h.owner k y j hy hyj
      · exact h.owner k' x j hx hj
  owning j k' hj := by
    rw [set_proc] at hj
    rw [set_mutex]
    by_cases hji : j = i
    · rw [if_pos hji] at hj
      have hk : k' = k := hafter k' (by rw [hj]; rfl)
      rw [if_pos hk, hji]
      exact howning (hk ▸ hj)
    · rw [if_neg hji] at hj
      obtain ⟨y, hy, hyj⟩ := h.owning j k' hj
      by_cases hk : k' = k
      · rw [if_pos hk]
        obtain ⟨y', hy', hmem⟩ := h.handle j k' (by rw [hj]; rfl)
        obtain ⟨x, hx, -, hkeep⟩ := hkept j hji y (hk ▸ hy)
          (Option.some.inj (hy'.symm.trans hy) ▸ hmem)
        exact ⟨x, hx, hkeep hyj⟩
      · rw [if_neg hk]
        exact ⟨y, hy, hyj⟩
  handle j k' hj := by
    rw [set_proc] at hj
    rw [set_mutex]
    by_cases hji : j = i
    · rw [if_pos hji] at hj
      have hk : k' = k := hafter k' hj
      rw [if_pos hk, hji]
      exact hhandle (hk ▸ hj)
    · rw [if_neg hji] at hj
      obtain ⟨y, hy, hmem⟩ := h.handle j k' hj
      by_cases hk : k' = k
      · rw [if_pos hk]
        obtain ⟨x, hx, hx', -⟩ := hkept j hji y (hk ▸ hy) hmem
        exact ⟨x, hx, hx'⟩
      · rw [if_neg hk]
        exact ⟨y, hy, hmem⟩

/-- The mutex stays as it is. -/
theorem Sound.goto (h : Sound s) {i : ι} {k : Key σ} (hi : (s.proc i).handle = some k)
    (hfree : (s.proc i).held = none) : Sound (s.set k (s.mutex k) i (.refused k)) := by
  obtain ⟨m, hm, hmem⟩ := h.handle i k hi
  refine h.set (fun k' hk' => Option.some.inj (hk'.symm.trans hi))
    (fun k' hk' => (Option.some.inj hk').symm) ?_ (fun hpc => by cases hpc) (fun _ => ⟨m, hm, hmem⟩)
    (fun j _ x hx hj => ⟨x, hx, hj⟩) fun j _ y hy hj => ⟨y, hy, hj, id⟩
  intro x hx hown
  exact absurd (hfree.symm.trans (h.owner k x i hx hown)) (by simp)

theorem Sound.drop (h : Sound s) (i : ι) : Sound (s.drop i) := by
  rw [State.drop]
  cases hi : (s.proc i).handle with
  | none => exact h
  | some k =>
    obtain ⟨m, hm, hmem⟩ := h.handle i k hi
    have hwithout {x : Mutex ι} (hx : (s.mutex k).bind (·.without i) = some x) :
        x = ⟨if m.owner = some i then none else m.owner, m.handles.filter (· ≠ i)⟩ := by
      rw [hm, Option.bind_some, Mutex.without] at hx
      split at hx
      · cases hx
      · exact (Option.some.inj hx).symm
    refine h.set (fun k' hk' => Option.some.inj (hk'.symm.trans hi)) (fun k' hk' => by cases hk')
      ?_ (fun hpc => by cases hpc) (fun hpc => by cases hpc) ?_ ?_
    · intro x hx hown
      rw [hwithout hx] at hown
      by_cases howner : m.owner = some i <;> simp [howner] at hown
    · intro j hji x hx hj
      rw [hwithout hx] at hj
      refine ⟨m, hm, ?_⟩
      by_cases howner : m.owner = some i
      · simp [howner] at hj
      · simpa [howner] using hj
    · intro j hji y hy hj
      cases hm.symm.trans hy
      have hfilter : j ∈ m.handles.filter (· ≠ i) := List.mem_filter.mpr ⟨hj, by simpa using hji⟩
      refine ⟨⟨if m.owner = some i then none else m.owner, m.handles.filter (· ≠ i)⟩, ?_,
        hfilter, ?_⟩
      · rw [hm, Option.bind_some, Mutex.without, if_neg (List.ne_nil_of_mem hfilter)]
      · intro hown
        have hne : m.owner ≠ some i := fun heq => hji (Option.some.inj (hown.symm.trans heq))
        exact (if_neg hne).trans hown

theorem Sound.create (h : Sound s) {i : ι} (habsent : s.proc i = .absent) (sid : Option ℕ) :
    Sound (s.set (key session i sid)
      (some { (s.mutex (key session i sid)).getD ⟨none, []⟩ with
        handles := i :: ((s.mutex (key session i sid)).getD ⟨none, []⟩).handles })
      i (.opened (key session i sid))) := by
  have hnone : (s.proc i).handle = none := by rw [habsent]; rfl
  refine h.set (fun k' hk' => absurd (hnone.symm.trans hk') (by simp))
    (fun k' hk' => (Option.some.inj hk').symm) ?_ (fun hpc => by cases hpc)
    (fun _ => ⟨_, rfl, List.mem_cons_self⟩) ?_ ?_
  · intro x hx hown
    cases hx
    cases hy : s.mutex (key session i sid) with
    | none => simp [hy] at hown
    | some y =>
      have hheld := h.owner _ y i hy (by simpa [hy] using hown)
      rw [habsent] at hheld
      cases hheld
  · intro j hji x hx hj
    cases hx
    cases hy : s.mutex (key session i sid) with
    | none => simp [hy] at hj
    | some y => exact ⟨y, rfl, by simpa [hy] using hj⟩
  · intro j hji y hy hj
    rw [hy]
    exact ⟨_, rfl, List.mem_cons_of_mem i hj, id⟩

theorem Sound.step (h : Sound s) (x : Input ι) : Sound (step session s x) := by
  cases x with
  | create i sid ok =>
    rw [Instance.step]
    split
    · rename_i habsent
      cases ok with
      | false => exact h
      | true => exact h.create session habsent sid
    · exact h
  | wait i ok =>
    rw [Instance.step]
    split
    · rename_i k hopened
      have hhandle : (s.proc i).handle = some k := by rw [hopened]; rfl
      have hfree : (s.proc i).held = none := by rw [hopened]; rfl
      obtain ⟨m, hm, hmem⟩ := h.handle i k hhandle
      split
      · rename_i handles hmutex
        cases hm.symm.trans hmutex
        split
        · refine h.set (fun k' hk' => Option.some.inj (hk'.symm.trans hhandle))
            (fun k' hk' => (Option.some.inj hk').symm) (fun _ _ _ => rfl)
            (fun _ => ⟨_, rfl, rfl⟩) (fun _ => ⟨_, rfl, hmem⟩) ?_ ?_
          · intro j hji x hx hj
            cases hx
            exact absurd (Option.some.inj hj).symm hji
          · intro j hji y hy hj
            cases hmutex.symm.trans hy
            exact ⟨_, rfl, hj, fun hown => by cases hown⟩
        · exact h.goto hhandle hfree
      · exact h.goto hhandle hfree
    · exact h
  | close i =>
    rw [Instance.step]
    split
    · exact h.drop i
    · exact h
  | release i ok =>
    rw [Instance.step]
    split
    · rename_i k howning
      have hhandle : (s.proc i).handle = some k := by rw [howning]; rfl
      obtain ⟨m, hm, hmem⟩ := h.handle i k hhandle
      refine h.set (fun k' hk' => Option.some.inj (hk'.symm.trans hhandle))
        (fun k' hk' => (Option.some.inj hk').symm) (fun _ _ _ => rfl) (fun hpc => by cases hpc)
        ?_ ?_ ?_
      · intro _
        rw [hm]
        exact ⟨_, rfl, by cases ok <;> exact hmem⟩
      · intro j hji x hx hj
        rw [hm] at hx
        cases hx
        refine ⟨m, hm, ?_⟩
        cases ok with
        | true => cases hj
        | false => exact hj
      · intro j hji y hy hj
        cases hm.symm.trans hy
        obtain ⟨m', hm', hown'⟩ := h.owning i k howning
        cases hm.symm.trans hm'
        refine ⟨_, by rw [hm]; rfl, by cases ok <;> exact hj, fun hown => ?_⟩
        exact absurd (Option.some.inj (hown.symm.trans hown')) hji
    · exact h
  | exit i => exact h.drop i

/-! ## All runs -/

/-- In every run of any number of processes: two launchers that run have different mutexes, so
one runs at most for each session and number, and a process that finds the mutex in the hands of
no other one gets it, however the earlier ones have ended. -/
theorem instance_unique (xs : List (Input ι)) :
    let s := run (step session) (start : State σ ι) xs
    (∀ i j k, s.proc i = .owning k → s.proc j = .owning k → i = j) ∧
      ∀ i sid, s.proc i = .absent → (∀ j, (s.proc j).held ≠ some (key session i sid)) →
        (run (step session) s [.create i sid true, .wait i true]).proc i =
          .owning (key session i sid) := by
  intro s
  have hsound : Sound s :=
    List.foldlRecOn xs (step session) sound_start fun s h x _ => h.step session x
  refine ⟨fun i j k hi hj => ?_, fun i sid habsent hfree => ?_⟩
  · obtain ⟨m, hm, hmi⟩ := hsound.owning i k hi
    obtain ⟨m', hm', hmj⟩ := hsound.owning j k hj
    cases hm.symm.trans hm'
    exact Option.some.inj (hmi.symm.trans hmj)
  · have hnone (m : Mutex ι) (hm : s.mutex (key session i sid) = some m) : m.owner = none := by
      cases hown : m.owner with
      | none => rfl
      | some j => exact absurd (hsound.owner _ m j hm hown) (hfree j)
    have hcreate : ∃ handles, step session s (.create i sid true) =
        s.set (key session i sid) (some ⟨none, handles⟩) i (.opened (key session i sid)) := by
      simp only [Instance.step, habsent, if_true]
      cases hm : s.mutex (key session i sid) with
      | none => exact ⟨[i], rfl⟩
      | some m =>
        refine ⟨i :: m.handles, ?_⟩
        rw [Option.getD_some, hnone m hm]
    obtain ⟨handles, hcreate⟩ := hcreate
    rw [run_cons, hcreate]
    show (step session _ (.wait i true)).proc i = _
    rw [Instance.step, set_proc, if_pos rfl]
    simp only [set_mutex, if_true]
    rw [set_proc, if_pos rfl]

end

end Instance
end Launcher
end MkyBoot
