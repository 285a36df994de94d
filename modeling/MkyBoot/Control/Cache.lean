import MkyBoot.Control.Status
import MkyBoot.Machine.Run

/-!
# The snapshot between the workers

`status.write` fills a temporary file and renames it, and `status.get` decodes the file once
and keeps the snapshot with the time of the file, in whole seconds, until that time is another
one.  Every worker keeps its own.  The calls of the workers interleave, and a rename that fails
removes the file before it is tried again.

A snapshot that is kept is taken for that of any later file with the same time.  `get` may
also ask for the time of one file and read the next, and keep that under the wrong time.
`get_current` says that neither shows as long as no two temporary files are written in the
same second: every call then returns what the file holds at that moment.
-/

namespace MkyBoot
namespace Control
namespace Cache

open Lua Machine Status

/-- A file, with the time it was last written in seconds. -/
structure Stamped where
  stamp : ℕ
  data : Str
  deriving DecidableEq

/-- `status.memo` -/
structure Memo where
  stamp : Option ℕ
  snap : Option Snap

/-- Where a worker is. -/
inductive Pc where
  | idle
  /-- `get` knows the time of the file. -/
  | looked (stamp : Option ℕ)
  /-- `write` has closed its temporary file. -/
  | closed (tmp : Stamped)
  /-- The rename has failed. -/
  | failed (tmp : Stamped)
  /-- The file has been removed, or could not be. -/
  | cleared (tmp : Stamped)

structure Worker where
  memo : Option Memo
  pc : Pc

/-- The seconds in which temporary files were written are kept for the record. -/
structure State (ι : Type) where
  clock : ℕ
  file : Option Stamped
  worker : ι → Worker
  written : List ℕ

inductive Input (ι : Type) where
  /-- The clock is set, forward or back. -/
  | clock (now : ℕ)
  | get (i : ι)
  | read (i : ι)
  /-- A temporary file is written, in full or in part, and closed. -/
  | close (i : ι) (data : Str)
  | rename (i : ι) (ok : Bool)
  | remove (i : ι) (ok : Bool)
  /-- A new process in the place of a worker. -/
  | restart (i : ι)

def Worker.fresh : Worker := ⟨none, .idle⟩

section

variable {ι : Type} [DecidableEq ι]

def start (clock : ℕ) (file : Option Stamped) : State ι :=
  ⟨clock, file, fun _ => .fresh, (file.map Stamped.stamp).toList⟩

def State.put (s : State ι) (i : ι) (w : Worker) : State ι :=
  { s with worker := Function.update s.worker i w }

/-- `status.read` of what the file holds now -/
def State.current (s : State ι) : Option Snap := s.file.bind fun x => decode x.data

/-- The time of the file, where there is LuaFileSystem. -/
def State.stamp (lfs : Bool) (s : State ι) : Option ℕ :=
  if lfs then s.file.map Stamped.stamp else none

/-- The snapshot that `get` returns without reading the file. -/
def State.hit (lfs : Bool) (s : State ι) (i : ι) : Option (Option Snap) :=
  match s.stamp lfs, (s.worker i).memo with
  | some t, some m => if m.stamp = some t then some m.snap else none
  | _, _ => none

def step (lfs : Bool) (s : State ι) : Input ι → State ι
  | .clock now => { s with clock := now }
  | .get i =>
    match (s.worker i).pc with
    | .idle =>
      if (s.hit lfs i).isSome then s else s.put i ⟨(s.worker i).memo, .looked (s.stamp lfs)⟩
    | _ => s
  | .read i =>
    match (s.worker i).pc with
    | .looked stamp => s.put i ⟨some ⟨stamp, s.current⟩, .idle⟩
    | _ => s
  | .close i data =>
    match (s.worker i).pc with
    | .idle =>
      State.put { s with written := s.clock :: s.written } i
        ⟨(s.worker i).memo, .closed ⟨s.clock, data⟩⟩
    | _ => s
  | .rename i ok =>
    match (s.worker i).pc with
    | .closed tmp =>
      if ok then State.put { s with file := some tmp } i .fresh
      else s.put i ⟨(s.worker i).memo, .failed tmp⟩
    -- The temporary file of a second failure is removed; `refresh` forgets its memo either way.
    | .cleared tmp => State.put { s with file := if ok then some tmp else s.file } i .fresh
    | _ => s
  | .remove i ok =>
    match (s.worker i).pc with
    | .failed tmp =>
      State.put { s with file := if ok then none else s.file } i ⟨(s.worker i).memo, .cleared tmp⟩
    | _ => s
  | .restart i => s.put i .fresh

/-- The snapshot that a step returns from `get`, if it is the last one of a call. -/
def returned (lfs : Bool) (s : State ι) : Input ι → Option (Option Snap)
  | .get i =>
    match (s.worker i).pc with
    | .idle => s.hit lfs i
    | _ => none
  | .read i =>
    match (s.worker i).pc with
    | .looked _ => some s.current
    | _ => none
  | _ => none

/-- A temporary file is written in a second of its own. -/
def Fresh (s : State ι) : Input ι → Prop
  | .close _ _ => s.clock ∉ s.written
  | _ => True

instance (s : State ι) : ∀ x, Decidable (Fresh s x)
  | .close _ _ => inferInstanceAs (Decidable (_ ∉ _))
  | .clock _ | .get _ | .read _ | .rename _ _ | .remove _ _ | .restart _ => instDecidableTrue

/-! ## Times -/

/-- The temporary file of a worker that may still replace the file. -/
def Pc.tmp : Pc → Option Stamped
  | .closed tmp | .failed tmp | .cleared tmp => some tmp
  | .idle | .looked _ => none

/-- The time under which a worker keeps a snapshot, or is about to. -/
def Worker.Keeps (w : Worker) (t : ℕ) : Prop :=
  w.pc = .looked (some t) ∨ ∃ snap, w.memo = some ⟨some t, snap⟩

/-- A time that is kept is that of a file that has replaced the one before it.  It is the time
of no temporary file, so if it is the time of the file, the file is still the same. -/
structure Coherent (s : State ι) : Prop where
  file : ∀ x, s.file = some x → x.stamp ∈ s.written
  tmp : ∀ i x, (s.worker i).pc.tmp = some x → x.stamp ∈ s.written
  unpublished : ∀ i x y, (s.worker i).pc.tmp = some x → s.file = some y → x.stamp ≠ y.stamp
  apart : ∀ i j x y, (s.worker i).pc.tmp = some x → (s.worker j).pc.tmp = some y →
    x.stamp = y.stamp → i = j
  kept : ∀ i t, (s.worker i).Keeps t → t ∈ s.written ∧
    ∀ j x, (s.worker j).pc.tmp = some x → x.stamp ≠ t
  memo : ∀ i t snap x, (s.worker i).memo = some ⟨some t, snap⟩ → s.file = some x →
    x.stamp = t → snap = decode x.data

omit [DecidableEq ι] in
theorem coherent_start (clock : ℕ) (file : Option Stamped) :
    Coherent (start clock file : State ι) where
  file x hx := by
    have hx' : file = some x := hx
    subst hx'
    exact List.mem_cons_self
  tmp i x hx := by cases hx
  unpublished i x y hx := by cases hx
  apart i j x y hx := by cases hx
  kept i t ht := by
    rcases ht with ht | ⟨snap, ht⟩ <;> cases ht
  memo i t snap x hm := by cases hm

variable {s : State ι}

theorem put_worker (s : State ι) (i j : ι) (w : Worker) :
    (s.put i w).worker j = if j = i then w else s.worker j := Function.update_apply s.worker i w j

theorem tmp_put {i j : ι} {w : Worker} {x : Stamped}
    (hw : w.pc.tmp = none ∨ w.pc.tmp = (s.worker i).pc.tmp)
    (h : ((s.put i w).worker j).pc.tmp = some x) : (s.worker j).pc.tmp = some x := by
  rw [put_worker] at h
  split at h
  · rename_i hj
    rw [hj]
    rcases hw with hw | hw
    · exact absurd (hw.symm.trans h) (by simp)
    · exact hw.symm.trans h
  · exact h

/-- A worker goes on without the files: it has no other temporary file than before, and keeps
no snapshot under the time of the file but the right one. -/
theorem Coherent.put (h : Coherent s) {i : ι} {w : Worker}
    (hw : w.pc.tmp = none ∨ w.pc.tmp = (s.worker i).pc.tmp)
    (hkeeps : ∀ t, w.Keeps t → (s.worker i).Keeps t ∨ ∃ x, s.file = some x ∧ x.stamp = t)
    (hmemo : ∀ t snap x, w.memo = some ⟨some t, snap⟩ → s.file = some x → x.stamp = t →
      snap = decode x.data) : Coherent (s.put i w) where
  file := h.file
  tmp j x hx := h.tmp j x (tmp_put hw hx)
  unpublished j x y hx := h.unpublished j x y (tmp_put hw hx)
  apart j k x y hx hy := h.apart j k x y (tmp_put hw hx) (tmp_put hw hy)
  kept j t ht := by
    have hold : t ∈ s.written ∧ ∀ k x, (s.worker k).pc.tmp = some x → x.stamp ≠ t := by
      rw [put_worker] at ht
      split at ht
      · rcases hkeeps t ht with hi | ⟨x, hx, rfl⟩
        · exact h.kept i t hi
        · exact ⟨h.file x hx, fun k y hy => h.unpublished k y x hy hx⟩
      · exact h.kept j t ht
    exact ⟨hold.1, fun k x hx => hold.2 k x (tmp_put hw hx)⟩
  memo j t snap x hm := by
    rw [put_worker] at hm
    split at hm
    · exact hmemo t snap x hm
    · exact h.memo j t snap x hm

/-- A worker keeps what it had. -/
theorem Coherent.goto (h : Coherent s) {i : ι} {pc : Pc}
    (hpc : pc.tmp = (s.worker i).pc.tmp)
    (hlooked : ∀ t, pc = .looked (some t) → ∃ x, s.file = some x ∧ x.stamp = t) :
    Coherent (s.put i ⟨(s.worker i).memo, pc⟩) := by
  refine h.put (.inr hpc) (fun t ht => ?_) (h.memo i)
  rcases ht with ht | ht
  · exact .inr (hlooked t ht)
  · exact .inl (.inr ht)

theorem Coherent.fresh (h : Coherent s) (i : ι) : Coherent (s.put i .fresh) := by
  refine h.put (.inl rfl) (fun t ht => ?_) fun t snap x hm => (by cases hm)
  rcases ht with ht | ⟨snap, ht⟩ <;> cases ht

omit [DecidableEq ι] in
theorem Coherent.removed (h : Coherent s) : Coherent { s with file := none } where
  file x hx := by cases hx
  tmp := h.tmp
  unpublished i x y hx hy := by cases hy
  apart := h.apart
  kept := h.kept
  memo i t snap x hm hx := by cases hx

/-- A temporary file replaces the file.  Its time has not been kept so far. -/
theorem Coherent.publish (h : Coherent s) {i : ι} {tmp : Stamped}
    (hi : (s.worker i).pc.tmp = some tmp) :
    Coherent (State.put { s with file := some tmp } i .fresh) := by
  have hothers {j : ι} {x : Stamped}
      (hx : ((State.put { s with file := some tmp } i .fresh).worker j).pc.tmp = some x) :
      j ≠ i ∧ (s.worker j).pc.tmp = some x := by
    rw [put_worker] at hx
    split at hx
    · cases hx
    · exact ⟨‹_›, hx⟩
  have hkept {j : ι} {t : ℕ}
      (ht : ((State.put { s with file := some tmp } i .fresh).worker j).Keeps t) :
      (s.worker j).Keeps t := by
    rw [put_worker] at ht
    split at ht
    · rcases ht with ht | ⟨snap, ht⟩ <;> cases ht
    · exact ht
  refine ⟨?_, ?_, ?_, ?_, ?_, ?_⟩
  · intro x hx
    cases hx
    exact h.tmp i tmp hi
  · intro j x hx
    exact h.tmp j x (hothers hx).2
  · intro j x y hx hy heq
    cases hy
    exact (hothers hx).1 (h.apart j i x tmp (hothers hx).2 hi heq)
  · intro j k x y hx hy
    exact h.apart j k x y (hothers hx).2 (hothers hy).2
  · intro j t ht
    have hold := h.kept j t (hkept ht)
    exact ⟨hold.1, fun k x hx => hold.2 k x (hothers hx).2⟩
  · intro j t snap x hm hx hstamp
    cases hx
    exact absurd hstamp ((h.kept j t (hkept (.inr ⟨snap, hm⟩))).2 i tmp hi)

/-- A temporary file is written in a second of its own. -/
theorem Coherent.close (h : Coherent s) {i : ι} (hidle : (s.worker i).pc = .idle)
    (hfresh : s.clock ∉ s.written) (data : Str) :
    Coherent (State.put { s with written := s.clock :: s.written } i
      ⟨(s.worker i).memo, .closed ⟨s.clock, data⟩⟩) := by
  have htmp {j : ι} {x : Stamped}
      (hx : ((State.put { s with written := s.clock :: s.written } i
        ⟨(s.worker i).memo, .closed ⟨s.clock, data⟩⟩).worker j).pc.tmp = some x) :
      j = i ∧ x = ⟨s.clock, data⟩ ∨ (s.worker j).pc.tmp = some x := by
    rw [put_worker] at hx
    split at hx
    · exact .inl ⟨‹_›, (Option.some.inj hx).symm⟩
    · exact .inr hx
  have hkept {j : ι} {t : ℕ}
      (ht : ((State.put { s with written := s.clock :: s.written } i
        ⟨(s.worker i).memo, .closed ⟨s.clock, data⟩⟩).worker j).Keeps t) :
      (s.worker j).Keeps t := by
    rw [put_worker] at ht
    split at ht
    · rename_i hj
      rcases ht with ht | ht
      · cases ht
      · exact hj ▸ .inr ht
    · exact ht
  have hne {t : ℕ} (ht : t ∈ s.written) : s.clock ≠ t := fun heq => hfresh (heq ▸ ht)
  refine ⟨?_, ?_, ?_, ?_, ?_, ?_⟩
  · exact fun x hx => List.mem_cons_of_mem _ (h.file x hx)
  · intro j x hx
    rcases htmp hx with ⟨-, rfl⟩ | hx
    · exact List.mem_cons_self
    · exact List.mem_cons_of_mem _ (h.tmp j x hx)
  · intro j x y hx hy
    rcases htmp hx with ⟨-, rfl⟩ | hx
    · exact hne (h.file y hy)
    · exact h.unpublished j x y hx hy
  · intro j k x y hx hy heq
    rcases htmp hx with ⟨rfl, rfl⟩ | hx' <;> rcases htmp hy with ⟨rfl, rfl⟩ | hy'
    · rfl
    · exact absurd heq (hne (h.tmp k y hy'))
    · exact absurd heq.symm (hne (h.tmp j x hx'))
    · exact h.apart j k x y hx' hy' heq
  · intro j t ht
    have hold := h.kept j t (hkept ht)
    refine ⟨List.mem_cons_of_mem _ hold.1, fun k x hx => ?_⟩
    rcases htmp hx with ⟨-, rfl⟩ | hx
    · exact hne hold.1
    · exact hold.2 k x hx
  · intro j t snap x hm
    rw [put_worker] at hm
    split at hm
    · exact h.memo i t snap x hm
    · exact h.memo j t snap x hm

omit [DecidableEq ι] in
theorem stamp_eq_some {lfs : Bool} {t : ℕ} (h : s.stamp lfs = some t) :
    ∃ x, s.file = some x ∧ x.stamp = t := by
  unfold State.stamp at h
  split at h
  · exact Option.map_eq_some_iff.mp h
  · cases h

/-! ## All runs -/

theorem Coherent.step (h : Coherent s) {lfs : Bool} {x : Input ι} (hx : Fresh s x) :
    Coherent (step lfs s x) := by
  cases x with
  | clock now => exact ⟨h.file, h.tmp, h.unpublished, h.apart, h.kept, h.memo⟩
  | get i =>
    rw [Cache.step]
    split
    · rename_i hidle
      split
      · exact h
      · exact h.goto (by rw [hidle]; rfl) fun t ht => stamp_eq_some (Pc.looked.inj ht)
    · exact h
  | read i =>
    rw [Cache.step]
    split
    · rename_i stamp hlooked
      refine h.put (.inl rfl) (fun t ht => .inl ?_) fun t snap x hm hfile hstamp => ?_
      · rcases ht with ht | ⟨snap, ht⟩
        · cases ht
        · cases ht
          exact .inl hlooked
      · cases hm
        rw [State.current, hfile]
        rfl
    · exact h
  | close i data =>
    rw [Cache.step]
    split
    · exact h.close ‹_› hx data
    · exact h
  | rename i ok =>
    rw [Cache.step]
    split
    · rename_i tmp hclosed
      split
      · exact h.publish (by rw [hclosed]; rfl)
      · exact h.goto (by rw [hclosed]; rfl) fun t ht => (by cases ht)
    · rename_i tmp hcleared
      cases ok with
      | true => exact h.publish (by rw [hcleared]; rfl)
      | false => exact h.fresh i
    · exact h
  | remove i ok =>
    rw [Cache.step]
    split
    · rename_i tmp hfailed
      cases ok with
      | true => exact h.removed.goto (by rw [hfailed]; rfl) fun t ht => (by cases ht)
      | false => exact h.goto (by rw [hfailed]; rfl) fun t ht => (by cases ht)
    · exact h
  | restart i => exact h.fresh i

omit [DecidableEq ι] in
theorem Coherent.returned (h : Coherent s) {lfs : Bool} {x : Input ι} {snap : Option Snap}
    (hx : returned lfs s x = some snap) : snap = s.current := by
  cases x with
  | get i =>
    simp only [Cache.returned] at hx
    split at hx
    · unfold State.hit at hx
      split at hx
      · rename_i t m hstamp hmemo
        split at hx
        · rename_i ht
          obtain ⟨x, hfile, rfl⟩ := stamp_eq_some hstamp
          have hsnap : m.snap = decode x.data := by
            refine h.memo i x.stamp m.snap x ?_ hfile rfl
            rw [hmemo, ← ht]
          rw [← Option.some.inj hx, hsnap, State.current, hfile]
          rfl
        · cases hx
      · cases hx
    · cases hx
  | read i =>
    simp only [Cache.returned] at hx
    split at hx
    · exact (Option.some.inj hx).symm
    · cases hx
  | clock now | close i data | rename i ok | remove i ok | restart i => cases hx

/-- In every run of any number of workers, in which no two temporary files are written in the
same second, every `get` returns what `read` returns at the moment it returns. -/
theorem get_current (lfs : Bool) (clock : ℕ) (file : Option Stamped) (xs : List (Input ι))
    (hfresh : Along (step lfs) Fresh (start clock file) xs) :
    Along (step lfs) (fun s x => ∀ snap, returned lfs s x = some snap → snap = s.current)
      (start clock file) xs :=
  along_of_along (I := Coherent) (P := Fresh) (fun _ _ h hx => h.step hx)
    (fun _ _ h _ _ hx => h.returned hx) (coherent_start clock file) hfresh

end

/-- Two snapshots, written a second apart. -/
def older : Str := "ts=1\n".toList

def newer : Str := "ts=2\n".toList

/-- One worker writes a snapshot while the other one has asked for the time of the last one. -/
def overtaking : List (Input Bool) :=
  [.get true, .clock 2, .close false newer, .rename false true, .read true, .get true, .read true,
    .get true]

theorem get_overtaking :
    Along (step true) Fresh (start 1 (some ⟨1, older⟩)) overtaking ∧
      Along (step true) (fun s x => ∀ snap, returned true s x = some snap → snap = s.current)
        (start 1 (some ⟨1, older⟩)) overtaking :=
  have hfresh : Along (step true) Fresh (start 1 (some ⟨1, older⟩)) overtaking := by decide
  ⟨hfresh, get_current true 1 (some ⟨1, older⟩) overtaking hfresh⟩

/-- In one second the older snapshot is served for the newer one. -/
example :
    let s := run (step true) (start 1 (some ⟨1, older⟩))
      [.get true, .read true, .close false newer, .rename false true]
    (returned true s (.get true)).map (Option.map Snap.ts) = some (some (some 1)) ∧
      s.current.map Snap.ts = some (some 2) := by decide +kernel

end Cache
end Control
end MkyBoot
