import MkyBoot.Control.RateLimit
import MkyBoot.Machine.Run
import MkyBoot.Lua.Json

/-!
# Failed logins counted by several workers

`record_failure`, `is_locked` and `clear` load the attempts of all addresses, edit the
entry of one and save the attempts of all.  Any number of calls run at once, each in
its own worker, and the loads and saves of all of them interleave in any way.
-/

namespace MkyBoot
namespace Control
namespace Tally

open Lua Posix Machine RateLimit

/-! ## One call -/

inductive Op where
  | recordFailure
  | isLocked
  | clear

structure Request where
  op : Op
  ip : Str

/-- What a call does with the attempts it has loaded. -/
inductive Edit where
  | raises
  | leaves
  | saves (data : Attempts)

def recordEdit (host : Host) (ip : Str) (data : Attempts) : Edit :=
  let entry := (Doc.table data).get ip
  let entry := if isFalse entry then
      .table [("count".toList, .leaf (.num 0)), ("first_at".toList, .leaf (.num host.now))]
    else entry
  match entry with
  | .leaf _ => .raises
  | .table fields =>
    match tonumber ((Doc.table fields).get "count".toList).val with
    | none => .raises
    | some count => .saves (set data ip (.table (bump host fields count)))

def lockEdit (host : Host) (ip : Str) (data : Attempts) : Edit :=
  let entry := (Doc.table data).get ip
  if isFalse entry then .leaves
  else match index entry "locked_until".toList with
    | none => .raises
    | some deadline =>
      if isFalse deadline then .leaves
      else match deadline.val with
        | .num q => if host.now < q then .leaves else .saves (unset data ip)
        | _ => .raises

def edit (host : Host) (r : Request) (data : Attempts) : Edit :=
  if r.ip = [] then .leaves
  else match r.op with
    | .recordFailure => recordEdit host r.ip data
    | .isLocked => lockEdit host r.ip data
    | .clear => .saves (unset data r.ip)

def Edit.saved : Edit → Option Attempts
  | .saves data => some data
  | _ => none

/-- The tree after a call that nothing interrupts. -/
def Edit.commit (host : Host) (t : FileTree Str) (e : Edit) : FileTree Str :=
  e.saved.elim t (save host t)

theorem recordFailure_eq (host : Host) (t : FileTree Str) (ip : Str) :
    (recordFailure host t ip).2 = (edit host ⟨.recordFailure, ip⟩ (load host t)).commit host t := by
  unfold recordFailure edit
  dsimp only
  by_cases hip : ip = []
  · rw [if_pos hip, if_pos hip]
    rfl
  · rw [if_neg hip, if_neg hip]
    unfold recordEdit
    dsimp only
    generalize (if isFalse ((Doc.table (load host t)).get ip) then _ else _ : Doc) = entry
    cases entry with
    | leaf v => rfl
    | table fields =>
      dsimp only
      cases tonumber ((Doc.table fields).get "count".toList).val with
      | none => rfl
      | some count => rfl

theorem isLocked_eq (host : Host) (t : FileTree Str) (ip : Str) :
    (isLocked host t ip).2 = (edit host ⟨.isLocked, ip⟩ (load host t)).commit host t := by
  unfold isLocked edit
  dsimp only
  by_cases hip : ip = []
  · rw [if_pos hip, if_pos hip]
    rfl
  · rw [if_neg hip, if_neg hip]
    unfold lockEdit
    dsimp only
    by_cases hentry : isFalse ((Doc.table (load host t)).get ip) = true
    · rw [if_pos hentry, if_pos hentry]
      rfl
    · rw [if_neg hentry, if_neg hentry]
      cases index ((Doc.table (load host t)).get ip) "locked_until".toList with
      | none => rfl
      | some deadline =>
        dsimp only
        by_cases hdeadline : isFalse deadline = true
        · rw [if_pos hdeadline, if_pos hdeadline]
          rfl
        · rw [if_neg hdeadline, if_neg hdeadline, checkDeadline]
          cases deadline.val with
          | num q =>
            dsimp only
            by_cases hnow : host.now < q
            · rw [if_pos hnow, if_pos hnow]
              rfl
            · rw [if_neg hnow, if_neg hnow]
              rfl
          | nil | bool _ | str _ | other => rfl

theorem clear_eq (host : Host) (t : FileTree Str) (ip : Str) :
    clear host t ip = (edit host ⟨.clear, ip⟩ (load host t)).commit host t := by
  unfold clear edit
  dsimp only
  by_cases hip : ip = []
  · rw [if_pos hip, if_pos hip]
    rfl
  · rw [if_neg hip, if_neg hip]
    rfl

/-! ## Several calls -/

/-- A failure that a call has saved, or the end of an entry: cleared, or expired. -/
inductive Event where
  | failed (ip : Str) (time : ℚ)
  | ended (ip : Str)

def event (host : Host) (r : Request) : Event :=
  match r.op with
  | .recordFailure => .failed r.ip host.now
  | .isLocked => .ended r.ip
  | .clear => .ended r.ip

def next (ip : Str) (times : List ℚ) : Event → List ℚ
  | .failed ip' t => if ip' = ip then times ++ [t] else times
  | .ended ip' => if ip' = ip then [] else times

/-- The times of the failures of an address since its entry ended last. -/
def recent (ip : Str) (log : List Event) : List ℚ := log.foldl (next ip) []

inductive Pc where
  | start
  | loaded (data : Attempts)
  | finished

/-- The tree, where every call is, and what the calls have saved one after the other. -/
structure State (ι : Type) where
  tree : FileTree Str
  pc : ι → Pc
  log : List Event

section

variable {ι : Type} [DecidableEq ι] (host : ι → Host) (req : ι → Request)

def start (t : FileTree Str) (past : List Event) : State ι := ⟨t, fun _ => .start, past⟩

def State.goto (s : State ι) (i : ι) (pc : Pc) : State ι :=
  { s with pc := Function.update s.pc i pc }

/-- The first step of a call is `_load`, the second one `_save`, if the call saves. -/
def step (s : State ι) (i : ι) : State ι :=
  match s.pc i with
  | .start => s.goto i (.loaded (load (host i) s.tree))
  | .loaded data =>
    match (edit (host i) (req i) data).saved with
    | none => s.goto i .finished
    | some new =>
      State.goto { s with
        tree := save (host i) s.tree new
        log := s.log ++ [event (host i) (req i)] } i .finished
  | .finished => s

/-- What the next step of a call saves, and what it has loaded before. -/
def saving (s : State ι) (i : ι) : Option (Attempts × Attempts) :=
  match s.pc i with
  | .loaded data => (edit (host i) (req i) data).saved.map (data, ·)
  | _ => none

/-- A step that saves finds in the file what its call has loaded, and can write. -/
def Fresh (s : State ι) (i : ι) : Prop :=
  ∀ data new, saving host req s i = some (data, new) → data = load (host i) s.tree ∧
    (host i).saves = true ∧ (s.tree.write FILE ((host i).encode (.table new))).isSome = true

/-- The json module of every worker reads what a step saves. -/
def Reads (s : State ι) (i : ι) : Prop :=
  ∀ data new, saving host req s i = some (data, new) →
    ∀ j, (host j).decode ((host i).encode (.table new)) = some (.table new)

/-- `count` of an address, which is zero without an entry -/
def count (host : Host) (t : FileTree Str) (ip : Str) : Option ℚ :=
  match (Doc.table (load host t)).get ip with
  | .leaf .nil => some 0
  | entry => (index entry "count".toList).bind fun c => tonumber c.val

/-- Every count is the number of failures, and an address with enough of them is locked
until the lockout after the last one has passed. -/
structure Kept (s : State ι) : Prop where
  count : ∀ ip, ip ≠ [] → ∀ i, count (host i) s.tree ip = some (recent ip s.log).length
  locked : ∀ ip, ip ≠ [] → ∀ last, (recent ip s.log).getLast? = some last →
    MAX_ATTEMPTS ≤ (recent ip s.log).length → ∀ i now, now < last + LOCKOUT_SECONDS →
      (isLocked { host i with now := now } s.tree ip).1 = .returned true

end

/-! ## Entries that agree with the log -/

/-- The entry of an address with failures at these times. -/
def Entry (times : List ℚ) (entry : Doc) : Prop :=
  match times.getLast? with
  | none => entry = .leaf .nil
  | some last => ∃ fields, entry = .table fields ∧
      (Doc.table fields).get "count".toList = .leaf (.num times.length) ∧
      (Doc.table fields).get "locked_until".toList =
        if MAX_ATTEMPTS ≤ times.length then .leaf (.num (last + LOCKOUT_SECONDS)) else .leaf .nil

def Tallied (data : Attempts) (log : List Event) : Prop :=
  ∀ ip, ip ≠ [] → Entry (recent ip log) ((Doc.table data).get ip)

theorem recent_append (ip : Str) (log : List Event) (e : Event) :
    recent ip (log ++ [e]) = next ip (recent ip log) e := by
  rw [recent, recent, List.foldl_append]
  rfl

theorem tallied_unset {data : Attempts} {log : List Event} (h : Tallied data log) (ip : Str) :
    Tallied (unset data ip) (log ++ [.ended ip]) := by
  intro ip' hip'
  rw [recent_append, next]
  by_cases heq : ip = ip'
  · subst heq
    rw [if_pos rfl, get_unset_self]
    rfl
  · rw [if_neg heq, get_unset_of_ne data (Ne.symm heq)]
    exact h ip' hip'

theorem tallied_set {data : Attempts} {log : List Event} (h : Tallied data log) {ip : Str} {now : ℚ}
    {entry : Doc} (hentry : Entry (recent ip log ++ [now]) entry) :
    Tallied (set data ip entry) (log ++ [.failed ip now]) := by
  intro ip' hip'
  rw [recent_append, next]
  by_cases heq : ip = ip'
  · subst heq
    rw [if_pos rfl, get_set_self]
    exact hentry
  · rw [if_neg heq, get_set_of_ne data (Ne.symm heq)]
    exact h ip' hip'

theorem entry_bump (host : Host) (times : List ℚ) (fields : Attempts)
    (hlocked : ¬ MAX_ATTEMPTS ≤ times.length →
      (Doc.table fields).get "locked_until".toList = .leaf .nil) :
    Entry (times ++ [host.now]) (.table (bump host fields times.length)) := by
  have hcast : ((MAX_ATTEMPTS : ℕ) : ℚ) ≤ (times.length : ℚ) + 1 ↔
      MAX_ATTEMPTS ≤ times.length + 1 := by
    rw [← Nat.cast_succ, Nat.cast_le]
  rw [Entry, List.getLast?_concat]
  refine ⟨_, rfl, ?_, ?_⟩
  · rw [get_count_bump, List.length_append]
    push_cast
    rfl
  · rw [get_locked_bump, List.length_append]
    by_cases hmax : MAX_ATTEMPTS ≤ times.length + 1
    · rw [if_pos (hcast.mpr hmax), List.length_singleton, if_pos hmax]
    · rw [if_neg (fun h => hmax (hcast.mp h)), List.length_singleton, if_neg hmax]
      exact hlocked fun h => hmax (by omega)

/-- Another failure is saved with its entry. -/
theorem recordEdit_saves (host : Host) {ip : Str} {data : Attempts} {times : List ℚ}
    (h : Entry times ((Doc.table data).get ip)) :
    ∃ entry, recordEdit host ip data = .saves (set data ip entry) ∧
      Entry (times ++ [host.now]) entry := by
  rw [Entry] at h
  cases hlast : times.getLast? with
  | none =>
    rw [hlast] at h
    rw [List.getLast?_eq_none_iff.mp hlast]
    refine ⟨_, ?_, entry_bump host [] [("count".toList, .leaf (.num 0)),
      ("first_at".toList, .leaf (.num host.now))] fun _ => rfl⟩
    rw [recordEdit, h]
    rfl
  | some last =>
    rw [hlast] at h
    obtain ⟨fields, hentry, hcount, hlocked⟩ := h
    refine ⟨_, ?_, entry_bump host times fields fun hmax => ?_⟩
    · rw [recordEdit, hentry]
      show (match tonumber ((Doc.table fields).get "count".toList).val with
        | none => Edit.raises
        | some count => .saves (set data ip (.table (bump host fields count)))) = _
      rw [hcount]
      rfl
    · rw [hlocked, if_neg hmax]

theorem lockEdit_saved {host : Host} {ip : Str} {data new : Attempts}
    (h : (lockEdit host ip data).saved = some new) : new = unset data ip := by
  unfold lockEdit at h
  dsimp only at h
  split at h
  · exact absurd h (by simp [Edit.saved])
  · split at h
    · exact absurd h (by simp [Edit.saved])
    · split at h
      · exact absurd h (by simp [Edit.saved])
      · split at h
        · split at h
          · exact absurd h (by simp [Edit.saved])
          · exact (Option.some.inj h).symm
        · exact absurd h (by simp [Edit.saved])

/-- Whatever a call saves agrees with the log that has the call at its end. -/
theorem tallied_edit {host : Host} {r : Request} {data new : Attempts} {log : List Event}
    (h : Tallied data log) (hsaved : (edit host r data).saved = some new) :
    Tallied new (log ++ [event host r]) := by
  obtain ⟨op, ip⟩ := r
  by_cases hip : ip = []
  · rw [edit, if_pos hip] at hsaved
    exact absurd hsaved (by simp [Edit.saved])
  · rw [edit, if_neg hip] at hsaved
    cases op with
    | recordFailure =>
      obtain ⟨entry, hedit, hentry⟩ := recordEdit_saves host (h ip hip)
      dsimp only at hsaved
      rw [hedit] at hsaved
      rw [← Option.some.inj hsaved]
      exact tallied_set h hentry
    | isLocked =>
      rw [lockEdit_saved hsaved]
      exact tallied_unset h ip
    | clear =>
      rw [← Option.some.inj hsaved]
      exact tallied_unset h ip

/-! ## Runs -/

section

variable {ι : Type} {host : ι → Host} {req : ι → Request} {s : State ι}

variable (host) in
/-- All workers load the same attempts, and these agree with the log. -/
def Sound (s : State ι) : Prop := ∃ data, (∀ i, load (host i) s.tree = data) ∧ Tallied data s.log

theorem Sound.count_eq (h : Sound host s) {ip : Str} (hip : ip ≠ []) (i : ι) :
    count (host i) s.tree ip = some ((recent ip s.log).length : ℚ) := by
  obtain ⟨data, hload, htallied⟩ := h
  have hentry := htallied ip hip
  rw [Entry] at hentry
  rw [count, hload i]
  cases hlast : (recent ip s.log).getLast? with
  | none =>
    rw [hlast] at hentry
    rw [List.getLast?_eq_none_iff.mp hlast, hentry]
    rfl
  | some last =>
    rw [hlast] at hentry
    obtain ⟨fields, hentry, hcount, -⟩ := hentry
    rw [hentry]
    show tonumber ((Doc.table fields).get "count".toList).val = _
    rw [hcount]
    rfl

theorem Sound.isLocked_eq (h : Sound host s) {ip : Str} (hip : ip ≠ []) {last : ℚ}
    (hlast : (recent ip s.log).getLast? = some last)
    (hmax : MAX_ATTEMPTS ≤ (recent ip s.log).length)
    (i : ι) {now : ℚ} (hnow : now < last + LOCKOUT_SECONDS) :
    (isLocked { host i with now := now } s.tree ip).1 = .returned true := by
  obtain ⟨data, hload, htallied⟩ := h
  have hentry := htallied ip hip
  rw [Entry, hlast] at hentry
  obtain ⟨fields, hentry, -, hlocked⟩ := hentry
  rw [if_pos hmax] at hlocked
  have hdata : load { host i with now := now } s.tree = data := hload i
  exact isLocked_of_deadline hip (by rw [hdata, hentry]) hlocked hnow

theorem Sound.kept (h : Sound host s) : Kept host s where
  count := fun _ hip i => h.count_eq hip i
  locked := fun _ hip _ hlast hmax i _ hnow => h.isLocked_eq hip hlast hmax i hnow

theorem load_save {h h' : Host} {t : FileTree Str} {data fields : Attempts}
    (hsaves : h.saves = true) (hwrite : (t.write FILE (h.encode (.table data))).isSome = true)
    (hjson : h'.decode (h.encode (.table data)) = some (.table fields)) :
    load h' (save h t data) = fields := by
  obtain ⟨t', ht'⟩ := Option.isSome_iff_exists.mp hwrite
  rw [save, if_pos hsaves, ht', Option.getD_some, load, FileTree.read_write ht',
    Option.bind_some, hjson]

variable [DecidableEq ι]

theorem Sound.step (h : Sound host s) (i : ι) (hfresh : Fresh host req s i)
    (hreads : Reads host req s i) : Sound host (step host req s i) := by
  obtain ⟨data, hload, htallied⟩ := h
  unfold Tally.step
  cases hpc : s.pc i with
  | start | finished => exact ⟨data, hload, htallied⟩
  | loaded copy =>
    dsimp only
    cases hsaved : (edit (host i) (req i) copy).saved with
    | none => exact ⟨data, hload, htallied⟩
    | some new =>
      have hsaving : saving host req s i = some (copy, new) := by
        rw [saving, hpc]
        dsimp only
        rw [hsaved]
        rfl
      obtain ⟨hcopy, hsaves, hwrite⟩ := hfresh copy new hsaving
      have hjson := hreads copy new hsaving
      rw [hcopy, hload i] at hsaved
      exact ⟨new, fun j => load_save hsaves hwrite (hjson j), tallied_edit htallied hsaved⟩

end

/-- In a run in which every save is fresh no failure is forgotten: in every state the
counts are those of the saved failures, and the addresses with enough of them are
locked. -/
theorem failures_kept {ι : Type} [DecidableEq ι] (host : ι → Host) (req : ι → Request)
    {t : FileTree Str} {past : List Event} {data : Attempts} (hload : ∀ i, load (host i) t = data)
    (hpast : Tallied data past) {sched : List ι}
    (hjson : Along (step host req) (Reads host req) (start t past) sched)
    (hfresh : Along (step host req) (Fresh host req) (start t past) sched) :
    Throughout (step host req) (Kept host) (start t past) sched := by
  have hstart : Sound host (start t past : State ι) := ⟨data, hload, hpast⟩
  have hboth := (along_and _).mpr ⟨hfresh, hjson⟩
  have hall : Throughout (step host req) (Sound host) (start t past) sched :=
    throughout_of_along (fun s i h hi => h.step i hi.1 hi.2) hstart hboth
  exact hall.mono fun s h => h.kept

/-! Two failed logins from one address, in two workers. -/

def address : Str := "192.168.0.9".toList

def wrong (_ : Bool) : Request := ⟨.recordFailure, address⟩

def worker (_ : Bool) : Host where
  now := 1000
  decode := Doc.decode
  encode := Doc.encode
  sha1_bin := fun _ => []
  encode_base64 := id
  urandom := fun _ => none
  date := "2024-01-01".toList
  saves := true

def once : Attempts := ((edit (worker true) (wrong true) []).saved).getD []

def twice : Attempts := ((edit (worker true) (wrong true) once).saved).getD []

/-- The attempts that the json module of the examples has written. -/
theorem load_encoded {host : Host} {t : FileTree Str} {data : Attempts}
    (hdecode : host.decode = Doc.decode)
    (hread : t.read FILE = some (Doc.encode (.table data)))
    (hjson : Doc.decode (Doc.encode (.table data)) = some (.table data)) : load host t = data := by
  rw [load, hread, Option.bind_some, hdecode, hjson]

theorem json_once : Doc.decode (Doc.encode (.table once)) = some (.table once) :=
  Doc.decode_encode (by decide +kernel)

theorem json_twice : Doc.decode (Doc.encode (.table twice)) = some (.table twice) :=
  Doc.decode_encode (by decide +kernel)

theorem load_cfgTree (i : Bool) : load (worker i) cfgTree = [] := by
  have hread : cfgTree.read FILE = none := by decide +kernel
  rw [load, hread]
  rfl

theorem tallied_nil : Tallied [] [] := fun _ _ => rfl

theorem saved_twice (i : Bool) : (edit (worker i) (wrong i) once).saved = some twice := by
  with_unfolding_all rfl

abbrev after (sched : List Bool) : State Bool := run (step worker wrong) (start cfgTree []) sched

theorem load_after : load (worker false) (after [true, true]).tree = once := by
  have hread : (after [true, true]).tree.read FILE = some (Doc.encode (.table once)) := by
    decide +kernel
  exact load_encoded rfl hread json_once

theorem saving_first : saving worker wrong (after [true]) true = some ([], once) := rfl

theorem saving_second :
    saving worker wrong (after [true, true, false]) false = some (once, twice) := by
  show (edit (worker false) (wrong false) (load (worker false) (after [true, true]).tree)).saved.map
    (load (worker false) (after [true, true]).tree, ·) = _
  rw [load_after, saved_twice]
  rfl

/-- The second call loads when the first one has saved. -/
theorem failures_in_turn :
    Throughout (step worker wrong) (Kept worker) (start cfgTree []) [true, true, false, false] := by
  have hfirst (data new : Attempts)
      (h : saving worker wrong (after [true]) true = some (data, new)) :
      data = [] ∧ new = once := by
    rw [saving_first, Option.some.injEq, Prod.mk.injEq] at h
    exact ⟨h.1.symm, h.2.symm⟩
  have hsecond (data new : Attempts)
      (h : saving worker wrong (after [true, true, false]) false = some (data, new)) :
      data = once ∧ new = twice := by
    rw [saving_second, Option.some.injEq, Prod.mk.injEq] at h
    exact ⟨h.1.symm, h.2.symm⟩
  have hstart : saving worker wrong (after []) true = none := rfl
  have hbetween : saving worker wrong (after [true, true]) false = none := rfl
  refine failures_kept worker wrong load_cfgTree tallied_nil ⟨?_, ?_, ?_, ?_, trivial⟩
    ⟨?_, ?_, ?_, ?_, trivial⟩
  · intro data new h
    exact absurd (hstart.symm.trans h) (by simp)
  · intro data new h
    obtain ⟨-, rfl⟩ := hfirst data new h
    exact fun _ => json_once
  · intro data new h
    exact absurd (hbetween.symm.trans h) (by simp)
  · intro data new h
    obtain ⟨-, rfl⟩ := hsecond data new h
    exact fun _ => json_twice
  · intro data new h
    exact absurd (hstart.symm.trans h) (by simp)
  · intro data new h
    obtain ⟨rfl, rfl⟩ := hfirst data new h
    exact ⟨(load_cfgTree true).symm, rfl, by decide +kernel⟩
  · intro data new h
    exact absurd (hbetween.symm.trans h) (by simp)
  · intro data new h
    obtain ⟨rfl, rfl⟩ := hsecond data new h
    exact ⟨load_after.symm, rfl, by decide +kernel⟩

/-- Both calls load before one of them saves. -/
theorem failure_forgotten : (∀ i, load (worker i) cfgTree = []) ∧ Tallied [] [] ∧
    (∀ i, (after [true, false, true, false]).pc i = .finished) ∧
    ¬ Kept worker (after [true, false, true, false]) := by
  refine ⟨load_cfgTree, tallied_nil, fun i => ?_, fun h => ?_⟩
  · cases i with
    | true => rfl
    | false => rfl
  · have hcount := h.count address (by decide) true
    exact absurd hcount (by decide +kernel)

end Tally
end Control
end MkyBoot
