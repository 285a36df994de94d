import MkyBoot.Control.Lock
import MkyBoot.Control.Status

/-!
# Refreshes in turn

`status.refresh` takes the lock, runs `tgtadm` and up to three `lsof` under `timeout`, and
publishes a snapshot with the time at which it began.  What it calls its deadline is not moved
by the clock: each command may take what is left of the budget, and so may the next one.  All
of them together can take three times the budget, and the lock lasts a second longer than that.

`refreshes_in_turn` says what follows for any number of requests that start a refresh: if a
call of `status.lock` is one step, and a refresh does not take longer than its commands and
the second, then there is one refresh at a time, one in ten seconds, and no snapshot is
replaced by an older one.

Times are in milliseconds.
-/

namespace MkyBoot
namespace Control
namespace Refresh

open Lua Machine
open Lock (lock held timeIn clockText lockTtl)
open Status (Service validPort)

/-! ## The commands of a refresh -/

/-- A command, and the time after which it is killed. -/
structure Cmd where
  text : Str
  limit : Option ℕ

def budget : ℤ := 3000

/-- `string.format("%.2f", t)` -/
def hundredths (ms : ℕ) : Str :=
  Nat.toDigits 10 (ms / 1000) ++
    ['.', Nat.digitChar (ms / 100 % 10), Nat.digitChar (ms / 10 % 10)]

/-- `status.wrap`, by whether `timeout` is installed. -/
def wrap (installed : Bool) (cmd : Str) (seconds : ℤ) : Cmd :=
  if installed then
    let t := if seconds ≤ 0 then 200 else seconds
    let t := if budget < t then budget else t
    ⟨"/usr/bin/timeout -s KILL ".toList ++ hundredths t.toNat ++ ' ' :: cmd, some t.toNat⟩
  else ⟨cmd, none⟩

/-- What a refresh finds installed and configured. -/
structure Env where
  timeout : Bool
  tgtadm : Bool
  lsof : Bool
  port : Service → Val

/-- The command of `probe`, if it runs one. -/
def probeCmd (env : Env) (left : ℤ) (s : Service) : Option Cmd :=
  if !validPort (env.port s) then none
  else if left ≤ 0 then none
  else some (wrap env.timeout ("/usr/bin/lsof -t -i:".toList ++
    ((tonumber (env.port s)).elim "nil".toList fun n => tostring (.num n))) left)

/-- The commands of `status.refresh`, in the order in which they are run. -/
def commands (env : Env) : List Cmd :=
  let left := if env.tgtadm then budget - 1000 else budget
  (if env.tgtadm then
    [wrap env.timeout "/usr/sbin/tgtadm --lld iscsi --op show --mode target".toList left]
  else []) ++
    if env.lsof then [Service.dhcp, .tftp, .iscsi].filterMap (probeCmd env left) else []

/-- The limits of commands together. -/
def limits (cmds : List Cmd) : ℕ := (cmds.map fun c => c.limit.getD 0).sum

/-! ## Calls -/

/-- What a refresh is at, and what is left of the limit of its command. -/
inductive Doing where
  | own
  | command (left : Option ℕ)

structure Job where
  /-- When it took the lock. -/
  since : ℕ
  ts : Option ℕ
  doing : Doing
  todo : List Cmd
  /-- The time that it may take outside its commands. -/
  spare : ℕ

structure State (ι : Type) where
  clock : ℕ
  /-- The file of the lock. -/
  file : Option Str
  jobs : ι → Option Job
  /-- The times at which the lock was taken. -/
  taken : List ℕ
  /-- The times of the snapshots that were published. -/
  snapshots : List ℕ

inductive Input (ι : Type) where
  | tick (ms : ℕ)
  /-- A call of `status.refresh`, up to the end of `status.lock`. -/
  | refresh (i : ι) (env : Env) (opens writes : Bool)
  /-- The next step of a call; the last one publishes its snapshot if it can. -/
  | go (i : ι) (ok : Bool)
  /-- The worker ends. -/
  | kill (i : ι)

/-- `os.time()` -/
def seconds (ms : ℕ) : ℕ := ms / 1000

/-- What the lock leaves beside the commands. -/
def spareOf (env : Env) : ℕ := (lockTtl - 1) * 1000 - limits (commands env)

def Job.pass (job : Job) (ms : ℕ) : Job :=
  match job.doing with
  | .own => { job with spare := job.spare - ms }
  | .command left => { job with doing := .command (left.map (· - ms)) }

section

variable {ι : Type} [DecidableEq ι]

def start (clock : ℕ) (file : Option Str) : State ι := ⟨clock, file, fun _ => none, [], []⟩

def State.put (s : State ι) (i : ι) (job : Option Job) : State ι :=
  { s with jobs := Function.update s.jobs i job }

def State.advance (s : State ι) (i : ι) (ok : Bool) (job : Job) : State ι :=
  match job.ts with
  | none => s.put i (some { job with ts := some (seconds s.clock) })
  | some t =>
    match job.doing with
    | .command _ => s.put i (some { job with doing := .own })
    | .own =>
      match job.todo with
      | c :: cs => s.put i (some { job with doing := .command c.limit, todo := cs })
      | [] =>
        State.put { s with snapshots := if ok then s.snapshots ++ [t] else s.snapshots } i none

def step (s : State ι) : Input ι → State ι
  | .tick ms => { s with clock := s.clock + ms, jobs := fun i => (s.jobs i).map (·.pass ms) }
  | .refresh i env opens writes =>
    if (s.jobs i).isSome then s
    else
      let locked := lock (seconds s.clock) opens writes s.file
      if locked.1 then
        State.put { s with file := locked.2, taken := s.taken ++ [seconds s.clock] } i
          (some ⟨s.clock, none, .own, commands env, spareOf env⟩)
      else { s with file := locked.2 }
  | .go i ok =>
    match s.jobs i with
    | none => s
    | some job => s.advance i ok job
  | .kill i => s.put i none

end

/-! ## What a refresh may take -/

/-- A command is killed in time, and the rest does not take more than is to spare. -/
def Job.Allows (job : Job) (ms : ℕ) : Prop :=
  match job.doing with
  | .own => ms ≤ job.spare
  | .command none => True
  | .command (some left) => ms ≤ left

instance (job : Job) (ms : ℕ) : Decidable (job.Allows ms) :=
  match h : job.doing with
  | .own => decidable_of_iff (ms ≤ job.spare) (by rw [Job.Allows, h])
  | .command none => .isTrue (by rw [Job.Allows, h]; trivial)
  | .command (some left) => decidable_of_iff (ms ≤ left) (by rw [Job.Allows, h])

/-- The condition on a step.  `timeout` is installed, and what `status.lock` writes can be
read back. -/
def Timely {ι : Type} (s : State ι) : Input ι → Prop
  | .tick ms => ∀ i, ∀ job ∈ s.jobs i, job.Allows ms
  | .refresh _ env _ writes => env.timeout = true ∧ writes = true ∧
      tonumber (.str (clockText (seconds s.clock))) = some (seconds s.clock : ℚ)
  | _ => True

instance {ι : Type} [Fintype ι] (s : State ι) : ∀ x, Decidable (Timely s x)
  | .tick ms => inferInstanceAs (Decidable (∀ i, ∀ job ∈ s.jobs i, job.Allows ms))
  | .refresh _ _ _ _ => inferInstanceAs (Decidable (_ ∧ _ ∧ _))
  | .go _ _ => instDecidableTrue
  | .kill _ => instDecidableTrue

theorem wrap_limit (cmd : Str) {ms : ℤ} (hpos : 0 < ms) (hle : ms ≤ budget) :
    (wrap true cmd ms).limit = some ms.toNat := by
  have hneg : ¬ms ≤ 0 := by omega
  have hlt : ¬budget < ms := by omega
  simp only [wrap, if_true, if_neg hneg, if_neg hlt]

theorem probeCmd_limit {env : Env} (htimeout : env.timeout = true) {left : ℤ} (hpos : 0 < left)
    (hle : left ≤ budget) (s : Service) :
    probeCmd env left s = none ∨ ∃ c, probeCmd env left s = some c ∧ c.limit = some left.toNat := by
  unfold probeCmd
  split
  · exact Or.inl rfl
  · rw [if_neg (by omega), htimeout]
    exact Or.inr ⟨_, rfl, wrap_limit _ hpos hle⟩

/-- The commands that are under a limit. -/
def Limited (cmds : List Cmd) : Prop := ∀ c ∈ cmds, c.limit ≠ none

theorem limits_cons {c : Cmd} {n : ℕ} (hc : c.limit = some n) (cmds : List Cmd) :
    limits (c :: cmds) = n + limits cmds := by
  rw [limits, List.map_cons, List.sum_cons, hc]
  rfl

/-- Probes take what is left of the budget, each of them. -/
theorem probes_bounded {env : Env} (htimeout : env.timeout = true) {left : ℤ} (hpos : 0 < left)
    (hle : left ≤ budget) (services : List Service) :
    Limited (services.filterMap (probeCmd env left)) ∧
      limits (services.filterMap (probeCmd env left)) ≤ services.length * left.toNat := by
  induction services with
  | nil => exact ⟨fun _ hc => absurd hc List.not_mem_nil, Nat.zero_le _⟩
  | cons s services ih =>
    rw [List.length_cons, Nat.succ_mul]
    rcases probeCmd_limit htimeout hpos hle s with hnone | ⟨c, hc, hlimit⟩
    · rw [List.filterMap_cons_none hnone]
      exact ⟨ih.1, Nat.le_add_right_of_le ih.2⟩
    · rw [List.filterMap_cons_some hc, limits_cons hlimit]
      refine ⟨fun c' hc' => ?_, by omega⟩
      rcases List.mem_cons.mp hc' with rfl | hold
      · rw [hlimit]
        exact Option.some_ne_none _
      · exact ih.1 c' hold

/-- All commands of a refresh together take three times the budget at most. -/
theorem commands_bounded {env : Env} (htimeout : env.timeout = true) :
    Limited (commands env) ∧ limits (commands env) ≤ 9000 := by
  have hprobes (left : ℤ) (hpos : 0 < left) (hle : left ≤ budget) :
      Limited (if env.lsof then [Service.dhcp, .tftp, .iscsi].filterMap (probeCmd env left)
          else []) ∧
        limits (if env.lsof then [Service.dhcp, .tftp, .iscsi].filterMap (probeCmd env left)
          else []) ≤ 3 * left.toNat := by
    split
    · exact probes_bounded htimeout hpos hle [Service.dhcp, .tftp, .iscsi]
    · exact ⟨fun _ hc => absurd hc List.not_mem_nil, Nat.zero_le _⟩
  unfold commands
  dsimp only
  cases env.tgtadm with
  | false => exact hprobes budget (by decide) (by decide)
  | true =>
    have hrest := hprobes (budget - 1000) (by decide) (by decide)
    have hlimit : (wrap env.timeout "/usr/sbin/tgtadm --lld iscsi --op show --mode target".toList
        (budget - 1000)).limit = some 2000 := by
      rw [htimeout]
      exact wrap_limit _ (by decide) (by decide)
    rw [if_pos rfl, if_pos rfl, List.singleton_append, limits_cons hlimit]
    refine ⟨fun c hc => ?_, Nat.add_le_add_left hrest.2 2000 |>.trans (by decide)⟩
    rcases List.mem_cons.mp hc with rfl | hold
    · rw [hlimit]
      exact Option.some_ne_none _
    · exact hrest.1 c hold

/-- Without `tgtadm` the probes have the whole budget, three times. -/
example : limits (commands ⟨true, false, true, fun _ => .num 69⟩) = 9000 := by decide +kernel

/-! ## One refresh at a time -/

/-- What is left of the limits and of the spare time. -/
def Job.left (job : Job) : ℕ :=
  (match job.doing with
    | .own => 0
    | .command n => n.getD 0) + limits job.todo + job.spare

/-- A refresh under way has the lock, will be done before the lock is free, and its snapshot
will not be older than those before it. -/
structure Job.Sound {ι : Type} (s : State ι) (job : Job) : Prop where
  file : timeIn s.file = some (seconds job.since : ℚ)
  since : job.since ≤ s.clock
  left : s.clock + job.left ≤ job.since + 9000
  running : job.doing ≠ .command none
  todo : Limited job.todo
  ts : ∀ t, job.ts = some t → seconds job.since ≤ t ∧ t ≤ seconds s.clock
  newest : ∀ t ∈ s.snapshots, t ≤ seconds job.since

structure InTurn {ι : Type} (s : State ι) : Prop where
  one : ∀ i j, (s.jobs i).isSome = true → (s.jobs j).isSome = true → i = j
  job : ∀ i job, s.jobs i = some job → job.Sound s
  taken : s.taken.Pairwise fun a b => a + lockTtl ≤ b
  kept : ∀ n ∈ s.taken, ∃ q, timeIn s.file = some q ∧ (n : ℚ) ≤ q
  snapshots : s.snapshots.Pairwise (· ≤ ·)
  past : ∀ t ∈ s.snapshots, t ≤ seconds s.clock

theorem seconds_mono {a b : ℕ} (h : a ≤ b) : seconds a ≤ seconds b := Nat.div_le_div_right h

theorem Job.pass_same (job : Job) (ms : ℕ) : (job.pass ms).since = job.since ∧
    (job.pass ms).ts = job.ts ∧ (job.pass ms).todo = job.todo ∧
    ((job.pass ms).doing = .command none → job.doing = .command none) := by
  obtain ⟨since, ts, doing, todo, spare⟩ := job
  cases doing with
  | own => exact ⟨rfl, rfl, rfl, id⟩
  | command left =>
    cases left with
    | none => exact ⟨rfl, rfl, rfl, fun _ => rfl⟩
    | some n => exact ⟨rfl, rfl, rfl, fun h => absurd h (by simp [Job.pass])⟩

theorem Job.left_pass {job : Job} (hrunning : job.doing ≠ .command none) {ms : ℕ}
    (h : job.Allows ms) : (job.pass ms).left + ms = job.left := by
  obtain ⟨since, ts, doing, todo, spare⟩ := job
  cases doing with
  | own =>
    have hle : ms ≤ spare := h
    show 0 + limits todo + (spare - ms) + ms = 0 + limits todo + spare
    omega
  | command left =>
    cases left with
    | none => exact absurd rfl hrunning
    | some n =>
      have hle : ms ≤ n := h
      show n - ms + limits todo + spare + ms = n + limits todo + spare
      omega

section

variable {ι : Type} {s : State ι}

theorem inTurn_start (clock : ℕ) (file : Option Str) : InTurn (start clock file : State ι) where
  one i _ h := absurd h (by simp [start])
  job i job h := absurd h (by simp [start])
  taken := List.Pairwise.nil
  kept n h := absurd h List.not_mem_nil
  snapshots := List.Pairwise.nil
  past t h := absurd h List.not_mem_nil

/-- The lock cannot be taken from a refresh under way. -/
theorem Job.Sound.held {job : Job} (h : job.Sound s) :
    Lock.held (seconds s.clock) s.file = true := by
  have hleft := h.left
  have hsec : seconds s.clock ≤ seconds job.since + 9 := by
    unfold seconds
    omega
  have hlt : ((seconds s.clock : ℕ) : ℚ) - (seconds job.since : ℚ) < lockTtl := by
    have hcast : ((seconds s.clock : ℕ) : ℚ) ≤ (seconds job.since : ℚ) + 9 := by exact_mod_cast hsec
    rw [lockTtl]
    push_cast
    linarith
  rw [Lock.held, h.file, Option.any_some]
  exact decide_eq_true hlt

variable [DecidableEq ι]

theorem InTurn.tick (h : InTurn s) {ms : ℕ}
    (hms : ∀ i job, s.jobs i = some job → job.Allows ms) : InTurn (step s (.tick ms)) where
  one i j hi hj := by
    refine h.one i j ?_ ?_
    · simpa [step] using hi
    · simpa [step] using hj
  job i job hjob := by
    obtain ⟨old, hold, rfl⟩ := Option.map_eq_some_iff.mp hjob
    have hsound := h.job i old hold
    have hleft := old.left_pass hsound.running (hms i old hold)
    have hbefore := hsound.left
    obtain ⟨hsince, hts, htodo, hdoing⟩ := old.pass_same ms
    have hclock : s.clock ≤ s.clock + ms := Nat.le_add_right s.clock ms
    constructor
    · rw [hsince]
      exact hsound.file
    · rw [hsince]
      exact hsound.since.trans hclock
    · rw [hsince]
      show s.clock + ms + (old.pass ms).left ≤ old.since + 9000
      omega
    · exact fun hnone => hsound.running (hdoing hnone)
    · rw [htodo]
      exact hsound.todo
    · intro t ht
      rw [hts] at ht
      rw [hsince]
      exact ⟨(hsound.ts t ht).1, (hsound.ts t ht).2.trans (seconds_mono hclock)⟩
    · rw [hsince]
      exact hsound.newest
  taken := h.taken
  kept := h.kept
  snapshots := h.snapshots
  past t ht := (h.past t ht).trans (seconds_mono (Nat.le_add_right s.clock ms))

theorem put_jobs (s : State ι) (i j : ι) (job : Option Job) :
    (s.put i job).jobs j = if j = i then job else s.jobs j := Function.update_apply s.jobs i job j

/-- One refresh goes on, and nothing else has changed. -/
theorem InTurn.put (h : InTurn s) {i : ι} {job : Job} (hi : (s.jobs i).isSome = true)
    (hjob : job.Sound s) : InTurn (s.put i (some job)) where
  one j k hj hk := by
    refine h.one j k ?_ ?_
    · rw [put_jobs] at hj
      split at hj
      · next hji => rwa [hji]
      · exact hj
    · rw [put_jobs] at hk
      split at hk
      · next hki => rwa [hki]
      · exact hk
  job j job' hj := by
    rw [put_jobs] at hj
    split at hj
    · obtain rfl := Option.some.inj hj
      exact ⟨hjob.file, hjob.since, hjob.left, hjob.running, hjob.todo, hjob.ts, hjob.newest⟩
    · have hold := h.job j job' hj
      exact ⟨hold.file, hold.since, hold.left, hold.running, hold.todo, hold.ts, hold.newest⟩
  taken := h.taken
  kept := h.kept
  snapshots := h.snapshots
  past := h.past

/-- A refresh ends, and may have published a snapshot as new as any. -/
theorem InTurn.drop (h : InTurn s) {i : ι} (snapshots : List ℕ)
    (hsnap : snapshots.Pairwise (· ≤ ·)) (hpast : ∀ t ∈ snapshots, t ≤ seconds s.clock)
    (hother : snapshots = s.snapshots ∨ (s.jobs i).isSome = true) :
    InTurn (State.put { s with snapshots := snapshots } i none) where
  one j k hj hk := by
    rw [put_jobs] at hj hk
    split at hj
    · exact absurd hj Bool.false_ne_true
    · split at hk
      · exact absurd hk Bool.false_ne_true
      · exact h.one j k hj hk
  job j job hj := by
    rw [put_jobs] at hj
    split at hj
    · exact absurd hj (by simp)
    · next hji =>
      have hold := h.job j job hj
      refine ⟨hold.file, hold.since, hold.left, hold.running, hold.todo, hold.ts, ?_⟩
      rcases hother with rfl | hi
      · exact hold.newest
      · exact absurd (h.one j i (by rw [hj]; rfl) hi) hji
  taken := h.taken
  kept := h.kept
  snapshots := hsnap
  past := hpast

omit [DecidableEq ι] in
/-- Who finds the lock free comes `lock_ttl` after those who took it. -/
theorem InTurn.ahead (h : InTurn s) {now : ℕ} (hfree : held now s.file = false) {n : ℕ}
    (hn : n ∈ s.taken) : n + lockTtl ≤ now := by
  obtain ⟨q, hq, hnq⟩ := h.kept n hn
  rw [Lock.held, hq, Option.any_some, decide_eq_false_iff_not, not_lt] at hfree
  have hle : ((n + lockTtl : ℕ) : ℚ) ≤ now := by
    rw [Nat.cast_add]
    linarith
  exact_mod_cast hle

theorem InTurn.take (h : InTurn s) {i : ι} {env : Env} (htimeout : env.timeout = true)
    (hfree : held (seconds s.clock) s.file = false)
    (htime : tonumber (.str (clockText (seconds s.clock))) = some (seconds s.clock : ℚ)) :
    InTurn (State.put { s with file := some (clockText (seconds s.clock))
                               taken := s.taken ++ [seconds s.clock] } i
      (some ⟨s.clock, none, .own, commands env, spareOf env⟩)) := by
  have hnone (j : ι) : s.jobs j = none := by
    cases hj : s.jobs j with
    | none => rfl
    | some job => exact absurd ((h.job j job hj).held.symm.trans hfree) (by decide)
  constructor
  · intro j k hj hk
    rw [put_jobs] at hj hk
    split at hj
    · next hji =>
      split at hk
      · next hki => rw [hji, hki]
      · exact absurd hk (by simp [hnone])
    · exact absurd hj (by simp [hnone])
  · intro j job hj
    rw [put_jobs] at hj
    split at hj
    · obtain rfl := Option.some.inj hj
      have hbound := commands_bounded htimeout
      refine ⟨htime, Nat.le_refl s.clock, ?_, by simp, hbound.1, fun t ht => absurd ht (by simp),
        h.past⟩
      show s.clock + (0 + limits (commands env) +
        ((lockTtl - 1) * 1000 - limits (commands env))) ≤ s.clock + 9000
      have hle := hbound.2
      rw [lockTtl]
      omega
    · exact absurd hj (by simp [hnone])
  · refine List.pairwise_append.mpr ⟨h.taken, List.pairwise_singleton _ _, fun a ha b hb => ?_⟩
    rw [List.mem_singleton.mp hb]
    exact h.ahead hfree ha
  · intro n hn
    refine ⟨_, htime, ?_⟩
    rcases List.mem_append.mp hn with hold | hnew
    · exact_mod_cast (Nat.le_add_right n lockTtl).trans (h.ahead hfree hold)
    · rw [List.mem_singleton.mp hnew]
  · exact h.snapshots
  · exact h.past

theorem InTurn.advance (h : InTurn s) {i : ι} {job : Job} (hi : s.jobs i = some job) (ok : Bool) :
    InTurn (s.advance i ok job) := by
  have hsome : (s.jobs i).isSome = true := by
    rw [hi]
    rfl
  have hsound := h.job i job hi
  obtain ⟨since, ts, doing, todo, spare⟩ := job
  have hleft := hsound.left
  cases ts with
  | none =>
    refine h.put hsome ⟨hsound.file, hsound.since, hleft, hsound.running, hsound.todo, ?_,
      hsound.newest⟩
    intro t ht
    rw [← Option.some.inj ht]
    exact ⟨seconds_mono hsound.since, Nat.le_refl _⟩
  | some t =>
    cases doing with
    | command left =>
      refine h.put hsome ⟨hsound.file, hsound.since, ?_, by simp, hsound.todo, hsound.ts,
        hsound.newest⟩
      have hless : Job.left ⟨since, some t, .own, todo, spare⟩ ≤
          Job.left ⟨since, some t, .command left, todo, spare⟩ := by
        show 0 + limits todo + spare ≤ left.getD 0 + limits todo + spare
        omega
      exact (Nat.add_le_add_left hless s.clock).trans hleft
    | own =>
      cases todo with
      | cons c cs =>
        have hc : c.limit ≠ none := hsound.todo c List.mem_cons_self
        obtain ⟨n, hn⟩ := Option.ne_none_iff_exists'.mp hc
        refine h.put hsome ⟨hsound.file, hsound.since, ?_, ?_,
          fun c' hc' => hsound.todo c' (List.mem_cons_of_mem c hc'), hsound.ts, hsound.newest⟩
        · have hsame : Job.left ⟨since, some t, .command c.limit, cs, spare⟩ =
              Job.left ⟨since, some t, .own, c :: cs, spare⟩ := by
            show c.limit.getD 0 + limits cs + spare = 0 + limits (c :: cs) + spare
            rw [limits_cons hn, hn, Option.getD_some]
            omega
          exact hsame ▸ hleft
        · rw [hn]
          simp
      | nil =>
        have ht := hsound.ts t rfl
        refine h.drop (if ok then s.snapshots ++ [t] else s.snapshots) ?_ ?_ (Or.inr hsome)
        · split
          · refine List.pairwise_append.mpr
              ⟨h.snapshots, List.pairwise_singleton _ _, fun a ha b hb => ?_⟩
            rw [List.mem_singleton.mp hb]
            exact (hsound.newest a ha).trans ht.1
          · exact h.snapshots
        · intro t' ht'
          split at ht'
          · rcases List.mem_append.mp ht' with hold | hnew
            · exact h.past t' hold
            · rw [List.mem_singleton.mp hnew]
              exact ht.2
          · exact h.past t' ht'

theorem InTurn.step (h : InTurn s) {x : Input ι} (hx : Timely s x) : InTurn (step s x) := by
  cases x with
  | tick ms => exact h.tick hx
  | refresh i env opens writes =>
    obtain ⟨htimeout, rfl, htime⟩ := hx
    cases hi : s.jobs i with
    | some job =>
      rw [Refresh.step, hi, if_pos (by rfl)]
      exact h
    | none =>
      rw [Refresh.step, hi, if_neg (by simp)]
      dsimp only
      cases hfree : held (seconds s.clock) s.file with
      | true =>
        rw [lock, hfree]
        exact h
      | false =>
        cases opens with
        | true =>
          rw [lock, hfree]
          exact h.take htimeout hfree htime
        | false =>
          rw [lock, hfree]
          exact h
  | go i ok =>
    rw [Refresh.step]
    cases hi : s.jobs i with
    | none => exact h
    | some job => exact h.advance hi ok
  | kill i => exact h.drop s.snapshots h.snapshots h.past (Or.inl rfl)

end

/-- For any number of calls of `status.refresh`: if `timeout` is installed, and no refresh
takes more time outside its commands than it has to spare, then there is one at a time, they
begin `lock_ttl` apart, and a snapshot is never replaced by an older one. -/
theorem refreshes_in_turn {ι : Type} [DecidableEq ι] (clock : ℕ) (file : Option Str)
    {xs : List (Input ι)} (hx : Along step Timely (start clock file) xs) :
    let s := run step (start clock file) xs
    (∀ i j, (s.jobs i).isSome = true → (s.jobs j).isSome = true → i = j) ∧
      s.taken.Pairwise (fun a b => a + lockTtl ≤ b) ∧ s.snapshots.Pairwise (· ≤ ·) := by
  intro s
  have h : InTurn s :=
    inv_run (I := InTurn) (fun _ _ hs hx => hs.step hx) (inTurn_start clock file) hx
  exact ⟨h.one, h.taken, h.snapshots⟩

/-! A refresh of eight seconds and a half, a request that finds the lock held, and the next
refresh. -/

def slowRefresh : List (Input Bool) :=
  let env : Env := ⟨true, true, true, fun _ => .num 69⟩
  [.refresh true env true true, .go true true, .tick 500,
    .go true true, .tick 2000, .go true true, .go true true, .tick 2000, .go true true,
    .refresh false env true true,
    .go true true, .tick 2000, .go true true, .go true true, .tick 2000, .go true true,
    .go true true, .tick 1500, .refresh false env true true]

theorem slow_refresh_in_turn :
    (run step (start 1700000000000 none) slowRefresh).taken = [1700000000, 1700000010] ∧
      (run step (start 1700000000000 none) slowRefresh).snapshots = [1700000000] ∧
      (run step (start 1700000000000 none) slowRefresh).taken.Pairwise
        (fun a b => a + lockTtl ≤ b) := by
  have hx : Along step Timely (start 1700000000000 none) slowRefresh := by decide +kernel
  exact ⟨by decide +kernel, by decide +kernel, (refreshes_in_turn 1700000000000 none hx).2.1⟩

end Refresh
end Control
end MkyBoot
