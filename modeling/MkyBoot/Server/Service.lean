import MkyBoot.Machine.Run
import MkyBoot.Server.State

/-!
# The server as a service

`Execute` talks to the service manager of Windows: it reports its states, takes requests and
runs the server in a goroutine, which sends its error through a channel when it returns.
`Serve` has a goroutine of its own for `http.Serve`, and returns when that does or when the
context is cancelled.  The three go on in any order, a `select` takes any of its cases that are
ready, and the server may fail at any moment.

`service_lifecycle` says what the manager can rely on: the states are reported in their order,
a stop is reported once and last, after the server has returned, and `Execute` returns the
code of its error; no goroutine is left blocked in sending an error, and a stop that was asked
for comes about.  The state that answers an interrogation comes with the request, and
`Informed` says which one it is.
-/

namespace MkyBoot
namespace Server
namespace Service

open Machine

inductive Status where
  | startPending
  | running
  | stopPending
  | stopped
  deriving DecidableEq

inductive Cmd where
  | interrogate
  | stop
  | shutdown
  | other
  deriving DecidableEq

/-- Where `Execute` is. -/
inductive Pc where
  | begun
  | pending
  /-- The server has been started. -/
  | spawned
  | loop
  /-- The context is cancelled. -/
  | draining
  | returned (specific : Bool) (code : ℕ)
  deriving DecidableEq

/-- Where `Serve` is. -/
inductive ServePc where
  | unborn
  | listening
  | selecting
  | shutting
  | returned (err : Option Str)
  deriving DecidableEq

/-- Where the goroutine of `Serve` is. -/
inductive HttpPc where
  | unborn
  | serving
  | finished
  deriving DecidableEq

/-- The channels `done` and `errCh` have room for one value. -/
structure State where
  pc : Pc
  sent : List Status
  cancelled : Bool
  done : List (Option Str)
  serve : ServePc
  http : HttpPc
  errCh : List (Option Str)

def start : State := ⟨.begun, [], false, [], .unborn, .unborn, []⟩

inductive Event where
  /-- `Execute` goes on to its loop. -/
  | execute
  /-- The loop takes a request, which comes with a `CurrentStatus`. -/
  | request (c : Cmd) (current : Status)
  /-- `Execute` receives from `done`. -/
  | receive
  | listen (err : Option Str)
  /-- `http.Serve` returns, `none` for `ErrServerClosed`. -/
  | httpServe (err : Option Str)
  /-- `Serve` receives from `errCh`. -/
  | failure
  /-- `Serve` finds the context cancelled. -/
  | cancellation
  /-- `Shutdown` returns. -/
  | shutdown (err : Option Str)

def exitCode (err : Option Str) : ℕ := if err = none then 0 else 1

/-- `Serve` returns, and its goroutine sends the error. -/
def State.serveReturns (s : State) (err : Option Str) : State :=
  { s with serve := .returned err, done := s.done ++ [err] }

def State.executeReturns (s : State) (specific : Bool) (err : Option Str)
    (done : List (Option Str)) : State :=
  { s with
    pc := .returned specific (exitCode err)
    sent := s.sent ++ [.stopped]
    done := done
    cancelled := true }

def step (s : State) : Event → State
  | .execute =>
    match s.pc with
    | .begun => { s with pc := .pending, sent := s.sent ++ [.startPending] }
    | .pending => { s with pc := .spawned, serve := .listening }
    | .spawned => { s with pc := .loop, sent := s.sent ++ [.running] }
    | _ => s
  | .request c current =>
    match s.pc with
    | .loop =>
      match c with
      | .interrogate => { s with sent := s.sent ++ [current] }
      | .stop | .shutdown =>
        { s with pc := .draining, sent := s.sent ++ [.stopPending], cancelled := true }
      | .other => s
    | _ => s
  | .receive =>
    match s.done with
    | [] => s
    | err :: done =>
      match s.pc with
      | .loop => s.executeReturns true err done
      | .draining => s.executeReturns false err done
      | _ => s
  | .listen err =>
    match s.serve with
    | .listening =>
      match err with
      | some e => s.serveReturns (some e)
      | none => { s with serve := .selecting, http := .serving }
    | _ => s
  | .httpServe err =>
    match s.http with
    | .serving => { s with http := .finished, errCh := s.errCh ++ [err] }
    | _ => s
  | .failure =>
    match s.serve, s.errCh with
    | .selecting, err :: errCh => State.serveReturns { s with errCh := errCh } err
    | _, _ => s
  | .cancellation =>
    match s.serve with
    | .selecting => if s.cancelled then { s with serve := .shutting } else s
    | _ => s
  | .shutdown err =>
    match s.serve with
    | .shutting => s.serveReturns err
    | _ => s

/-- The package `svc` puts the last state that was reported into a request. -/
def Informed (s : State) : Event → Prop
  | .request _ current => s.sent.getLast?.getD current = current
  | _ => True

instance (s : State) : ∀ e, Decidable (Informed s e)
  | .request _ current => inferInstanceAs (Decidable (s.sent.getLast?.getD current = current))
  | .execute | .receive | .listen _ | .httpServe _ | .failure | .cancellation | .shutdown _ =>
    instDecidableTrue

/-! ## What holds at every moment -/

/-- The states that have been reported when `Execute` is at a place. -/
def Reported (sent : List Status) : Pc → Prop
  | .begun => sent = []
  | .pending | .spawned => sent = [.startPending]
  | .loop => ∃ n, sent = .startPending :: List.replicate (n + 1) .running
  | .draining => ∃ n, sent = .startPending :: List.replicate (n + 1) .running ++ [.stopPending]
  | .returned specific _ =>
    ∃ n, sent = .startPending :: List.replicate (n + 1) .running ++
      (if specific then [] else [.stopPending]) ++ [.stopped]

/-- The server, before and after it has returned its error, which `Execute` may have
received. -/
def Delivered (pc : Pc) (done : List (Option Str)) : ServePc → Prop
  | .unborn => done = [] ∧ (pc = .begun ∨ pc = .pending)
  | .listening | .selecting => done = [] ∧ (pc = .spawned ∨ pc = .loop ∨ pc = .draining)
  | .shutting => done = [] ∧ pc = .draining
  | .returned err =>
    (done = [err] ∧ (pc = .spawned ∨ pc = .loop ∨ pc = .draining)) ∨
      (done = [] ∧ ∃ specific, pc = .returned specific (exitCode err))

/-- The goroutine of `Serve` has sent one value at most. -/
def Connected (serve : ServePc) (errCh : List (Option Str)) : HttpPc → Prop
  | .unborn => errCh = []
  | .serving => errCh = [] ∧ serve ≠ .unborn ∧ serve ≠ .listening
  | .finished => errCh.length ≤ 1 ∧ serve ≠ .unborn ∧ serve ≠ .listening

structure Sound (s : State) : Prop where
  reported : Reported s.sent s.pc
  delivered : Delivered s.pc s.done s.serve
  connected : Connected s.serve s.errCh s.http
  early : s.serve = .unborn ∨ s.serve = .listening → s.http = .unborn
  cancelled : s.cancelled = true ↔
    s.pc = .draining ∨ ∃ specific code, s.pc = .returned specific code

theorem sound_start : Sound start where
  reported := rfl
  delivered := ⟨rfl, .inl rfl⟩
  connected := rfl
  early _ := rfl
  cancelled := by simp [start]

variable {s : State}

theorem Connected.mono {serve serve' : ServePc} {errCh : List (Option Str)} {http : HttpPc}
    (h : Connected serve errCh http) (hserve : serve' ≠ .unborn ∧ serve' ≠ .listening) :
    Connected serve' errCh http := by
  cases http with
  | unborn => exact h
  | serving | finished => exact ⟨h.1, hserve⟩

/-- The server returns for the first time. -/
theorem Sound.serveReturns (h : Sound s) (hdone : s.done = [])
    (hpc : s.pc = .spawned ∨ s.pc = .loop ∨ s.pc = .draining) (err : Option Str) :
    Sound (s.serveReturns err) where
  reported := h.reported
  delivered := by
    refine .inl ⟨?_, hpc⟩
    show s.done ++ [err] = [err]
    rw [hdone, List.nil_append]
  connected := by
    show Connected (.returned err) s.errCh s.http
    exact h.connected.mono (by simp)
  early hserve := by rcases hserve with hserve | hserve <;> cases hserve
  cancelled := h.cancelled

theorem Sound.execute (h : Sound s) : Sound (step s .execute) := by
  obtain ⟨hreported, hdelivered, hconnected, hearly, hcancelled⟩ := h
  have hunborn (hpc : s.pc = .begun ∨ s.pc = .pending) : s.serve = .unborn ∧ s.done = [] := by
    cases hserve : s.serve with
    | unborn =>
      rw [hserve] at hdelivered
      exact ⟨rfl, hdelivered.1⟩
    | listening | selecting | shutting | returned err =>
      rcases hpc with hpc | hpc <;> simp [hserve, hpc, Delivered] at hdelivered
  rw [step]
  split
  · rename_i hpc
    obtain ⟨hserve, hdone⟩ := hunborn (.inl hpc)
    rw [hpc] at hreported
    have hsent : s.sent = [] := hreported
    refine ⟨?_, ?_, hconnected, hearly, ?_⟩
    · show s.sent ++ [.startPending] = [.startPending]
      rw [hsent, List.nil_append]
    · show Delivered .pending s.done s.serve
      rw [hserve]
      exact ⟨hdone, .inr rfl⟩
    · simpa [hpc] using hcancelled
  · rename_i hpc
    obtain ⟨hserve, hdone⟩ := hunborn (.inr hpc)
    have hhttp : s.http = .unborn := hearly (.inl hserve)
    rw [hpc] at hreported
    refine ⟨hreported, ⟨hdone, .inl rfl⟩, ?_, fun _ => hhttp, ?_⟩
    · show Connected .listening s.errCh s.http
      rw [hhttp] at hconnected ⊢
      exact hconnected
    · simpa [hpc] using hcancelled
  · rename_i hpc
    rw [hpc] at hreported
    have hsent : s.sent = [.startPending] := hreported
    refine ⟨⟨0, ?_⟩, ?_, hconnected, hearly, ?_⟩
    · show s.sent ++ [.running] = _
      rw [hsent]
      rfl
    · show Delivered .loop s.done s.serve
      cases hserve : s.serve <;> simp_all [Delivered]
    · simpa [hpc] using hcancelled
  · exact ⟨hreported, hdelivered, hconnected, hearly, hcancelled⟩

theorem Delivered.draining {done : List (Option Str)} {serve : ServePc}
    (h : Delivered .loop done serve) : Delivered .draining done serve := by
  cases serve <;> simp_all [Delivered]

theorem replicate_running (n : ℕ) : List.replicate (n + 1) Status.running ++ [.running] =
    List.replicate (n + 2) .running := (List.replicate_succ' (n := n + 1)).symm

theorem Sound.request (h : Sound s) (c : Cmd) {current : Status}
    (hcurrent : Informed s (.request c current)) : Sound (step s (.request c current)) := by
  rw [step.eq_def]
  dsimp only
  split
  · rename_i hpc
    have hreported := h.reported
    have hdelivered := h.delivered
    rw [hpc] at hreported hdelivered
    obtain ⟨n, hsent⟩ : ∃ n, s.sent = .startPending :: List.replicate (n + 1) .running := hreported
    have hstop : Sound
        { s with pc := .draining, sent := s.sent ++ [.stopPending], cancelled := true } := by
      refine ⟨⟨n, ?_⟩, hdelivered.draining, h.connected, h.early, by simp⟩
      show s.sent ++ [.stopPending] = _
      rw [hsent]
    cases c with
    | interrogate =>
      have hrunning : current = .running := by
        rw [Informed, hsent, List.replicate_succ', ← List.cons_append,
          List.getLast?_concat] at hcurrent
        exact hcurrent.symm
      refine ⟨?_, h.delivered, h.connected, h.early, h.cancelled⟩
      show Reported (s.sent ++ [current]) s.pc
      rw [hpc, hrunning, hsent]
      exact ⟨n + 1, congrArg _ (replicate_running n)⟩
    | stop => exact hstop
    | shutdown => exact hstop
    | other => exact h
  · exact h

/-- `Execute` receives what the server has returned. -/
theorem Sound.executeReturns (h : Sound s) {specific : Bool} {err : Option Str}
    {done : List (Option Str)} (hdone : s.done = err :: done)
    (hpc : (s.pc = .loop ∧ specific = true) ∨ (s.pc = .draining ∧ specific = false)) :
    Sound (s.executeReturns specific err done) := by
  have hserve : s.serve = .returned err ∧ done = [] := by
    have hdelivered := h.delivered
    cases hserve : s.serve with
    | returned err' =>
      rw [hserve] at hdelivered
      rcases hdelivered with ⟨hone, -⟩ | ⟨hnone, -⟩
      · rw [hdone] at hone
        cases hone
        exact ⟨rfl, rfl⟩
      · rw [hdone] at hnone
        cases hnone
    | unborn | listening | selecting | shutting => simp [hserve, hdone, Delivered] at hdelivered
  refine ⟨?_, ?_, h.connected, h.early, by simp [State.executeReturns]⟩
  · show Reported (s.sent ++ [.stopped]) (.returned specific (exitCode err))
    have hreported := h.reported
    rcases hpc with ⟨hpc, rfl⟩ | ⟨hpc, rfl⟩
    · rw [hpc] at hreported
      obtain ⟨n, hsent⟩ := hreported
      exact ⟨n, by rw [hsent]; simp⟩
    · rw [hpc] at hreported
      obtain ⟨n, hsent⟩ := hreported
      exact ⟨n, by rw [hsent]; simp⟩
  · show Delivered (.returned specific (exitCode err)) done s.serve
    rw [hserve.1, hserve.2]
    exact .inr ⟨rfl, specific, rfl⟩

theorem Sound.listen (h : Sound s) (err : Option Str) : Sound (step s (.listen err)) := by
  have hdelivered := h.delivered
  rw [step.eq_def]
  dsimp only
  split
  · rename_i hserve
    rw [hserve] at hdelivered
    cases err with
    | some e => exact h.serveReturns hdelivered.1 hdelivered.2 (some e)
    | none =>
      have hconnected := h.connected
      rw [h.early (.inr hserve)] at hconnected
      refine ⟨h.reported, hdelivered, ⟨hconnected, by simp⟩, fun hserve => ?_, h.cancelled⟩
      rcases hserve with hserve | hserve <;> cases hserve
  · exact h

theorem Sound.httpServe (h : Sound s) (err : Option Str) : Sound (step s (.httpServe err)) := by
  rw [step]
  split
  · rename_i hhttp
    have hconnected := h.connected
    rw [hhttp] at hconnected
    refine ⟨h.reported, h.delivered, ⟨?_, hconnected.2⟩, fun hserve => ?_, h.cancelled⟩
    · show (s.errCh ++ [err]).length ≤ 1
      rw [hconnected.1]
      exact Nat.le_refl 1
    · exact absurd hserve (not_or.mpr hconnected.2)
  · exact h

theorem Sound.failure (h : Sound s) : Sound (step s .failure) := by
  have hdelivered := h.delivered
  rw [step.eq_def]
  dsimp only
  split
  · rename_i err errCh hserve herr
    rw [hserve] at hdelivered
    have hdrained : Sound { s with errCh := errCh } := by
      refine ⟨h.reported, h.delivered, ?_, h.early, h.cancelled⟩
      have hconnected := h.connected
      show Connected s.serve errCh s.http
      rw [herr] at hconnected
      cases hhttp : s.http with
      | unborn | serving => simp [hhttp, Connected] at hconnected
      | finished =>
        rw [hhttp] at hconnected
        exact ⟨Nat.le_of_succ_le hconnected.1, hconnected.2⟩
    exact hdrained.serveReturns hdelivered.1 hdelivered.2 err
  · exact h

/-- `Execute` has cancelled while the server runs, so it drains. -/
theorem Sound.cancellation (h : Sound s) : Sound (step s .cancellation) := by
  have hdelivered := h.delivered
  rw [step]
  split
  · rename_i hserve
    split
    · rename_i hcancelled
      rw [hserve] at hdelivered
      have hpc : s.pc = .draining := by
        rcases h.cancelled.mp hcancelled with hpc | ⟨specific, code, hpc⟩
        · exact hpc
        · rw [hpc] at hdelivered
          simp [Delivered] at hdelivered
      refine ⟨h.reported, ⟨hdelivered.1, hpc⟩, h.connected.mono (by simp), fun hserve => ?_,
        h.cancelled⟩
      rcases hserve with hserve | hserve <;> cases hserve
    · exact h
  · exact h

theorem Sound.step (h : Sound s) (e : Event) (he : Informed s e) : Sound (step s e) := by
  cases e with
  | execute => exact h.execute
  | request c current => exact h.request c he
  | receive =>
    rw [Service.step.eq_def]
    dsimp only
    split
    · exact h
    · rename_i err done hdone
      split
      · exact h.executeReturns hdone (.inl ⟨‹_›, rfl⟩)
      · exact h.executeReturns hdone (.inr ⟨‹_›, rfl⟩)
      · exact h
  | listen err => exact h.listen err
  | httpServe err => exact h.httpServe err
  | failure => exact h.failure
  | cancellation => exact h.cancellation
  | shutdown err =>
    rw [Service.step]
    split
    · rename_i hserve
      have hdelivered := h.delivered
      rw [hserve] at hdelivered
      exact h.serveReturns hdelivered.1 (.inr (.inr hdelivered.2)) err
    · exact h

/-! ## Every order of events -/

/-- The steps that are left after a stop was asked for, with any results of the calls.  One that
has been made already does nothing. -/
def stopping (listenErr shutdownErr : Option Str) : List Event :=
  [.listen listenErr, .cancellation, .shutdown shutdownErr, .receive]

theorem Sound.stops (h : Sound s) (hpc : s.pc = .draining) (listenErr shutdownErr : Option Str) :
    ∃ code, (run Service.step s (stopping listenErr shutdownErr)).pc = .returned false code := by
  have hcancelled : s.cancelled = true := h.cancelled.mpr (.inl hpc)
  have hdelivered := h.delivered
  rw [hpc] at hdelivered
  cases hserve : s.serve with
  | unborn => simp [hserve, Delivered] at hdelivered
  | listening =>
    rw [hserve] at hdelivered
    cases listenErr with
    | some e =>
      refine ⟨exitCode (some e), ?_⟩
      simp [run, stopping, Service.step, State.serveReturns, State.executeReturns, hserve, hpc,
        hdelivered.1]
    | none =>
      refine ⟨exitCode shutdownErr, ?_⟩
      simp [run, stopping, Service.step, State.serveReturns, State.executeReturns, hserve, hpc,
        hdelivered.1, hcancelled]
  | selecting =>
    rw [hserve] at hdelivered
    refine ⟨exitCode shutdownErr, ?_⟩
    simp [run, stopping, Service.step, State.serveReturns, State.executeReturns, hserve, hpc,
      hdelivered.1, hcancelled]
  | shutting =>
    rw [hserve] at hdelivered
    refine ⟨exitCode shutdownErr, ?_⟩
    simp [run, stopping, Service.step, State.serveReturns, State.executeReturns, hserve, hpc,
      hdelivered.1]
  | returned err =>
    rw [hserve] at hdelivered
    have hdone : s.done = [err] := by simpa [Delivered] using hdelivered
    refine ⟨exitCode err, ?_⟩
    simp [run, stopping, Service.step, State.executeReturns, hserve, hpc, hdone]

/-- Whatever the manager asks for, the server does and the scheduler chooses: the reported
states are `StartPending`, `Running` once and again for each interrogation, `StopPending` if a
stop was asked for, and `Stopped` as the last one.  When it is reported, `Serve` has returned,
and `Execute` returns the code of its error.  Neither `done` nor `errCh` ever holds more than it
has room for.  Once a stop was asked for, the steps that are left end in `Stopped`. -/
theorem service_lifecycle (events : List Event) (hinformed : Along step Informed start events) :
    let s := run step start events
    Reported s.sent s.pc ∧
      (∀ specific code, s.pc = .returned specific code →
        ∃ err, s.serve = .returned err ∧ code = exitCode err) ∧
      s.done.length ≤ 1 ∧ s.errCh.length ≤ 1 ∧
      (s.pc = .draining → ∀ listenErr shutdownErr,
        ∃ code, (run step s (stopping listenErr shutdownErr)).pc = .returned false code) := by
  intro s
  have hsound : Sound s := inv_run (fun s e h he => h.step e he) sound_start hinformed
  refine ⟨hsound.reported, fun specific code hpc => ?_, ?_, ?_, fun hpc => hsound.stops hpc⟩
  · have hdelivered := hsound.delivered
    rw [hpc] at hdelivered
    cases hserve : s.serve with
    | returned err =>
      rw [hserve] at hdelivered
      have hreceived : s.done = [] ∧ code = exitCode err := by simpa [Delivered] using hdelivered
      exact ⟨err, rfl, hreceived.2⟩
    | unborn | listening | selecting | shutting => simp [hserve, Delivered] at hdelivered
  · have hdelivered := hsound.delivered
    cases hserve : s.serve with
    | returned err =>
      rw [hserve] at hdelivered
      rcases hdelivered with ⟨hdone, -⟩ | ⟨hdone, -⟩ <;> simp [hdone]
    | unborn | listening | selecting | shutting => simp_all [Delivered]
  · have hconnected := hsound.connected
    cases hhttp : s.http <;> simp_all [Connected]

/-- An interrogation, and a stop before which the server has failed. -/
def failedStop : List Event :=
  [.execute, .execute, .listen none, .execute, .request .interrogate .running,
    .httpServe (some "accept".toList), .request .stop .running, .failure, .receive]

theorem failedStop_lifecycle :
    Along step Informed start failedStop ∧
      (run step start failedStop).pc = .returned false 1 ∧
      Reported (run step start failedStop).sent (.returned false 1) ∧
      ∃ err, (run step start failedStop).serve = .returned err ∧ 1 = exitCode err := by
  have hinformed : Along step Informed start failedStop := by
    refine ⟨?_, ?_, ?_, ?_, ?_, ?_, ?_, ?_, ?_, trivial⟩ <;> decide
  have hpc : (run step start failedStop).pc = .returned false 1 := by rfl
  obtain ⟨hreported, hcode, -⟩ := service_lifecycle failedStop hinformed
  rw [hpc] at hreported
  exact ⟨hinformed, hpc, hreported, hcode false 1 hpc⟩

end Service
end Server
end MkyBoot
