import MkyBoot.Rounding
import MkyBoot.Server.Http

/-!
# What is reported of a session

A client learns from its heartbeat whether it is locked, the administrator from
`GET /api/client/{id}/state`.  Both answers have the same fields, and each handler
works them out for itself: the heartbeat sets the lock of an expired session first,
and the other one reports the record as it finds it.  A session has expired after the
instant at which it ends, and has no time left from that instant on.

`views_agree_iff` says for which records the two answers agree and a session without
time left is reported as locked, and `expired_locked_iff` which heartbeats report an
expired session as locked: the handler drops the locked record and answers with the one
before it where the lock cannot be saved.
-/

namespace MkyBoot
namespace Server

open Go Machine

/-! ## The answers -/

/-- The longest `time.Duration`. -/
def maxDuration : ℤ := 2 ^ 63 - 1

/-- A second in nanoseconds. -/
def second : ℤ := 1000000000

/-- `Remaining`.  The difference of two instants stops at the longest duration. -/
def ClientState.remaining (st : ClientState) (now : Time) : ℤ :=
  match st.sessionExpiresAt with
  | none => 0
  | some exp => if 0 < exp - now then min (exp - now) maxDuration else 0

/-- `Seconds`, whose sums and quotients are rounded. -/
def durationSeconds (d : ℤ) : ℚ :=
  float64 (float64 (d / second : ℤ) + float64 ((d % second : ℤ) / second))

/-- Past `2 ^ 24` seconds the last nanosecond is lost. -/
example : durationSeconds (86400 * 100 * second - 1) < 86400 * 100 ∧
    durationSeconds (86400 * 200 * second - 1) = 86400 * 200 := by
  decide +kernel

/-- The fields of both answers. -/
structure View where
  clientID : Str
  locked : Bool
  lockReason : Str
  /-- In whole seconds, `int` of the seconds. -/
  sessionRemaining : ℤ
  sessionExpiresAt : Option Time

structure BeatView extends View where
  online : Bool
  serverTime : Time

def ClientState.view (st : ClientState) (id : Str) (now : Time) : View :=
  { clientID := id, locked := st.locked, lockReason := st.lockReason
    sessionRemaining := ⌊durationSeconds (st.remaining now)⌋
    sessionExpiresAt := st.sessionExpiresAt }

/-- The answer to the administrator, if the client is known. -/
def stateView (s : State) (id : Str) (now : Time) : Option View :=
  (getState s id).map fun st => st.view id now

section Heartbeat

variable {Text : Type} (json : Json Text)

/-- The copy that a heartbeat answers with: that of `SetLock`, where it is called and
succeeds, and else that of `GetState`. -/
def enforced (p : Process Text) (id : Str) (now : Time) (lockFault : Option Fault) :
    ClientState × Process Text :=
  let st := (getState p.memory id).getD (.fresh [])
  if st.expired now && !st.locked then
    match call json p (.setLock id true "session expired".toList) lockFault with
    | (.state st2, p) => (st2, p)
    | (_, p) => (st, p)
  else (st, p)

/-- A heartbeat with a token: the body of its answer, unless that is an error. -/
def heartbeatView (p : Process Text) (token : Str) (now : Time) (fault lockFault : Option Fault) :
    Option BeatView × Process Text :=
  match call json p (.heartbeat token now) fault with
  | (.client c true, p) =>
    let (st, p) := enforced json p c.id now lockFault
    (some { st.view c.id now with online := true, serverTime := now }, p)
  | (_, p) => (none, p)

/-! ## The handlers -/

variable {json} {Body : Type} {codec : Codec Body} {sys : Filepath.Sys} {w : World Text sys}
  {v : Visit Body}

theorem enforceExpiry_process (c : Client) :
    (enforceExpiry json w c v).2.process = (enforced json w.process c.id v.now v.lockFault).2 := by
  rw [enforceExpiry, enforced]
  split
  · rw [World.calls]
    split
    · rename_i h
      rw [h]
    · rename_i h
      rw [h]
  · rfl

theorem enforceExpiry_response (c : Client) : (enforceExpiry json w c v).1 = .json 200 := by
  rw [enforceExpiry]
  split
  · rfl
  · rfl

/-- The handler of heartbeats answers with this body, or with an error. -/
theorem handleHeartbeat_eq (hmethod : v.method = .post) {token : Str}
    (hbody : codec.heartbeat v.body = .ok token) :
    (handleHeartbeat codec json w v).2.process =
        (heartbeatView json w.process token v.now v.fault v.lockFault).2 ∧
      ((handleHeartbeat codec json w v).1 = .json 200 ↔
        (heartbeatView json w.process token v.now v.fault v.lockFault).1.isSome = true) := by
  rw [handleHeartbeat, heartbeatView, if_neg (not_not.mpr hmethod), hbody]
  dsimp only
  cases hcall : call json w.process (.heartbeat token v.now) v.fault with
  | mk reply p =>
    cases reply with
    | client c flag =>
      cases flag with
      | true => exact ⟨enforceExpiry_process c, by simp [enforceExpiry_response c]⟩
      | false => exact ⟨rfl, by simp⟩
    | error e => exact ⟨rfl, by simp⟩
    | panicked => exact ⟨rfl, by simp [internalError]⟩
    | unknownToken | state st | started => exact ⟨rfl, by simp⟩

/-- So does the handler of the administrator's request. -/
theorem handleClientItem_eq (hadmin : requireAdmin codec w v.toRequest = true)
    (hmethod : v.method = .get) {id : Str} {rest : List Str}
    (hpath : (trimLeading "/api/client/".toList v.path).splitOn '/' =
      id :: "state".toList :: rest) :
    (handleClientItem codec json w v).2 = w ∧
      ((handleClientItem codec json w v).1 = .json 200 ↔
        (stateView w.process.memory id v.now).isSome = true) := by
  rw [handleClientItem, hadmin, hpath, stateView]
  dsimp only
  rw [if_neg (by decide), if_pos rfl, if_neg (not_not.mpr hmethod)]
  cases getState w.process.memory id with
  | none | some st => exact ⟨rfl, by simp [World.answers]⟩

end Heartbeat

/-! ## What they report -/

theorem ClientState.expired_iff (st : ClientState) (now : Time) :
    st.expired now = true ↔ ∃ exp, st.sessionExpiresAt = some exp ∧ exp < now := by
  rw [ClientState.expired]
  cases st.sessionExpiresAt with
  | none => simp
  | some exp => simp

theorem clamp_eq_zero_iff {a b longest : ℤ} (h : 0 < longest) :
    (if 0 < a - b then min (a - b) longest else 0) = 0 ↔ a ≤ b := by
  split
  · omega
  · omega

/-- No time is left from the end of the session on. -/
theorem ClientState.remaining_eq_zero_iff {st : ClientState} {exp : Time}
    (h : st.sessionExpiresAt = some exp) (now : Time) : st.remaining now = 0 ↔ exp ≤ now := by
  rw [ClientState.remaining, h]
  exact clamp_eq_zero_iff (by decide)

/-- The two answers to one client agree, and a session without time left is locked. -/
structure Agree (st : ClientState) (now : Time) (beat : Option BeatView) (admin : Option View) :
    Prop where
  same : ∀ a ∈ beat, ∀ b ∈ admin, a.locked = b.locked
  elapsed : st.sessionExpiresAt ≠ none → st.remaining now = 0 →
    (∀ a ∈ beat, a.locked = true) ∧ ∀ b ∈ admin, b.locked = true

theorem ClientState.expired_of_running {st : ClientState} {now : Time}
    (h : ∀ exp, st.sessionExpiresAt = some exp → now < exp) : st.expired now = false := by
  rw [Bool.eq_false_iff, ne_eq, ClientState.expired_iff]
  rintro ⟨exp, hexp, hover⟩
  exact lt_asymm (h exp hexp) hover

/-- The lock that a heartbeat sets is the only difference between the two answers. -/
theorem agree_iff {st : ClientState} {now : Time} {saves : Bool} {beat : Option BeatView} {b : View}
    (hbeat : ∀ a ∈ beat, a.locked = (st.locked || (st.expired now && saves)))
    (hadmin : b.locked = st.locked) :
    Agree st now beat (some b) ↔
      st.locked = true ∨ ∀ exp, st.sessionExpiresAt = some exp → now < exp := by
  constructor
  · intro h
    refine or_iff_not_imp_left.mpr fun hlocked exp hexp => lt_of_not_ge fun hover => hlocked ?_
    have hzero := (ClientState.remaining_eq_zero_iff hexp now).mpr hover
    rw [← hadmin]
    exact (h.elapsed (by simp [hexp]) hzero).2 b rfl
  · rintro (hlocked | hrunning)
    · rw [hlocked, Bool.true_or] at hbeat
      rw [hlocked] at hadmin
      refine ⟨fun a ha b' hb' => ?_, fun _ _ => ⟨hbeat, fun b' hb' => ?_⟩⟩
      · rw [hbeat a ha, ← Option.some.inj hb', hadmin]
      · rw [← Option.some.inj hb', hadmin]
    · -- the heartbeat has nothing to enforce
      rw [ClientState.expired_of_running hrunning, Bool.false_and, Bool.or_false] at hbeat
      refine ⟨fun a ha b' hb' => ?_, fun htimer hzero => ?_⟩
      · rw [hbeat a ha, ← Option.some.inj hb', hadmin]
      · obtain ⟨exp, hexp⟩ := Option.ne_none_iff_exists'.mp htimer
        have hover := (ClientState.remaining_eq_zero_iff hexp now).mp hzero
        exact absurd (hrunning exp hexp) (not_lt_of_ge hover)

section Reachable

variable {Text : Type} (json : Json Text) {p : Process Text} {token id : Str} {st : ClientState}
  (now : Time)

/-- `SetLock` of a known client answers with a lock, unless it cannot be saved. -/
theorem call_setLock {c : Client} (hc : p.memory.clients[id]? = some c) (reason : Str)
    (fault : Option Fault) :
    (∃ st2, (call json p (.setLock id true reason) fault).1 = .state st2 ∧ st2.locked = true ∧
        fault = none) ∨
      ∃ f, (call json p (.setLock id true reason) fault).1 = .error (.persist f) ∧
        fault = some f := by
  have hknown : p.memory.clients[id]? ≠ none := by simp [hc]
  rw [call, Call.attempt, setLock, if_neg hknown, editState]
  cases fault with
  | none => exact Or.inl ⟨_, rfl, rfl, rfl⟩
  | some f => exact Or.inr ⟨f, rfl, rfl⟩

theorem enforced_locked {c : Client} (hc : p.memory.clients[id]? = some c)
    (hst : p.memory.states[id]? = some st) (lockFault : Option Fault) :
    (enforced json p id now lockFault).1.locked =
      (st.locked || (st.expired now && lockFault.isNone)) := by
  have hget : (getState p.memory id).getD (.fresh []) = st := by
    rw [getState, hst]
    rfl
  rw [enforced, hget]
  by_cases hexpired : (st.expired now && !st.locked) = true
  · rw [if_pos hexpired]
    rw [Bool.and_eq_true, Bool.not_eq_true'] at hexpired
    rw [hexpired.1, hexpired.2]
    have hcalled := call_setLock json hc "session expired".toList lockFault
    cases hcall : call json p (.setLock id true "session expired".toList) lockFault with
    | mk reply q =>
      rw [hcall] at hcalled
      obtain ⟨st2, hreply, hlocked, hfault⟩ | ⟨f, hreply, hfault⟩ := hcalled
      · have hstate : reply = .state st2 := hreply
        rw [hstate, hfault]
        exact hlocked
      · have herror : reply = .error (.persist f) := hreply
        rw [herror, hfault]
        exact hexpired.2
  · rw [if_neg hexpired]
    rw [Bool.and_eq_true, Bool.not_eq_true', not_and, Bool.not_eq_false] at hexpired
    cases hlocked : st.locked with
    | true => rfl
    | false =>
      cases hexp : st.expired now with
      | true => exact absurd ((hexpired hexp).symm.trans hlocked) (by decide)
      | false => rfl

/-- The lock a heartbeat reports. -/
theorem heartbeatView_locked (hinv : Inv p.memory) (hid : p.memory.byToken[token]? = some id)
    (hst : p.memory.states[id]? = some st) (fault lockFault : Option Fault) :
    ∀ a ∈ (heartbeatView json p token now fault lockFault).1,
      a.locked = (st.locked || (st.expired now && lockFault.isNone)) := by
  have htracks : Tracks token id now { process := p, beat := .start } := ⟨hinv, hid, trivial⟩
  obtain ⟨cl, hcl⟩ := htracks.client
  intro a ha
  rw [heartbeatView] at ha
  cases hcall : call json p (.heartbeat token now) fault with
  | mk reply q =>
    rw [hcall] at ha
    have hmemory : q.memory = (heartbeat p.memory token now).memory := by
      have h := call_memory json p (.heartbeat token now) fault
      rw [hcall] at h
      exact h
    have hq : q.memory = { p.memory with
        clients := p.memory.clients.insert id { cl with lastSeen := now } } := by
      rw [hmemory, heartbeat, hid]
      dsimp only
      rw [hcl]
      rfl
    cases reply with
    | client c flag =>
      cases flag with
      | false => cases ha
      | true =>
        have hc : c.id = id := htracks.count_beat hcall
        have hclient : q.memory.clients[id]? = some { cl with lastSeen := now } := by
          rw [hq]
          exact Std.ExtTreeMap.getElem?_insert_self
        have hrecord : q.memory.states[id]? = some st := by
          rw [hq]
          exact hst
        rw [← Option.some.inj ha]
        show (enforced json q c.id now lockFault).1.locked = _
        rw [hc, enforced_locked json now hclient hrecord]
    | error e | panicked | unknownToken | state _ | started => cases ha

/-- A heartbeat with a known token is answered unless it cannot be saved. -/
theorem heartbeatView_isSome_iff (hinv : Inv p.memory) (hid : p.memory.byToken[token]? = some id)
    (fault lockFault : Option Fault) :
    (heartbeatView json p token now fault lockFault).1.isSome = true ↔ fault = none := by
  obtain ⟨cl, hcl, -⟩ := (hinv.byToken _ _).mp hid
  have hattempt : (Call.heartbeat token now).attempt p.memory =
      .persists (.client { cl with lastSeen := now } true)
        { p.memory with clients := p.memory.clients.insert id { cl with lastSeen := now } } := by
    rw [Call.attempt, heartbeat, hid]
    dsimp only
    rw [hcl]
  rw [heartbeatView, call, hattempt]
  cases fault with
  | none => exact iff_of_true rfl rfl
  | some f => exact iff_of_false Bool.false_ne_true (Option.some_ne_none f)

theorem stateView_locked (hst : p.memory.states[id]? = some st) :
    ∃ b, stateView p.memory id now = some b ∧ b.locked = st.locked := by
  refine ⟨st.view id now, ?_, rfl⟩
  rw [stateView, getState, hst]
  rfl

end Reachable

/-- In every reachable state, for every client and at every instant, whatever can be
saved: the client has a record, and the heartbeat and the administrator's request report
it alike, as locked when no time is left, exactly if it is locked or its session is not
over. -/
theorem views_agree_iff {Text : Type} (json : Json Text) (ops : List Op)
    (htokens : (ops.filterMap Op.token).Nodup) (p : Process Text)
    (hp : p = run (step json) boot ops) (token id : Str)
    (hid : p.memory.byToken[token]? = some id) (now : Time) (fault lockFault : Option Fault) :
    ∃ st, p.memory.states[id]? = some st ∧
      (Agree st now (heartbeatView json p token now fault lockFault).1
          (stateView p.memory id now) ↔
        st.locked = true ∨ ∀ exp, st.sessionExpiresAt = some exp → now < exp) := by
  have hinv : Inv p.memory := by
    rw [hp]
    exact inv_run_boot json ops htokens
  obtain ⟨cl, hcl, -⟩ := (hinv.byToken _ _).mp hid
  obtain ⟨st, hst⟩ := Option.ne_none_iff_exists'.mp (hinv.record hcl)
  have hbeat := heartbeatView_locked json now hinv hid hst fault lockFault
  obtain ⟨b, hb, hadmin⟩ := stateView_locked (p := p) now hst
  rw [hb]
  exact ⟨st, hst, agree_iff hbeat hadmin⟩

/-! The client with a session of one minute, during the session, at its end and after it. -/

theorem running_session_agrees :
    ∃ st, afterSession.memory.states["client-0001".toList]? = some st ∧
      Agree st 0 (heartbeatView plainJson afterSession (token 'a').text 0 none none).1
        (stateView afterSession.memory "client-0001".toList 0) := by
  have htokens : (oneSession.filterMap Op.token).Nodup := by decide
  have hid : afterSession.memory.byToken[(token 'a').text]? = some "client-0001".toList := by
    decide +kernel
  obtain ⟨st, hst, hiff⟩ := views_agree_iff plainJson oneSession htokens afterSession rfl _ _ hid
    0 none none
  refine ⟨st, hst, hiff.mpr (Or.inr ?_)⟩
  have hends : (afterSession.memory.states["client-0001".toList]?).map (·.sessionExpiresAt) =
      some (some minute) := by
    decide +kernel
  rw [hst] at hends
  intro exp hexp
  rw [Option.map_some, hexp] at hends
  rw [Option.some.inj (Option.some.inj hends)]
  decide

/-- The locks that are reported at an instant, the client's first. -/
def reported (now : Time) : Option Bool × Option Bool :=
  ((heartbeatView plainJson afterSession (token 'a').text now none none).1.map (·.locked),
    (stateView afterSession.memory "client-0001".toList now).map (·.locked))

/-- After the end of the session the answers differ, and at its end both miss the lock. -/
theorem ended_session_disagrees :
    reported (2 * minute) = (some true, some false) ∧
      reported minute = (some false, some false) ∧
      ∃ st, afterSession.memory.states["client-0001".toList]? = some st ∧
        st.sessionExpiresAt = some minute ∧ st.remaining minute = 0 ∧
        ¬ Agree st minute (heartbeatView plainJson afterSession (token 'a').text minute none none).1
          (stateView afterSession.memory "client-0001".toList minute) ∧
        ¬ Agree st (2 * minute)
          (heartbeatView plainJson afterSession (token 'a').text (2 * minute) none none).1
          (stateView afterSession.memory "client-0001".toList (2 * minute)) := by
  have hafter : reported (2 * minute) = (some true, some false) := by decide +kernel
  have hend : reported minute = (some false, some false) := by decide +kernel
  have hrecord : (afterSession.memory.states["client-0001".toList]?).map (·.sessionExpiresAt) =
      some (some minute) := by
    decide +kernel
  obtain ⟨st, hst, hexp⟩ := Option.map_eq_some_iff.mp hrecord
  have hzero := (ClientState.remaining_eq_zero_iff hexp minute).mpr le_rfl
  refine ⟨hafter, hend, st, hst, hexp, hzero, ?_, ?_⟩
  · intro h
    obtain ⟨a, ha, hlocked⟩ := Option.map_eq_some_iff.mp (Prod.mk.inj hend).1
    have htrue := (h.elapsed (by simp [hexp]) hzero).1 a ha
    exact absurd (hlocked.symm.trans htrue) (by decide)
  · intro h
    obtain ⟨a, ha, hlocked⟩ := Option.map_eq_some_iff.mp (Prod.mk.inj hafter).1
    obtain ⟨b, hb, hopen⟩ := Option.map_eq_some_iff.mp (Prod.mk.inj hafter).2
    have hsame := h.same a ha b hb
    rw [hlocked, hopen] at hsame
    exact absurd hsame (by decide)

/-! ## A lock that cannot be saved -/

/-- In every reachable state and for every client, at every instant after the end of the
session: what is answered to a heartbeat has the lock exactly if the record has it already
or the lock can be saved.  A heartbeat that cannot be saved itself is no answer. -/
theorem expired_locked_iff {Text : Type} (json : Json Text) (ops : List Op)
    (htokens : (ops.filterMap Op.token).Nodup) (p : Process Text)
    (hp : p = run (step json) boot ops) (token id : Str)
    (hid : p.memory.byToken[token]? = some id) (st : ClientState)
    (hst : p.memory.states[id]? = some st) (exp now : Time) (hexp : st.sessionExpiresAt = some exp)
    (hover : exp < now) (fault lockFault : Option Fault) :
    (∀ a ∈ (heartbeatView json p token now fault lockFault).1, a.locked = true) ↔
      fault ≠ none ∨ st.locked = true ∨ lockFault = none := by
  have hinv : Inv p.memory := by
    rw [hp]
    exact inv_run_boot json ops htokens
  have hbeat := heartbeatView_locked json now hinv hid hst fault lockFault
  have hsome := heartbeatView_isSome_iff json now hinv hid fault lockFault
  have hexpired : st.expired now = true := (ClientState.expired_iff st now).mpr ⟨exp, hexp, hover⟩
  rw [hexpired, Bool.true_and] at hbeat
  cases hanswer : (heartbeatView json p token now fault lockFault).1 with
  | none =>
    rw [hanswer] at hsome
    exact iff_of_true (by simp) (Or.inl fun hnone => absurd (hsome.mpr hnone) Bool.false_ne_true)
  | some a =>
    rw [hanswer] at hbeat hsome
    have hfault : ¬ fault ≠ none := not_not.mpr (hsome.mp rfl)
    rw [or_iff_right hfault, ← Option.isNone_iff_eq_none, ← Bool.or_eq_true, ← hbeat a rfl]
    simp

theorem saved_lock_reported : ∃ a, (heartbeatView plainJson afterSession (token 'a').text
    (2 * minute) none none).1 = some a ∧ a.locked = true := by
  have htokens : (oneSession.filterMap Op.token).Nodup := by decide
  have hid : afterSession.memory.byToken[(token 'a').text]? = some "client-0001".toList := by
    decide +kernel
  have hrecord : (afterSession.memory.states["client-0001".toList]?).map (·.sessionExpiresAt) =
      some (some minute) := by
    decide +kernel
  have hsome : ((heartbeatView plainJson afterSession (token 'a').text (2 * minute) none
      none).1).isSome = true := by
    decide +kernel
  obtain ⟨st, hst, hexp⟩ := Option.map_eq_some_iff.mp hrecord
  obtain ⟨a, ha⟩ := Option.isSome_iff_exists.mp hsome
  have hover : minute < 2 * minute := by decide
  exact ⟨a, ha, (expired_locked_iff plainJson oneSession htokens afterSession rfl _ _ hid st hst
    minute (2 * minute) hexp hover none none).mpr (Or.inr (Or.inr rfl)) a ha⟩

/-- The lock cannot be saved: the record in memory has it, the answer does not. -/
theorem unsaved_lock_missing :
    let beat := heartbeatView plainJson afterSession (token 'a').text (2 * minute) none (some .sync)
    afterSession.memory.states["client-0001".toList]?.map (·.sessionExpiresAt) =
      some (some minute) ∧
      beat.1.map (·.locked) = some false ∧
      beat.2.memory.states["client-0001".toList]?.map (·.locked) = some true := by
  decide +kernel

end Server
end MkyBoot
