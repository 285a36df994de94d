import MkyBoot.Server.Invariant

/-!
# Expiry and the administrator

`handleHeartbeat` takes the lock of the store three times: `Heartbeat`, `GetState`
and, when the copy it got shows an expired timer and no lock, `SetLock`.  Requests
of the administrator come in between.  A lock that the heartbeat sets stays until
the administrator unlocks, also when the timer is ended or started again after it.
`unlocked_unless_expired` says what is left of an unlock once the heartbeat is through.
-/

namespace MkyBoot
namespace Server

open Go Machine

/-! ## Requests of the administrator -/

inductive Admin where
  | lock (id : Str)
  | unlock (id : Str)
  | startSession (id : Str) (minutes : ℤ) (now : Time)
  | endSession (id : Str)

/-- A minute in nanoseconds. -/
def minute : ℤ := 60000000000

/-- The operation a request calls.  A session of no or too many minutes is refused by
the handler. -/
def Admin.call : Admin → Option Call
  | .lock id => some (.setLock id true "lock".toList)
  | .unlock id => some (.setLock id false "unlock".toList)
  | .startSession id minutes now =>
    if minutes ≤ 0 ∨ 24 * 60 < minutes then none
    else some (.startSession id (minutes * minute) now)
  | .endSession id => some (.endSession id)

/-- The request decides whether the client is locked. -/
def Admin.decides (id : Str) : Admin → Bool
  | .lock id' => id' = id
  | .unlock id' => id' = id
  | _ => false

def Admin.target : Admin → Str
  | .lock id => id
  | .unlock id => id
  | .startSession id _ _ => id
  | .endSession id => id

/-! ## The heartbeat -/

/-- How far a heartbeat is: before its first critical section, after it with the id of
its client, after the second with a copy that calls for the third, or at its end,
with that copy if it went through the third. -/
inductive Beat where
  | start
  | counted (id : Str)
  | copied (id : Str) (st : ClientState)
  | finished (copy : Option ClientState)

/-- The heartbeat has set its lock. -/
def Beat.locked : Beat → Bool
  | .finished (some _) => true
  | _ => false

structure Scene (Text : Type) where
  process : Process Text
  beat : Beat

inductive Event where
  | admin (a : Admin) (fault : Option Fault)
  | beat (fault : Option Fault)

section Steps

variable {Text : Type} (json : Json Text) (token : Str) (now : Time)

/-- `state.Heartbeat` -/
def count (s : Scene Text) (fault : Option Fault) : Scene Text :=
  match call json s.process (.heartbeat token now) fault with
  | (.client c true, p) => { process := p, beat := .counted c.id }
  | (_, p) => { process := p, beat := .finished none }

/-- `GetState`, and the decision on the copy.  Without a record the copy is the zero
value, which has no timer. -/
def copy (s : Scene Text) (id : Str) : Scene Text :=
  match getState s.process.memory id with
  | some st =>
    if st.expired now && !st.locked then { s with beat := .copied id st }
    else { s with beat := .finished none }
  | none => { s with beat := .finished none }

/-- `SetLock` on that decision -/
def lock (s : Scene Text) (id : Str) (st : ClientState) (fault : Option Fault) : Scene Text :=
  { process := (call json s.process (.setLock id true "session expired".toList) fault).2
    beat := .finished (some st) }

def play (s : Scene Text) : Event → Scene Text
  | .admin a fault =>
    match a.call with
    | some c => { s with process := (call json s.process c fault).2 }
    | none => s
  | .beat fault =>
    match s.beat with
    | .start => count json token now s fault
    | .counted id => copy now s id
    | .copied id st => lock json s id st fault
    | .finished _ => s

/-- A heartbeat among requests of the administrator. -/
def scene (p : Process Text) (events : List Event) : Scene Text :=
  run (play json token now) { process := p, beat := .start } events

/-- No request of the administrator decides on the client. -/
def NoDecision (id : Str) (events : List Event) : Prop :=
  ∀ a fault, Event.admin a fault ∈ events → a.decides id = false

/-- Only requests of the administrator for other clients. -/
def Elsewhere (id : Str) (events : List Event) : Prop :=
  ∀ e ∈ events, ∃ a fault, e = Event.admin a fault ∧ a.target ≠ id

/-- From a scene, the heartbeat reads the record after `xs`, with an expired timer, and
no request for its client is in `ys`, after which it sets its lock. -/
structure Enforces (id : Str) (s : Scene Text) (xs ys : List Event) (st : ClientState) : Prop where
  counted : (run (play json token now) s xs).beat = .counted id
  record : (run (play json token now) s xs).process.memory.states[id]? = some st
  expired : st.expired now = true
  elsewhere : Elsewhere id ys

end Steps

/-! ## The lock of one client -/

def State.lockOf (s : State) (id : Str) : Option Bool := (s.states[id]?).map (·.locked)

/-- The lock a call leaves the client with. -/
def Call.lockAfter (c : Call) (id : Str) (old : Option Bool) : Option Bool :=
  match c with
  | .setLock id' locked _ => if id' = id then some locked else old
  | _ => old

theorem lockOf_editState {s : State} {id id' : Str} {edit : ClientState → ClientState}
    {l : Option Bool} (hrecord : s.states[id]? ≠ none)
    (hedit : ∀ st, s.states[id]? = some st → id' = id → some (edit st).locked = l)
    (hother : id' ≠ id → s.lockOf id = l) :
    (editState s id' edit).memory.lockOf id = l := by
  show ((s.states.insert id' _)[id]?).map _ = l
  by_cases hid : id' = id
  · subst hid
    obtain ⟨st, hst⟩ := Option.ne_none_iff_exists'.mp hrecord
    rw [Std.ExtTreeMap.getElem?_insert_self, hst]
    exact hedit st hst rfl
  · rw [getElem?_insert_of_ne s.states (Ne.symm hid)]
    exact hother hid

theorem lockOf_heartbeat (s : State) (token : Str) (now : Time) (id : Str) :
    (heartbeat s token now).memory.lockOf id = s.lockOf id := by
  rw [heartbeat]
  split
  · rfl
  split
  · rfl
  · rfl

/-- What a call makes of the lock of a client with a record. -/
theorem lockOf_attempt {s : State} {id : Str} {cl : Client} (hc : s.clients[id]? = some cl)
    (hrecord : s.states[id]? ≠ none) {c : Call} (hgen : c.generated = none) :
    (c.attempt s).memory.lockOf id = c.lockAfter id (s.lockOf id) := by
  -- an edit that leaves the lock
  have hkeep : ∀ (id' : Str) (edit : ClientState → ClientState),
      (∀ st, (edit st).locked = st.locked) →
        (editState s id' edit).memory.lockOf id = s.lockOf id := by
    intro id' edit hedit
    refine lockOf_editState hrecord ?_ fun _ => rfl
    intro st hst _
    rw [hedit, State.lockOf, hst]
    rfl
  cases c with
  | register name mac now tok => cases hgen
  | heartbeat token now => exact lockOf_heartbeat s token now id
  | setLock id' locked reason =>
    rw [Call.attempt, setLock, Call.lockAfter]
    split
    · rename_i hnone
      have hne : id' ≠ id := by
        intro heq
        rw [heq, hc] at hnone
        cases hnone
      rw [if_neg hne]
      rfl
    · refine lockOf_editState hrecord ?_ ?_
      · intro st _ heq
        rw [if_pos heq]
      · intro hne
        rw [if_neg hne]
  | startSession id' duration now =>
    rw [Call.attempt, startSession]
    split
    · rfl
    split
    · rfl
    · exact hkeep _ _ fun _ => rfl
  | endSession id' =>
    rw [Call.attempt, endSession]
    split
    · rfl
    · exact hkeep _ _ fun _ => rfl

/-- A call that generates no token keeps the invariant and the tokens. -/
theorem attempt_keeps {s : State} (h : Inv s) {c : Call} (hgen : c.generated = none) :
    Inv (c.attempt s).memory ∧ (c.attempt s).memory.byToken = s.byToken := by
  have hchange := attempt_change s c
  generalize (c.attempt s).memory = s' at hchange ⊢
  cases hchange with
  | none => exact ⟨h, rfl⟩
  | touch hc hid hmac htoken _ => exact ⟨h.touch hc hid hmac htoken, rfl⟩
  | skip hskip =>
    rw [hgen] at hskip
    cases hskip
  | add hadd =>
    rw [hgen] at hadd
    cases hadd
  | edit _ hst hown _ => exact ⟨h.edit (hst ▸ hown), rfl⟩

theorem call_memory {Text : Type} (json : Json Text) (p : Process Text) (c : Call)
    (fault : Option Fault) :
    (call json p c fault).2.memory = (c.attempt p.memory).memory := by
  rw [call]
  cases c.attempt p.memory with
  | stops reply s => rfl
  | persists reply s =>
    cases fault with
    | none => rfl
    | some f => rfl

/-! ## The heartbeat's client -/

/-- The heartbeat is at its client, and goes for the lock only on a copy that has no
lock and an expired timer. -/
def Beat.Wf (id : Str) (now : Time) : Beat → Prop
  | .start => True
  | .counted id' => id' = id
  | .copied id' st => id' = id ∧ st.expired now = true ∧ st.locked = false
  | .finished none => True
  | .finished (some st) => st.expired now = true ∧ st.locked = false

/-- The store has its invariant and the token is the client's. -/
structure Tracks {Text : Type} (token id : Str) (now : Time) (s : Scene Text) : Prop where
  inv : Inv s.process.memory
  known : s.process.memory.byToken[token]? = some id
  beat : s.beat.Wf id now

section Run

variable {Text : Type} {json : Json Text} {token id : Str} {now : Time} {s : Scene Text}

theorem Tracks.client (h : Tracks token id now s) :
    ∃ c, s.process.memory.clients[id]? = some c := by
  obtain ⟨c, hc, -⟩ := (h.inv.byToken _ _).mp h.known
  exact ⟨c, hc⟩

/-- A call that generates no token, with whatever the heartbeat does. -/
theorem Tracks.call (h : Tracks token id now s) {c : Call} (hgen : c.generated = none)
    (fault : Option Fault) {b : Beat} (hb : b.Wf id now) :
    Tracks token id now { process := (Server.call json s.process c fault).2, beat := b } := by
  obtain ⟨hinv, htokens⟩ := attempt_keeps h.inv hgen
  have hmemory := call_memory json s.process c fault
  refine ⟨?_, ?_, hb⟩
  · show Inv (Server.call json s.process c fault).2.memory
    rw [hmemory]
    exact hinv
  · show (Server.call json s.process c fault).2.memory.byToken[token]? = some id
    rw [hmemory, htokens, h.known]

theorem lockOf_call (h : Tracks token id now s) {c : Call} (hgen : c.generated = none)
    (fault : Option Fault) :
    (Server.call json s.process c fault).2.memory.lockOf id =
      c.lockAfter id (s.process.memory.lockOf id) := by
  obtain ⟨cl, hcl⟩ := h.client
  rw [call_memory]
  exact lockOf_attempt hcl (h.inv.record hcl) hgen

/-- `Heartbeat` answers with the client of the token. -/
theorem Tracks.count_beat (h : Tracks token id now s) {c : Client} {flag : Bool}
    {fault : Option Fault} {p : Process Text}
    (hcall : Server.call json s.process (.heartbeat token now) fault = (.client c flag, p)) :
    c.id = id := by
  obtain ⟨cl, hcl⟩ := h.client
  have hattempt : (Call.heartbeat token now).attempt s.process.memory =
      .persists (.client { cl with lastSeen := now } true)
        { s.process.memory with
          clients := s.process.memory.clients.insert id { cl with lastSeen := now } } := by
    show Server.heartbeat s.process.memory token now = _
    rw [Server.heartbeat, h.known]
    dsimp only
    rw [hcl]
  rw [Server.call, hattempt] at hcall
  cases fault with
  | some f =>
    injection hcall with hreply _
    cases hreply
  | none =>
    injection hcall with hreply _
    injection hreply with hclient _
    rw [← hclient]
    show cl.id = id
    exact h.inv.key hcl

theorem Admin.generated_eq_none {a : Admin} {c : Call} (h : a.call = some c) :
    c.generated = none := by
  cases a with
  | lock id | unlock id => exact Option.some.inj h ▸ rfl
  | startSession id minutes now =>
    rw [Admin.call] at h
    split at h
    · cases h
    · exact Option.some.inj h ▸ rfl
  | endSession id => exact Option.some.inj h ▸ rfl

theorem Tracks.count (h : Tracks token id now s) (fault : Option Fault) :
    Tracks token id now (count json token now s fault) := by
  rw [Server.count]
  cases hcall : Server.call json s.process (.heartbeat token now) fault with
  | mk reply p =>
    have hp : (Server.call json s.process (.heartbeat token now) fault).2 = p := by rw [hcall]
    split
    · rename_i c p' heq
      injection heq with hreply hp'
      have hid := h.count_beat (hreply ▸ hcall)
      rw [← hp', ← hp]
      exact h.call rfl fault hid
    · rename_i reply' p' _ heq
      injection heq with _ hp'
      rw [← hp', ← hp]
      exact h.call rfl fault trivial

theorem Tracks.copy (h : Tracks token id now s) :
    Tracks token id now (copy now s id) := by
  rw [Server.copy]
  split
  · split
    · rename_i st _ hcond
      rw [Bool.and_eq_true, Bool.not_eq_true'] at hcond
      exact ⟨h.inv, h.known, rfl, hcond⟩
    · exact ⟨h.inv, h.known, trivial⟩
  · exact ⟨h.inv, h.known, trivial⟩

theorem Tracks.play (h : Tracks token id now s) (e : Event) :
    Tracks token id now (play json token now s e) := by
  have hbeat := h.beat
  cases e with
  | admin a fault =>
    rw [Server.play]
    cases ha : a.call with
    | none => exact h
    | some c => exact h.call (Admin.generated_eq_none ha) fault h.beat
  | beat fault =>
    rw [Server.play]
    cases hb : s.beat with
    | start => exact h.count fault
    | counted id' =>
      rw [hb] at hbeat
      have hid : id' = id := hbeat
      subst hid
      exact h.copy
    | copied id' st =>
      rw [hb] at hbeat
      exact h.call rfl fault hbeat.2
    | finished copy => exact h

theorem count_process (fault : Option Fault) :
    (count json token now s fault).process =
      (Server.call json s.process (.heartbeat token now) fault).2 := by
  rw [Server.count]
  split
  · rename_i heq
    rw [heq]
  · rename_i heq
    rw [heq]

theorem count_locked (fault : Option Fault) :
    (count json token now s fault).beat.locked = false := by
  rw [Server.count]
  split
  · rfl
  · rfl

theorem copy_process (id' : Str) : (copy now s id').process = s.process := by
  rw [Server.copy]
  split
  · split
    · rfl
    · rfl
  · rfl

theorem copy_locked (id' : Str) : (copy now s id').beat.locked = false := by
  rw [Server.copy]
  split
  · split
    · rfl
    · rfl
  · rfl

/-- The lock of the client since a moment at which the client was unlocked and the
heartbeat had set its lock, or not (`past`). -/
structure Follows (token id : Str) (now : Time) (past : Bool) (s : Scene Text) : Prop
    extends Tracks token id now s where
  lock : s.process.memory.lockOf id = some (s.beat.locked && !past)
  mono : past = true → s.beat.locked = true

theorem Admin.lockAfter_eq {a : Admin} {c : Call} (ha : a.call = some c)
    (hdecides : a.decides id = false) (old : Option Bool) : c.lockAfter id old = old := by
  cases a with
  | lock id' =>
    rw [← Option.some.inj ha]
    exact if_neg (of_decide_eq_false hdecides)
  | unlock id' =>
    rw [← Option.some.inj ha]
    exact if_neg (of_decide_eq_false hdecides)
  | startSession id' minutes now =>
    rw [Admin.call] at ha
    split at ha
    · cases ha
    · rw [← Option.some.inj ha]
      rfl
  | endSession id' =>
    rw [← Option.some.inj ha]
    rfl

/-- Before the heartbeat has set its lock, it had not set it at the moment. -/
theorem Follows.past_eq {past : Bool} (h : Follows token id now past s)
    (hb : s.beat.locked = false) : past = false := by
  cases past with
  | false => rfl
  | true =>
    rw [h.mono rfl] at hb
    cases hb

/-- A step that neither sets the lock of the heartbeat nor decides on the client. -/
theorem Follows.keep {past : Bool} (h : Follows token id now past s) (hb : s.beat.locked = false)
    {s' : Scene Text} (htracks : Tracks token id now s')
    (hlock : s'.process.memory.lockOf id = s.process.memory.lockOf id)
    (hb' : s'.beat.locked = false) : Follows token id now past s' := by
  refine ⟨htracks, ?_, ?_⟩
  · rw [hlock, h.lock, hb, hb']
  · intro hpast
    rw [h.past_eq hb] at hpast
    cases hpast

theorem Follows.lock_beat {past : Bool} (h : Follows token id now past s) {st : ClientState}
    (hb : s.beat = .copied id st) (fault : Option Fault) :
    Follows token id now past (Server.lock json s id st fault) := by
  have hbeat := h.beat
  rw [hb] at hbeat
  have hpast : past = false := h.past_eq (by rw [hb]; rfl)
  refine ⟨h.toTracks.call rfl fault hbeat.2, ?_, fun _ => rfl⟩
  rw [hpast]
  show (Server.call json s.process (.setLock id true _) fault).2.memory.lockOf id = some true
  rw [lockOf_call h.toTracks rfl fault]
  exact if_pos rfl

theorem Follows.play {past : Bool} (h : Follows token id now past s) {e : Event}
    (he : ∀ a fault, e = .admin a fault → a.decides id = false) :
    Follows token id now past (play json token now s e) := by
  have htracks : Tracks token id now (Server.play json token now s e) := h.toTracks.play e
  have hbeat := h.beat
  cases e with
  | admin a fault =>
    rw [Server.play] at htracks ⊢
    cases ha : a.call with
    | none => exact h
    | some c =>
      rw [ha] at htracks
      refine ⟨htracks, ?_, h.mono⟩
      show (Server.call json s.process c fault).2.memory.lockOf id = some (s.beat.locked && !past)
      rw [lockOf_call h.toTracks (Admin.generated_eq_none ha) fault,
        Admin.lockAfter_eq ha (he a fault rfl), h.lock]
  | beat fault =>
    rw [Server.play] at htracks ⊢
    cases hb : s.beat with
    | start =>
      rw [hb] at htracks
      refine h.keep (by rw [hb]; rfl) htracks ?_ (count_locked fault)
      rw [count_process, lockOf_call h.toTracks rfl fault]
      rfl
    | counted id' =>
      rw [hb] at htracks
      refine h.keep (by rw [hb]; rfl) htracks ?_ (copy_locked id')
      rw [copy_process]
    | copied id' st =>
      rw [hb] at hbeat
      have hid : id' = id := hbeat.1
      subst hid
      exact h.lock_beat hb fault
    | finished copy => exact h

/-! ## Whole runs -/

theorem Tracks.run (h : Tracks token id now s) (events : List Event) :
    Tracks token id now (Machine.run (Server.play json token now) s events) := by
  induction events generalizing s with
  | nil => exact h
  | cons e events ih => exact ih (h.play e)

theorem Follows.run {past : Bool} (h : Follows token id now past s) {events : List Event}
    (hevents : NoDecision id events) :
    Follows token id now past (Machine.run (Server.play json token now) s events) := by
  induction events generalizing s with
  | nil => exact h
  | cons e events ih =>
    have he : ∀ a fault, e = .admin a fault → a.decides id = false := by
      intro a fault heq
      exact hevents a fault (heq ▸ List.mem_cons_self)
    exact ih (h.play he) fun a fault hmem => hevents a fault (List.mem_cons_of_mem e hmem)

/-- The unlock of the administrator starts it. -/
theorem Tracks.unlock (h : Tracks token id now s) (fault : Option Fault) :
    Follows token id now s.beat.locked
      (Server.play json token now s (.admin (.unlock id) fault)) := by
  refine ⟨h.play _, ?_, fun hpast => hpast⟩
  show (Server.call json s.process (.setLock id false _) fault).2.memory.lockOf id =
    some (s.beat.locked && !s.beat.locked)
  rw [lockOf_call h rfl fault, Bool.and_not_self]
  exact if_pos rfl

theorem record_editState_of_ne {m : State} {id' : Str} (hne : id' ≠ id)
    (edit : ClientState → ClientState) :
    (editState m id' edit).memory.states[id]? = m.states[id]? :=
  getElem?_insert_of_ne m.states (Ne.symm hne) _

/-- A request for another client leaves the record. -/
theorem record_admin {a : Admin} {c : Call} (ha : a.call = some c) (hne : a.target ≠ id)
    (m : State) : (c.attempt m).memory.states[id]? = m.states[id]? := by
  cases a with
  | lock id' =>
    rw [← Option.some.inj ha, Call.attempt, setLock]
    split
    · rfl
    · exact record_editState_of_ne hne _
  | unlock id' =>
    rw [← Option.some.inj ha, Call.attempt, setLock]
    split
    · rfl
    · exact record_editState_of_ne hne _
  | startSession id' minutes now =>
    rw [Admin.call] at ha
    split at ha
    · cases ha
    rw [← Option.some.inj ha, Call.attempt, startSession]
    split
    · rfl
    split
    · rfl
    · exact record_editState_of_ne hne _
  | endSession id' =>
    rw [← Option.some.inj ha, Call.attempt, endSession]
    split
    · rfl
    · exact record_editState_of_ne hne _

/-- Requests for other clients leave the heartbeat where it is, and the record. -/
theorem run_elsewhere (json : Json Text) (token : Str) (now : Time) (s : Scene Text)
    {events : List Event} (hevents : Elsewhere id events) :
    (run (play json token now) s events).beat = s.beat ∧
      (run (play json token now) s events).process.memory.states[id]? =
        s.process.memory.states[id]? := by
  induction events generalizing s with
  | nil => exact ⟨rfl, rfl⟩
  | cons e events ih =>
    obtain ⟨a, fault, rfl, hne⟩ := hevents e List.mem_cons_self
    have hrest : Elsewhere id events := fun e' he' => hevents e' (List.mem_cons_of_mem _ he')
    obtain ⟨hbeat, hrecord⟩ := ih (play json token now s (.admin a fault)) hrest
    rw [run_cons, hbeat, hrecord, play]
    cases ha : a.call with
    | none => exact ⟨rfl, rfl⟩
    | some c =>
      refine ⟨rfl, ?_⟩
      show (call json s.process c fault).2.memory.states[id]? = _
      rw [call_memory]
      exact record_admin ha hne _

/-- A heartbeat that reads an expired timer and finds no request for its client in the
way sets the lock. -/
theorem Follows.beat_expired {past : Bool} (h : Follows token id now past s)
    (hb : s.beat = .counted id) {st : ClientState}
    (hst : s.process.memory.states[id]? = some st) (hexpired : st.expired now = true)
    (f₁ f₂ : Option Fault) {between : List Event} (hbetween : Elsewhere id between) :
    (Machine.run (Server.play json token now) s (.beat f₁ :: between)).process.memory.states[id]? =
        some st ∧
      (Machine.run (Server.play json token now) s
        (.beat f₁ :: between ++ [.beat f₂])).beat.locked = true := by
  have hlocked : st.locked = false := by
    have hlock := h.lock
    rw [State.lockOf, hst, hb] at hlock
    exact Option.some.inj hlock
  have hplay : Server.play json token now s (.beat f₁) = { s with beat := .copied id st } := by
    rw [Server.play, hb]
    show Server.copy now s id = _
    have hget : getState s.process.memory id = some st := hst
    rw [Server.copy, hget]
    dsimp only
    rw [hexpired, hlocked]
    rfl
  obtain ⟨hbeat, hrecord⟩ :=
    run_elsewhere json token now { s with beat := .copied id st } hbetween
  refine ⟨?_, ?_⟩
  · rw [run_cons, hplay, hrecord]
    exact hst
  · rw [List.cons_append, run_cons, hplay, run_append, run_cons, Server.play, hbeat]
    rfl

/-- A lock that the heartbeat has set is not set again. -/
theorem run_locked (hb : s.beat.locked = true) (events : List Event) :
    (run (play json token now) s events).beat.locked = true := by
  induction events generalizing s with
  | nil => exact hb
  | cons e events ih =>
    refine ih ?_
    cases e with
    | admin a fault =>
      rw [play]
      split
      · exact hb
      · exact hb
    | beat fault =>
      rw [play]
      cases hs : s.beat with
      | finished copy => exact hb
      | start =>
        rw [hs] at hb
        cases hb
      | counted id =>
        rw [hs] at hb
        cases hb
      | copied id st => rfl

end Run

/-- The state after an unlock that is the last decision of the administrator on the
client of a heartbeat.  The client is unlocked unless the heartbeat set its lock after
the unlock; a heartbeat sets a lock only on a copy with an expired timer and no lock;
and a heartbeat that enforces an expired timer after the unlock leaves the client
locked, whatever becomes of the timer. -/
theorem unlocked_unless_expired {Text : Type} (json : Json Text) (ops : List Op)
    (htokens : (ops.filterMap Op.token).Nodup) (p : Process Text)
    (hp : p = run (step json) boot ops) (token id : Str)
    (hid : p.memory.byToken[token]? = some id) (now : Time) (before after : List Event)
    (fault : Option Fault) (hafter : NoDecision id after) (mid fin : Scene Text)
    (hmid : mid = scene json token now p (before ++ [.admin (.unlock id) fault]))
    (hfin : fin = run (play json token now) mid after) :
    (fin.beat.locked = mid.beat.locked → fin.process.memory.lockOf id = some false) ∧
      (∀ st, fin.beat = .finished (some st) → st.expired now = true ∧ st.locked = false) ∧
      ∀ xs f₁ ys f₂ zs st, after = xs ++ .beat f₁ :: ys ++ .beat f₂ :: zs →
        Enforces json token now id mid xs ys st →
        (run (play json token now) mid (xs ++ .beat f₁ :: ys)).process.memory.states[id]? =
            some st ∧
          fin.process.memory.lockOf id = some true := by
  have hstart : Tracks token id now { process := p, beat := .start } := by
    have hinv := inv_run_boot json ops htokens
    rw [← hp] at hinv
    exact ⟨hinv, hid, trivial⟩
  have hfollows : Follows token id now mid.beat.locked mid := by
    have hbefore : Tracks token id now (scene json token now p before) := hstart.run before
    rw [hmid, scene, run_append]
    exact hbefore.unlock fault
  have hend : Follows token id now mid.beat.locked fin := by
    rw [hfin]
    exact hfollows.run hafter
  refine ⟨?_, ?_, ?_⟩
  · intro hsame
    rw [hend.lock, hsame, Bool.and_not_self]
  · intro st hst
    have hbeat := hend.beat
    rw [hst] at hbeat
    exact hbeat
  · intro xs f₁ ys f₂ zs st hsplit henf
    have hxs : Follows token id now mid.beat.locked (run (play json token now) mid xs) := by
      refine hfollows.run ?_
      intro a fault hmem
      refine hafter a fault ?_
      rw [hsplit, List.append_assoc]
      exact List.mem_append_left _ hmem
    obtain ⟨hrecord, hlocked⟩ := hxs.beat_expired henf.counted henf.record henf.expired f₁ f₂
      henf.elsewhere
    rw [← run_append] at hrecord hlocked
    refine ⟨hrecord, ?_⟩
    -- the lock is set, and had not been at the unlock
    have hpast : mid.beat.locked = false := hxs.past_eq (by rw [henf.counted]; rfl)
    have hdone : fin.beat.locked = true := by
      have hevents : after = xs ++ (.beat f₁ :: ys ++ [.beat f₂]) ++ zs := by
        rw [hsplit]
        simp
      rw [hfin, hevents, run_append]
      exact run_locked hlocked zs
    rw [hend.lock, hdone, hpast]
    rfl

/-! A client with a session of one minute, and a heartbeat a minute after its end. -/

def oneSession : List Op :=
  [.call (.register "pc1".toList "52:54:00:A1:B2:C3".toList 0 (some (token 'a'))) none,
    .call (.startSession "client-0001".toList minute 0) none]

def afterSession : Process Doc := run (step plainJson) boot oneSession

/-- The heartbeat has gone through before the unlock. -/
def unlockedLast : Scene Doc :=
  scene plainJson (token 'a').text (2 * minute) afterSession
    ([.beat none, .beat none, .beat none] ++ [.admin (.unlock "client-0001".toList) none])

theorem unlock_after_expiry :
    unlockedLast.beat.locked = true ∧
      (run (play plainJson (token 'a').text (2 * minute)) unlockedLast
        [.admin (.endSession "client-0001".toList) none]).process.memory.lockOf
          "client-0001".toList = some false := by
  have htokens : (oneSession.filterMap Op.token).Nodup := by decide
  have hid : afterSession.memory.byToken[(token 'a').text]? = some "client-0001".toList := by
    decide +kernel
  have hafter : NoDecision "client-0001".toList
      [.admin (.endSession "client-0001".toList) none] := by
    intro a fault hmem
    injection List.mem_singleton.mp hmem with ha _
    rw [ha]
    rfl
  have h := unlocked_unless_expired plainJson oneSession htokens afterSession rfl _ _ hid
    (2 * minute) _ _ none hafter unlockedLast _ rfl rfl
  exact ⟨by decide +kernel, h.1 (by decide +kernel)⟩

/-- The administrator unlocks the client, the heartbeat sets its lock, the session is
ended. -/
def endedAfterLock : List Event :=
  [.admin (.unlock "client-0001".toList) none, .beat none, .beat none, .beat none,
    .admin (.endSession "client-0001".toList) none]

/-- The heartbeat reads the record, the administrator starts a new session and unlocks
the client, and the heartbeat sets its lock. -/
def startedBeforeLock : List Event :=
  [.beat none, .beat none, .admin (.startSession "client-0001".toList 60 (2 * minute)) none,
    .admin (.unlock "client-0001".toList) none, .beat none]

/-- What the heartbeat's client is left with: an expired timer, and the lock. -/
def leftWith (events : List Event) : Option (Bool × Bool) :=
  let fin := scene plainJson (token 'a').text (2 * minute) afterSession events
  (getState fin.process.memory "client-0001".toList).map fun st =>
    (st.expired (2 * minute), st.locked)

theorem expired_client_locked :
    leftWith endedAfterLock = some (false, true) ∧
      leftWith startedBeforeLock = some (false, true) := by
  decide +kernel

end Server
end MkyBoot
