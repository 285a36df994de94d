import MkyBoot.Server.Invariant

/-!
# What a failed operation leaves behind

An operation that returns an error because its input is refused has changed none
of the maps.  One whose `persistLocked` fails has changed them already and does
not change them back.  The state file stays as it was in both cases.
`failed_call_unchanged_iff` says exactly when nothing but the id sequence has
changed after an error.
-/

namespace MkyBoot
namespace Server

open Go Machine

/-- The maps of the store are as they were. -/
def SameMaps (s s' : State) : Prop :=
  s'.clients = s.clients ∧ s'.states = s.states ∧ s'.byMAC = s.byMAC ∧ s'.byToken = s.byToken

/-- The maps and the state file are as they were. -/
def Unchanged {Text : Type} (p p' : Process Text) : Prop :=
  SameMaps p.memory p'.memory ∧ p'.file = p.file

/-- The call is refused before it changes a map. -/
def Refuses (s : State) : Call → Prop
  | .register _ mac _ tok =>
    normalizeMAC mac = [] ∨ s.byMAC[normalizeMAC mac]? = none ∧ tok = none
  | .heartbeat _ _ => False
  | .setLock id _ _ => s.clients[id]? = none
  | .startSession id duration _ => s.clients[id]? = none ∨ duration ≤ 0
  | .endSession id => s.clients[id]? = none

/-- The call writes what is there already. -/
def Repeats (s : State) : Call → Prop
  | .register name mac now _ =>
    ∃ (id : Str) (c : Client), s.byMAC[normalizeMAC mac]? = some id ∧ s.clients[id]? = some c ∧
      (name = [] ∨ name = c.name) ∧ c.lastSeen = now
  | .heartbeat token now =>
    ∃ (id : Str) (c : Client), s.byToken[token]? = some id ∧ s.clients[id]? = some c ∧
      c.lastSeen = now
  | .setLock id locked reason =>
    ∃ st : ClientState, s.states[id]? = some st ∧ st.locked = locked ∧ st.lockReason = reason
  | .startSession id duration now =>
    ∃ st : ClientState, s.states[id]? = some st ∧ st.sessionStartedAt = now ∧
      st.sessionExpiresAt = some (now + duration)
  | .endSession id =>
    ∃ st : ClientState, s.states[id]? = some st ∧ st.sessionStartedAt = Time.zero ∧
      st.sessionExpiresAt = none

/-- What an attempt is, seen from the call: refused without a change to the maps,
answered without any change, or ready to be saved with a change unless the call
repeats what is there. -/
def Describes (s : State) (c : Call) : Attempt → Prop
  | .stops (.error _) s' => Refuses s c ∧ SameMaps s s'
  | .stops _ s' => s' = s
  | .persists (.error _) _ => False
  | .persists _ s' => ¬ Refuses s c ∧ (SameMaps s s' ↔ Repeats s c)

theorem sameMaps_refl (s : State) : SameMaps s s := ⟨rfl, rfl, rfl, rfl⟩

theorem sameMaps_clients {s : State} {id : Str} {c : Client} :
    SameMaps s { s with clients := s.clients.insert id c } ↔ s.clients[id]? = some c := by
  rw [← insert_eq_self_iff]
  exact ⟨fun h => h.1, fun h => ⟨h, rfl, rfl, rfl⟩⟩

theorem sameMaps_states {s : State} {id : Str} {st : ClientState} :
    SameMaps s { s with states := s.states.insert id st } ↔ s.states[id]? = some st := by
  rw [← insert_eq_self_iff]
  exact ⟨fun h => h.2.1, fun h => ⟨rfl, h, rfl, rfl⟩⟩

theorem Client.again_eq_iff {c : Client} {name : Str} {now : Time} :
    c.again name now = c ↔ (name = [] ∨ name = c.name) ∧ c.lastSeen = now := by
  rw [Client.again, Client.mk.injEq]
  by_cases hname : name = []
  · rw [if_pos hname]
    exact ⟨fun h => ⟨Or.inl hname, h.2.2.2.2.1.symm⟩,
      fun h => ⟨rfl, rfl, rfl, rfl, h.2.symm, rfl⟩⟩
  · rw [if_neg hname]
    constructor
    · intro h
      exact ⟨Or.inr h.2.1, h.2.2.2.2.1.symm⟩
    · intro h
      rcases h.1 with hnil | heq
      · exact absurd hnil hname
      · exact ⟨rfl, heq, rfl, rfl, h.2.symm, rfl⟩

/-- An edit changes the maps unless it leaves a record that is there. -/
theorem sameMaps_editState {s : State} {id : Str} {edit : ClientState → ClientState} :
    SameMaps s (editState s id edit).memory ↔
      ∃ st : ClientState, s.states[id]? = some st ∧ edit st = st := by
  show SameMaps s { s with states := s.states.insert id _ } ↔ _
  rw [sameMaps_states]
  cases hst : s.states[id]? with
  | none =>
    constructor
    · intro h
      cases h
    · intro h
      obtain ⟨st, hnone, -⟩ := h
      cases hnone
  | some st =>
    constructor
    · intro h
      exact ⟨st, rfl, (Option.some.inj h).symm⟩
    · intro h
      obtain ⟨st', hst', hedit⟩ := h
      rw [← Option.some.inj hst'] at hedit
      exact congrArg some hedit.symm

/-- The one client an index leads to. -/
theorem exists_client_iff {s : State} {found : Option Str} {id : Str} {c : Client}
    (hid : found = some id) (hc : s.clients[id]? = some c) (P : Client → Prop) :
    (∃ (id : Str) (c : Client), found = some id ∧ s.clients[id]? = some c ∧ P c) ↔ P c := by
  constructor
  · intro h
    obtain ⟨id', c', hid', hc', h⟩ := h
    rw [hid] at hid'
    rw [← Option.some.inj hid', hc] at hc'
    rw [Option.some.inj hc']
    exact h
  · intro h
    exact ⟨id, c, hid, hc, h⟩

theorem register_describes (s : State) (name mac : Str) (now : Time) (tok : Option Token) :
    Describes s (.register name mac now tok) (register s name mac now tok) := by
  rw [register]
  dsimp only
  split
  · rename_i hnil
    exact ⟨Or.inl hnil, sameMaps_refl s⟩
  rename_i hne
  split
  · rename_i id hid
    rw [registerAgain]
    split
    · rfl
    · rename_i c hc
      refine ⟨?_, ?_⟩
      · intro hrefuses
        rcases hrefuses with hnil | ⟨hnone, -⟩
        · exact hne hnil
        · rw [hid] at hnone
          cases hnone
      · rw [sameMaps_clients, hc, Option.some.injEq, eq_comm, Client.again_eq_iff]
        exact (exists_client_iff hid hc fun c =>
          (name = [] ∨ name = c.name) ∧ c.lastSeen = now).symm
  · rename_i hnew
    split
    · exact ⟨Or.inr ⟨hnew, rfl⟩, rfl, rfl, rfl, rfl⟩
    · rename_i tok
      refine ⟨?_, iff_of_false ?_ ?_⟩
      · intro hrefuses
        rcases hrefuses with hnil | ⟨-, hnone⟩
        · exact hne hnil
        · cases hnone
      · intro hsame
        -- the address was not in the index and is now
        have hmac : s.byMAC.insert (normalizeMAC mac) (clientID (s.seq + 1)) = s.byMAC :=
          hsame.2.2.1
        rw [insert_eq_self_iff, hnew] at hmac
        cases hmac
      · intro hrepeats
        obtain ⟨id, c, hid, -⟩ := hrepeats
        rw [hnew] at hid
        cases hid

theorem heartbeat_describes (s : State) (token : Str) (now : Time) :
    Describes s (.heartbeat token now) (heartbeat s token now) := by
  rw [heartbeat]
  split
  · rfl
  rename_i id hid
  split
  · rfl
  · rename_i c hc
    have hseen : c = { c with lastSeen := now } ↔ c.lastSeen = now := by
      cases c
      simp
    refine ⟨fun h => h, ?_⟩
    rw [sameMaps_clients, hc, Option.some.injEq, hseen]
    exact (exists_client_iff hid hc fun c => c.lastSeen = now).symm

/-- The operations on a record: refused without a client, otherwise an edit. -/
theorem editState_describes {s : State} {id : Str} {c : Call}
    {edit : ClientState → ClientState} (hrefuses : ¬ Refuses s c)
    (hrepeats : Repeats s c ↔ ∃ st : ClientState, s.states[id]? = some st ∧ edit st = st) :
    Describes s c (editState s id edit) := by
  refine ⟨hrefuses, ?_⟩
  rw [hrepeats]
  exact sameMaps_editState

theorem attempt_describes (s : State) (c : Call) : Describes s c (c.attempt s) := by
  cases c with
  | register name mac now tok => exact register_describes s name mac now tok
  | heartbeat token now => exact heartbeat_describes s token now
  | setLock id locked reason =>
    rw [Call.attempt, setLock]
    split
    · rename_i hnone
      exact ⟨hnone, sameMaps_refl s⟩
    · rename_i hsome
      refine editState_describes hsome ?_
      refine exists_congr fun st => and_congr_right fun _ => ?_
      cases st
      simp [eq_comm]
  | startSession id duration now =>
    rw [Call.attempt, startSession]
    split
    · rename_i hnone
      exact ⟨Or.inl hnone, sameMaps_refl s⟩
    split
    · rename_i hduration
      exact ⟨Or.inr hduration, sameMaps_refl s⟩
    · rename_i hsome hduration
      refine editState_describes (fun h => h.elim hsome hduration) ?_
      refine exists_congr fun st => and_congr_right fun _ => ?_
      cases st
      simp [eq_comm]
  | endSession id =>
    rw [Call.attempt, endSession]
    split
    · rename_i hnone
      exact ⟨hnone, sameMaps_refl s⟩
    · rename_i hsome
      refine editState_describes hsome ?_
      refine exists_congr fun st => and_congr_right fun _ => ?_
      cases st
      simp [eq_comm]

/-- A call that returns an error has changed the store and its file unless the call was
refused before its first change or writes what is there. -/
theorem failed_call_unchanged_iff {Text : Type} (json : Json Text) (p : Process Text) (c : Call)
    (fault : Option Fault) {e : Err} (herr : (call json p c fault).1 = .error e) :
    Unchanged p (call json p c fault).2 ↔ Refuses p.memory c ∨ Repeats p.memory c := by
  have hdescribes := attempt_describes p.memory c
  rw [call] at herr ⊢
  cases hattempt : c.attempt p.memory with
  | stops reply s =>
    rw [hattempt] at hdescribes herr
    have hreply : reply = .error e := herr
    rw [hreply] at hdescribes
    exact iff_of_true ⟨hdescribes.2, rfl⟩ (Or.inl hdescribes.1)
  | persists reply s =>
    rw [hattempt] at hdescribes herr
    cases fault with
    | none =>
      have hreply : reply = .error e := herr
      rw [hreply] at hdescribes
      exact hdescribes.elim
    | some f =>
      have hboth : ¬ Refuses p.memory c ∧ (SameMaps p.memory s ↔ Repeats p.memory c) := by
        cases reply with
        | error e => exact hdescribes.elim
        | client c flag | unknownToken | state st | panicked | started => exact hdescribes
      constructor
      · intro h
        exact Or.inr (hboth.2.mp h.1)
      · intro h
        rcases h with hrefuses | hrepeats
        · exact absurd hrefuses hboth.1
        · exact ⟨hboth.2.mpr hrepeats, rfl⟩

/-! A client whose heartbeat cannot be saved. -/

def oneClient : List Op :=
  [.call (.register "pc1".toList "52:54:00:A1:B2:C3".toList 10 (some (token 'a'))) none]

def registered : Process Doc := run (step plainJson) boot oneClient

theorem refused_call_unchanged :
    (call plainJson registered (.endSession "client-0002".toList) none).1 =
        .error (.unknownClient "client-0002".toList) ∧
      Unchanged registered
        (call plainJson registered (.endSession "client-0002".toList) none).2 := by
  have herr : (call plainJson registered (.endSession "client-0002".toList) none).1 =
      .error (.unknownClient "client-0002".toList) := by decide +kernel
  have hnone : registered.memory.clients["client-0002".toList]? = none := by decide +kernel
  exact ⟨herr, (failed_call_unchanged_iff plainJson registered _ none herr).mpr (Or.inl hnone)⟩

theorem failed_heartbeat_changes :
    (call plainJson registered (.heartbeat (token 'a').text 20) (some .sync)).1 =
        .error (.persist .sync) ∧
      (call plainJson registered (.heartbeat (token 'a').text 20) (some .sync)).2.memory.clients ≠
        registered.memory.clients := by
  decide +kernel

end Server
end MkyBoot
