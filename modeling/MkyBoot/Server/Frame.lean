import MkyBoot.Server.Http

/-!
# What a request without the administrator's token can do

Only two handlers change anything before they have seen the administrator's token:
registration and the heartbeat.  The first adds clients and renames them; the second
notes the time and locks the client of its token when the client's timer has expired.
`unauthenticated_harmless` says that nothing else happens in any sequence of such
requests.  What a token in the index belongs to is kept by every operation, however
tokens are generated; that is `Sound`.
-/

namespace MkyBoot
namespace Server

open Go Machine

/-! ## Tokens and their clients -/

/-- A token in the index is that of the client it leads to. -/
structure Sound (s : State) : Prop where
  key : ∀ {id : Str} {c : Client}, s.clients[id]? = some c → c.id = id
  token : ∀ {token id : Str}, s.byToken[token]? = some id →
    ∃ c, s.clients[id]? = some c ∧ c.token = token
  seq : ∀ {id : Str} {c : Client}, s.clients[id]? = some c → idSeq id ≤ s.seq

theorem sound_empty : Sound .empty where
  key := by intro id c h; exact absurd h (by simp [State.empty])
  token := by intro token id h; exact absurd h (by simp [State.empty])
  seq := by intro id c h; exact absurd h (by simp [State.empty])

theorem Sound.change {s s' : State} {call : Call} (h : Sound s) (hchange : Change s call s') :
    Sound s' := by
  cases hchange with
  | none => exact h
  | skip _ => exact ⟨h.key, h.token, fun hc => Nat.le_succ_of_le (h.seq hc)⟩
  | edit _ _ _ _ => exact ⟨h.key, h.token, h.seq⟩
  | @touch id c c' hc hid _ htoken _ =>
    refine ⟨forall_insert h.key (hid.trans (h.key hc)), ?_, forall_insert h.seq (h.seq hc)⟩
    intro token id' hidx
    obtain ⟨c₀, hc₀, heq⟩ := h.token hidx
    by_cases hsame : id' = id
    · rw [hsame, hc] at hc₀
      refine ⟨c', by rw [hsame]; exact Std.ExtTreeMap.getElem?_insert_self, ?_⟩
      rw [htoken, Option.some.inj hc₀, heq]
    · exact ⟨c₀, by rw [← hc₀]; exact getElem?_insert_of_ne _ hsame _, heq⟩
  | @add c tok _ hid _ _ _ _ =>
    refine ⟨forall_insert h.key rfl, ?_, ?_⟩
    · intro token id' hidx
      rcases getElem?_insert_eq_some hidx with ⟨htoken, hid'⟩ | ⟨_, hidx⟩
      · exact ⟨c, by rw [hid']; exact Std.ExtTreeMap.getElem?_insert_self, htoken.symm⟩
      · obtain ⟨c₀, hc₀, heq⟩ := h.token hidx
        -- the id of the new client is past all ids
        have hne : id' ≠ c.id := by
          intro hsame
          have hle := h.seq hc₀
          rw [hsame, hid, idSeq_clientID] at hle
          omega
        exact ⟨c₀, by rw [← hc₀]; exact getElem?_insert_of_ne _ hne _, heq⟩
    · refine forall_insert (fun hc => Nat.le_succ_of_le (h.seq hc)) ?_
      rw [hid, idSeq_clientID]

theorem token_of_tokenKey {c : Client} {token : Str} (h : c.tokenKey = some token) :
    c.token = token := by
  rw [Client.tokenKey] at h
  split at h
  · cases h
  · exact Option.some.inj h

section Process

variable {Text : Type} {json : Json Text} {order : Order Str Client}

theorem Sound.reloaded {s : State} (h : Sound s) : Sound (reloaded json order s) where
  key := by
    intro id c hc
    obtain ⟨c₀, hc₀, hid, -, -⟩ := reloaded_client hc
    rw [hid, h.key hc₀]
  token := by
    intro token id hidx
    obtain ⟨c, hc, hkey⟩ := indexBy_entry order hidx
    exact ⟨c, hc, token_of_tokenKey hkey⟩
  seq := fun hc => le_maxKey order idSeq hc

theorem Sound.step {p : Process Text} (h : Holds json Sound p) (op : Op) :
    Holds json Sound (step json p op) := by
  cases op with
  | call c fault =>
    exact h.call (fun _ hs => hs) (h.memory.change (attempt_change p.memory c)) fault
  | restart order => exact h.restart sound_empty fun s hs => hs.reloaded

theorem sound_run_boot (json : Json Text) (ops : List Op) :
    Sound (run (step json) boot ops).memory := by
  have hrun : Holds json Sound (run (step json) boot ops) :=
    List.foldlRecOn ops (step json) (holds_boot sound_empty) fun p hp op _ => Sound.step hp op
  exact hrun.memory

end Process

/-! ## The record of a client -/

/-- The record of a client as `GetState` shows it. -/
def recordOf (s : State) (id : Str) : ClientState := (s.states[id]?).getD (.fresh id)

theorem recordOf_insertIfNew (s : State) (id' id : Str) :
    ((s.states.insertIfNew id' (.fresh id'))[id]?).getD (.fresh id) = recordOf s id := by
  rw [Std.ExtTreeMap.getElem?_insertIfNew, recordOf]
  split
  · rename_i hnew
    have hid : id' = id := Std.LawfulEqCmp.eq_of_compare hnew.1
    have hnone : s.states[id]? = none := by
      rw [← hid]
      exact Std.ExtTreeMap.getElem?_eq_none hnew.2
    rw [hnone, hid]
    rfl
  · rfl

theorem recordOf_register (s : State) (name mac : Str) (now : Time) (tok : Option Token)
    (id : Str) : recordOf (register s name mac now tok).memory id = recordOf s id := by
  rw [register]
  dsimp only
  split
  · rfl
  split
  · rw [registerAgain]
    split
    · rfl
    · rfl
  split
  · rfl
  · exact recordOf_insertIfNew s _ id

theorem recordOf_heartbeat (s : State) (token : Str) (now : Time) (id : Str) :
    recordOf (heartbeat s token now).memory id = recordOf s id := by
  rw [heartbeat]
  split
  · rfl
  split
  · rfl
  · rfl

/-- `Heartbeat` answers with the client of the token. -/
theorem heartbeat_client {Text : Type} {json : Json Text} {p p' : Process Text} {token : Str}
    {now : Time} {fault : Option Fault} {c : Client} {flag : Bool} (h : Sound p.memory)
    (hcall : call json p (.heartbeat token now) fault = (.client c flag, p')) :
    ∃ id c₀, p.memory.clients[id]? = some c₀ ∧ c₀.token = token ∧ c.id = id ∧
      p'.memory.clients[id]? = some c ∧ p'.memory.states = p.memory.states := by
  rw [call, Call.attempt, heartbeat] at hcall
  cases hidx : p.memory.byToken[token]? with
  | none =>
    rw [hidx] at hcall
    cases hcall
  | some id =>
    obtain ⟨c₀, hc₀, htoken⟩ := h.token hidx
    rw [hidx] at hcall
    dsimp only at hcall
    rw [hc₀] at hcall
    cases fault with
    | some f => cases hcall
    | none =>
      injection hcall with hreply hp
      injection hreply with hc _
      refine ⟨id, c₀, hc₀, htoken, ?_, ?_, ?_⟩
      · rw [← hc]
        show c₀.id = id
        exact h.key hc₀
      · rw [← hp, ← hc]
        exact Std.ExtTreeMap.getElem?_insert_self
      · rw [← hp]

/-- The record with the lock of an expired session. -/
def ClientState.lockExpired (st : ClientState) : ClientState :=
  { st with locked := true, lockReason := "session expired".toList }

/-- `SetLock` of an expired session changes the record of its client alone. -/
theorem recordOf_setLock {Text : Type} {json : Json Text} {p : Process Text} {c : Client}
    {id : Str} (hc : p.memory.clients[id]? = some c) (fault : Option Fault) (id' : Str) :
    recordOf (call json p (.setLock id true "session expired".toList) fault).2.memory id' =
      if id' = id then (recordOf p.memory id).lockExpired else recordOf p.memory id' := by
  have hknown : ¬ p.memory.clients[id]? = none := by
    rw [hc]
    exact Option.some_ne_none c
  rw [call_memory, Call.attempt, setLock, if_neg hknown]
  show ((p.memory.states.insert id _)[id']?).getD _ = _
  by_cases hid : id' = id
  · rw [if_pos hid, hid, Std.ExtTreeMap.getElem?_insert_self]
    rfl
  · rw [if_neg hid, getElem?_insert_of_ne _ hid]
    rfl

/-! ## What a request can do without the administrator's token -/

section Requests

variable {Body Text : Type} {sys : Filepath.Sys} (codec : Codec Body) (json : Json Text)

/-- No effect, a registration, a heartbeat that is noted, or one that is noted and locks
its client. -/
inductive Effect (w : World Text sys) (v : Visit Body) : World Text sys → Prop where
  | none : Effect w v w
  | register (name mac : Str) : Effect w v
      { w with process := (call json w.process (.register name mac v.now v.tok) v.fault).2 }
  | note (token : Str) : Effect w v
      { w with process := (call json w.process (.heartbeat token v.now) v.fault).2 }
  | expire {token : Str} {c : Client} {p : Process Text} {st : ClientState}
      (htarget : target codec v.toRequest = .route .heartbeat) (hpost : v.method = .post)
      (htoken : codec.heartbeat v.body = .ok token)
      (hcall : call json w.process (.heartbeat token v.now) v.fault = (.client c true, p))
      (hst : getState p.memory c.id = some st) (hexpired : st.expired v.now = true)
      (hlocked : st.locked = false) :
      Effect w v
        { w with
          process := (call json p (.setLock c.id true "session expired".toList) v.lockFault).2 }

variable {codec json} {w : World Text sys} {v : Visit Body}

theorem handleRoot_effect (hauth : requireAdmin codec w v.toRequest = false) :
    Effect codec json w v (handleRoot codec w v).2 := by
  rw [handleRoot, handleCompatStatus, hauth]
  split
  · exact .none
  split
  · split
    · exact .none
    · exact .none
  split
  · exact .none
  · exact .none

theorem handleHealth_effect : Effect codec json w v (handleHealth w v).2 := by
  rw [handleHealth]
  split
  · exact .none
  · exact .none

theorem handleRegister_effect : Effect codec json w v (handleRegister codec json w v).2 := by
  rw [handleRegister]
  split
  · exact .none
  split
  · exact .none
  split
  · exact .none
  split
  · exact .none
  · exact .register _ _

theorem handleClients_effect (hauth : requireAdmin codec w v.toRequest = false) :
    Effect codec json w v (handleClients codec json w v).2 := by
  rw [handleClients, hauth]
  split
  · exact .none
  · exact handleRegister_effect
  · exact .none

theorem handleHeartbeat_effect (htarget : target codec v.toRequest = .route .heartbeat) :
    Effect codec json w v (handleHeartbeat codec json w v).2 := by
  rw [handleHeartbeat]
  split
  · exact .none
  rename_i hmethod
  split
  · exact .none
  rename_i token htoken
  have hnote : ∀ {reply : Reply} {p : Process Text},
      call json w.process (.heartbeat token v.now) v.fault = (reply, p) →
        Effect codec json w v { w with process := p } := by
    intro reply p hcall
    have hp : (call json w.process (.heartbeat token v.now) v.fault).2 = p := by rw [hcall]
    rw [← hp]
    exact .note token
  split
  · rename_i c p hcall
    rw [enforceExpiry]
    dsimp only
    split
    · rename_i hcond
      rw [Bool.and_eq_true, Bool.not_eq_true'] at hcond
      cases hst : getState p.memory c.id with
      | none =>
        rw [hst] at hcond
        exact absurd hcond.1 (by simp [ClientState.fresh, ClientState.expired])
      | some st =>
        rw [hst] at hcond
        exact .expire htarget (not_not.mp hmethod) htoken hcall hst hcond.1 hcond.2
    · exact hnote hcall
  · rename_i hcall
    exact hnote hcall
  · rename_i hcall
    exact hnote hcall
  · rename_i hcall
    exact hnote hcall

theorem handleClientItem_effect (hauth : requireAdmin codec w v.toRequest = false) :
    Effect codec json w v (handleClientItem codec json w v).2 := by
  rw [handleClientItem, hauth]
  exact .none

theorem handleSession_effect (hauth : requireAdmin codec w v.toRequest = false) :
    Effect codec json w v (handleSession codec json w v).2 := by
  rw [handleSession, hauth]
  exact .none

theorem handleStorageHealth_effect (hauth : requireAdmin codec w v.toRequest = false) :
    Effect codec json w v (handleStorageHealth codec w v).2 := by
  rw [handleStorageHealth, hauth]
  split
  · exact .none
  · exact .none

theorem handleStorageImages_effect (hauth : requireAdmin codec w v.toRequest = false) :
    Effect codec json w v (handleStorageImages codec w v).2 := by
  rw [handleStorageImages, hauth]
  split
  · exact .none
  · exact .none

theorem handleStorageAssign_effect (hauth : requireAdmin codec w v.toRequest = false) :
    Effect codec json w v (handleStorageAssign codec w v).2 := by
  rw [handleStorageAssign, hauth]
  exact .none

theorem serve_effect {boot : World Text sys → Visit Body → Response × World Text sys}
    (hauth : requireAdmin codec w v.toRequest = false)
    (hboot : target codec v.toRequest ≠ .route .boot) :
    Effect codec json w v (serve codec json w boot v).2 := by
  rw [serve]
  split
  · exact .none
  · exact .none
  · exact handleHealth_effect
  · exact handleClients_effect hauth
  · rename_i htarget
    exact handleHeartbeat_effect htarget
  · exact handleClientItem_effect hauth
  · exact handleSession_effect hauth
  · rename_i htarget
    exact absurd htarget hboot
  · exact handleStorageHealth_effect hauth
  · exact handleStorageImages_effect hauth
  · exact handleStorageAssign_effect hauth
  · exact handleRoot_effect hauth

variable (codec) in
/-- The request is a heartbeat with the client's token after the client's timer has
expired, and locks the client. -/
structure Expires (v : Visit Body) (c : Client) (st st' : ClientState) : Prop where
  target : target codec v.toRequest = .route .heartbeat
  post : v.method = .post
  token : codec.heartbeat v.body = .ok c.token
  expired : st.expired v.now = true
  unlocked : st.locked = false
  locked : st'.locked = true
  reason : st'.lockReason = "session expired".toList

variable (codec) in
/-- What a request may do to the server: nothing to the storage, the credential or a
timer, and to the lock of a client only what an expired timer asks for. -/
structure Harmless (w w' : World Text sys) (v : Visit Body) : Prop where
  storage : w'.storage = w.storage
  admin : w'.admin = w.admin
  timer : ∀ (id : Str) (c : Client), w.process.memory.clients[id]? = some c →
    (recordOf w'.process.memory id).sessionStartedAt =
        (recordOf w.process.memory id).sessionStartedAt ∧
      (recordOf w'.process.memory id).sessionExpiresAt =
        (recordOf w.process.memory id).sessionExpiresAt
  lock : ∀ (id : Str) (c : Client), w.process.memory.clients[id]? = some c →
    ((recordOf w'.process.memory id).locked = (recordOf w.process.memory id).locked ∧
      (recordOf w'.process.memory id).lockReason = (recordOf w.process.memory id).lockReason) ∨
    Expires codec v c (recordOf w.process.memory id) (recordOf w'.process.memory id)

/-- A request that leaves every record is harmless. -/
theorem harmless_of_records {p : Process Text}
    (h : ∀ id, recordOf p.memory id = recordOf w.process.memory id) :
    Harmless codec w { w with process := p } v where
  storage := rfl
  admin := rfl
  timer := by
    intro id c _
    rw [h id]
    exact ⟨rfl, rfl⟩
  lock := by
    intro id c _
    rw [h id]
    exact Or.inl ⟨rfl, rfl⟩

theorem Effect.harmless {w' : World Text sys} (h : Effect codec json w v w')
    (hsound : Sound w.process.memory) : Harmless codec w w' v := by
  cases h with
  | none => exact harmless_of_records fun _ => rfl
  | register name mac =>
    refine harmless_of_records fun id => ?_
    rw [call_memory]
    exact recordOf_register _ _ _ _ _ id
  | note token =>
    refine harmless_of_records fun id => ?_
    rw [call_memory]
    exact recordOf_heartbeat _ _ _ id
  | @expire token c p st htarget hpost htoken hcall hst hexpired hlocked =>
    obtain ⟨key, c₀, hc₀, heq, hkey, hc, hstates⟩ := heartbeat_client hsound hcall
    rw [← hkey] at hc hc₀
    have hbefore : ∀ id, recordOf p.memory id = recordOf w.process.memory id := by
      intro id
      rw [recordOf, hstates, recordOf]
    have hrecord : recordOf w.process.memory c.id = st := by
      rw [← hbefore, recordOf]
      show (getState p.memory c.id).getD _ = st
      rw [hst]
      rfl
    refine ⟨rfl, rfl, ?_, ?_⟩
    · intro id c' _
      show (recordOf (call json p _ _).2.memory id).sessionStartedAt = _ ∧
        (recordOf (call json p _ _).2.memory id).sessionExpiresAt = _
      rw [recordOf_setLock hc v.lockFault id]
      by_cases hid : id = c.id
      · rw [if_pos hid, hid, hbefore]
        exact ⟨rfl, rfl⟩
      · rw [if_neg hid, hbefore]
        exact ⟨rfl, rfl⟩
    · intro id c' hc'
      show _ ∨ Expires codec v c' _ (recordOf (call json p _ _).2.memory id)
      by_cases hid : id = c.id
      · right
        rw [hid, hc₀] at hc'
        rw [recordOf_setLock hc v.lockFault id, if_pos hid, hid, hrecord]
        rw [← heq, Option.some.inj hc'] at htoken
        exact ⟨htarget, hpost, htoken, hexpired, hlocked, rfl, rfl⟩
      · left
        show (recordOf (call json p _ _).2.memory id).locked = _ ∧
          (recordOf (call json p _ _).2.memory id).lockReason = _
        rw [recordOf_setLock hc v.lockFault id, if_neg hid, hbefore]
        exact ⟨rfl, rfl⟩

theorem Sound.call {p : Process Text} (h : Sound p.memory) (c : Call) (fault : Option Fault) :
    Sound (call json p c fault).2.memory := by
  rw [call_memory]
  exact h.change (attempt_change p.memory c)

theorem Effect.sound {w' : World Text sys} (h : Effect codec json w v w')
    (hsound : Sound w.process.memory) : Sound w'.process.memory := by
  cases h with
  | none => exact hsound
  | register name mac | note token => exact hsound.call _ _
  | @expire token c p st htarget hpost htoken hcall hst hexpired hlocked =>
    have hnoted : Sound (Server.call json w.process (.heartbeat token v.now) v.fault).2.memory :=
      hsound.call _ _
    rw [hcall] at hnoted
    exact hnoted.call _ _

end Requests

/-- The server after a request. -/
def serveStep {Body Text : Type} {sys : Filepath.Sys} (codec : Codec Body) (json : Json Text)
    (boot : World Text sys → Visit Body → Response × World Text sys) (w : World Text sys)
    (v : Visit Body) : World Text sys := (serve codec json w boot v).2

/-- The request has no token that the credential accepts, and is not for a boot route. -/
def Unauthenticated {Body : Type} (codec : Codec Body) (admin : AdminFile) (v : Visit Body) :
    Prop :=
  admin.verify codec.hashToken (bearerToken v.authorization) = false ∧
    target codec v.toRequest ≠ .route .boot

/-- The storage and the credential are those of an earlier state, and the store is
sound. -/
structure Since {Text : Type} {sys : Filepath.Sys} (w w' : World Text sys) : Prop where
  sound : Sound w'.process.memory
  storage : w'.storage = w.storage
  admin : w'.admin = w.admin

section Runs

variable {Body Text : Type} {sys : Filepath.Sys} {codec : Codec Body} {json : Json Text}
  {boot : World Text sys → Visit Body → Response × World Text sys} {w w' : World Text sys}
  {v : Visit Body}

theorem Since.effect (h : Since w w') (hv : Unauthenticated codec w.admin v) :
    Effect codec json w' v (serveStep codec json boot w' v) := by
  refine serve_effect ?_ hv.2
  rw [requireAdmin, h.admin]
  exact hv.1

theorem Since.step (h : Since w w') (hv : Unauthenticated codec w.admin v) :
    Since w (serveStep codec json boot w' v) := by
  have heffect : Effect codec json w' v (serveStep codec json boot w' v) := h.effect hv
  have hharmless := heffect.harmless h.sound
  exact ⟨heffect.sound h.sound, hharmless.storage.trans h.storage, hharmless.admin.trans h.admin⟩

end Runs

/-- No request without the administrator's token, outside the two boot routes, does more
than what is harmless, on any server whose client store was made by its operations. -/
theorem unauthenticated_harmless {Body Text : Type} {sys : Filepath.Sys} (codec : Codec Body)
    (json : Json Text) (boot : World Text sys → Visit Body → Response × World Text sys)
    (ops : List Op) (w : World Text sys) (hstore : w.process = run (step json) Server.boot ops)
    (visits : List (Visit Body)) (hvisits : ∀ v ∈ visits, Unauthenticated codec w.admin v) :
    Throughout (serveStep codec json boot)
        (fun w' => w'.storage = w.storage ∧ w'.admin = w.admin) w visits ∧
      Along (serveStep codec json boot)
        (fun w' v => Harmless codec w' (serveStep codec json boot w' v) v) w visits := by
  have hplain := along_of_forall (serveStep codec json boot) w hvisits
  have hstart : Since w w := by
    refine ⟨?_, rfl, rfl⟩
    rw [hstore]
    exact sound_run_boot json ops
  have hstep : ∀ w' v, Since w w' → Unauthenticated codec w.admin v →
      Since w (serveStep codec json boot w' v) := fun w' v h hv => h.step hv
  refine ⟨(throughout_of_along hstep hstart hplain).mono fun w' h => ⟨h.storage, h.admin⟩, ?_⟩
  refine along_of_along hstep ?_ hstart hplain
  intro w' v h hv
  have heffect : Effect codec json w' v (serveStep codec json boot w' v) := h.effect hv
  exact heffect.harmless h.sound

/-! A client whose session has expired, a heartbeat of its own and an attempt to unlock it
without a token.  The bodies of these requests are the decoded texts. -/

def textCodec : Codec Str where
  hashToken := List.reverse
  unescape := id
  register := fun body => .ok (body, body)
  heartbeat := .ok
  session := fun _ => .error "invalid JSON".toList
  assign := fun _ => .error "invalid JSON".toList

def labServer : World Doc unixSys :=
  { process := afterSession
    storage := newStorage dataImages
    admin := .record { tokenHash := "0f3a".toList, provisioned := "generated".toList } }

def post (path : String) (body : Str) : Visit Str :=
  { method := .post, escapedPath := path.toList, path := path.toList, api := []
    authorization := [], body := body, now := 2 * minute, tok := none, fault := none
    lockFault := none }

def labVisits : List (Visit Str) :=
  [post "/api/clients/heartbeat" (token 'a').text, post "/api/client/client-0001/unlock" []]

def noBoot (w : World Doc unixSys) (_ : Visit Str) : Response × World Doc unixSys := (notFound, w)

theorem lab_requests_harmless :
    (recordOf (run (serveStep textCodec plainJson noBoot) labServer labVisits).process.memory
        "client-0001".toList).locked = true ∧
      Along (serveStep textCodec plainJson noBoot)
        (fun w' v => Harmless textCodec w' (serveStep textCodec plainJson noBoot w' v) v)
        labServer labVisits := by
  have hvisits : ∀ v ∈ labVisits, Unauthenticated textCodec labServer.admin v := by
    intro v hv
    rcases List.mem_cons.mp hv with rfl | hv
    · exact ⟨by decide +kernel, by decide +kernel⟩
    · rw [List.mem_singleton.mp hv]
      exact ⟨by decide +kernel, by decide +kernel⟩
  have h := unauthenticated_harmless textCodec plainJson noBoot oneSession labServer rfl labVisits
    hvisits
  exact ⟨by decide +kernel, h.2⟩

end Server
end MkyBoot
