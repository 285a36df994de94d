import MkyBoot.Machine.Run
import MkyBoot.Server.State

/-!
# The invariant of the client store

Every map key is the client's id, both indexes are the inverses of the client map,
every client has a record of its own and the id sequence is past every id.  `Change`
lists what an operation can do to memory; the invariant is proved once for each of
its cases.  The state file is always one that was written from a memory with the
invariant, so a restart finds it again.
-/

namespace MkyBoot
namespace Server

open Go Machine

/-- An address as `Register` stores it. -/
def Normal (mac : Str) : Prop := normalizeMAC mac = mac ∧ mac ≠ []

structure Inv (s : State) : Prop where
  key : ∀ {id : Str} {c : Client}, s.clients[id]? = some c → c.id = id
  normal : ∀ {id : Str} {c : Client}, s.clients[id]? = some c → Normal c.mac
  byMAC : Inverse Client.macKey s.clients s.byMAC
  token : ∀ {id : Str} {c : Client}, s.clients[id]? = some c → c.token ≠ []
  byToken : Inverse Client.tokenKey s.clients s.byToken
  record : ∀ {id : Str} {c : Client}, s.clients[id]? = some c → s.states[id]? ≠ none
  own : ∀ {id : Str} {st : ClientState}, s.states[id]? = some st → st.clientID = id
  seq : ∀ {id : Str} {c : Client}, s.clients[id]? = some c → idSeq id ≤ s.seq

/-- Every token in use was generated. -/
def Known (used : List Token) (s : State) : Prop :=
  ∀ (id : Str) (c : Client), s.clients[id]? = some c → ∃ t ∈ used, c.token = t.text

/-! ## What an operation can do to memory -/

/-- What `generateToken` returns if a call gets to it: a token, or nothing when it
fails. -/
def Call.generated : Call → Option (Option Token)
  | .register _ _ _ tok => some tok
  | _ => none

def Call.token (c : Call) : Option Token := c.generated.join

/-- The free texts of a call. -/
def Call.texts : Call → List Str
  | .register name _ _ _ => [name]
  | .setLock _ _ reason => [reason]
  | _ => []

inductive Change (s : State) (call : Call) : State → Prop where
  | none : Change s call s
  | touch {id : Str} {c c' : Client} (hc : s.clients[id]? = some c) (hid : c'.id = c.id)
      (hmac : c'.mac = c.mac) (htoken : c'.token = c.token)
      (hname : c'.name = c.name ∨ c'.name ∈ call.texts) :
      Change s call { s with clients := s.clients.insert id c' }
  | skip (hgen : call.generated = some Option.none) : Change s call { s with seq := s.seq + 1 }
  | add {c : Client} {tok : Token} (hgen : call.generated = some (some tok))
      (hid : c.id = clientID (s.seq + 1)) (hmac : s.byMAC[c.mac]? = Option.none)
      (hnormal : Normal c.mac) (htoken : c.token = tok.text) (hname : c.name ∈ call.texts) :
      Change s call (State.add { s with seq := s.seq + 1 } c)
  | edit {id : Str} {c : Client} (hc : s.clients[id]? = some c) {st st' : ClientState}
      (hst : st = (s.states[id]?).getD (.fresh id)) (hown : st'.clientID = st.clientID)
      (hreason : st'.lockReason = st.lockReason ∨ st'.lockReason ∈ call.texts) :
      Change s call { s with states := s.states.insert id st' }

theorem register_change (s : State) (name mac : Str) (now : Time) (tok : Option Token) :
    Change s (.register name mac now tok) (register s name mac now tok).memory := by
  rw [register]
  dsimp only
  split
  · exact .none
  rename_i hne
  split
  · rename_i id hid
    rw [registerAgain]
    split
    · exact .none
    · rename_i c hc
      refine .touch hc rfl rfl rfl ?_
      by_cases hname : name = []
      · exact Or.inl (if_pos hname)
      · refine Or.inr ?_
        show (if name = [] then c.name else name) ∈ [name]
        rw [if_neg hname]
        exact List.mem_singleton_self name
  · rename_i hnew
    split
    · exact .skip rfl
    · rename_i tok
      refine .add rfl ?_ ?_ ?_ ?_ ?_
      · rfl
      · exact hnew
      · exact ⟨normalizeMAC_idem mac, hne⟩
      · rfl
      · exact List.mem_cons_self

theorem heartbeat_change (s : State) (token : Str) (now : Time) :
    Change s (.heartbeat token now) (heartbeat s token now).memory := by
  rw [heartbeat]
  split
  · exact .none
  split
  · exact .none
  · rename_i c hc
    exact .touch hc rfl rfl rfl (Or.inl rfl)

/-- An edit of a record that leaves its owner. -/
theorem editState_change {s : State} {id : Str} {call : Call} (h : ¬ s.clients[id]? = none)
    {edit : ClientState → ClientState} (hown : ∀ st, (edit st).clientID = st.clientID)
    (hreason : ∀ st, (edit st).lockReason = st.lockReason ∨ (edit st).lockReason ∈ call.texts) :
    Change s call (editState s id edit).memory := by
  obtain ⟨c, hc⟩ := Option.ne_none_iff_exists'.mp h
  exact .edit hc rfl (hown _) (hreason _)

theorem attempt_change (s : State) (c : Call) : Change s c (c.attempt s).memory := by
  cases c with
  | register name mac now tok => exact register_change s name mac now tok
  | heartbeat token now => exact heartbeat_change s token now
  | setLock id locked reason =>
    rw [Call.attempt, setLock]
    split
    · exact .none
    · rename_i h
      refine editState_change h ?_ ?_
      · exact fun _ => rfl
      · exact fun _ => Or.inr List.mem_cons_self
  | startSession id duration now =>
    rw [Call.attempt, startSession]
    split
    · exact .none
    split
    · exact .none
    · rename_i h _
      refine editState_change h ?_ ?_
      · exact fun _ => rfl
      · exact fun _ => Or.inl rfl
  | endSession id =>
    rw [Call.attempt, endSession]
    split
    · exact .none
    · rename_i h
      refine editState_change h ?_ ?_
      · exact fun _ => rfl
      · exact fun _ => Or.inl rfl

/-! ## Changes keep the invariant -/

theorem tokenKey_eq {c : Client} (h : c.token ≠ []) : c.tokenKey = some c.token := if_neg h

section Changes

variable {s : State} {used : List Token}

theorem inv_empty : Inv .empty where
  key := by intro id c h; exact absurd h (by simp [State.empty])
  normal := by intro id c h; exact absurd h (by simp [State.empty])
  byMAC := Inverse.empty _
  token := by intro id c h; exact absurd h (by simp [State.empty])
  byToken := Inverse.empty _
  record := by intro id c h; exact absurd h (by simp [State.empty])
  own := by intro id st h; exact absurd h (by simp [State.empty])
  seq := by intro id c h; exact absurd h (by simp [State.empty])

theorem Inv.touch (h : Inv s) {id : Str} {c c' : Client} (hc : s.clients[id]? = some c)
    (hid : c'.id = c.id) (hmac : c'.mac = c.mac) (htoken : c'.token = c.token) :
    Inv { s with clients := s.clients.insert id c' } where
  key := forall_insert h.key (hid.trans (h.key hc))
  normal := forall_insert (P := fun _ (c : Client) => Normal c.mac) h.normal
    (by rw [hmac]; exact h.normal hc)
  byMAC := h.byMAC.insert_same hc (by rw [Client.macKey, Client.macKey, hmac])
  token := forall_insert h.token (by rw [htoken]; exact h.token hc)
  byToken := h.byToken.insert_same hc (by rw [Client.tokenKey, Client.tokenKey, htoken])
  record := forall_insert h.record (h.record hc)
  own := h.own
  seq := forall_insert h.seq (h.seq hc)

theorem Inv.skip (h : Inv s) : Inv { s with seq := s.seq + 1 } where
  key := h.key
  normal := h.normal
  byMAC := h.byMAC
  token := h.token
  byToken := h.byToken
  record := h.record
  own := h.own
  seq := fun hc => Nat.le_succ_of_le (h.seq hc)

theorem Inv.edit (h : Inv s) {id : Str} {st : ClientState}
    (hst : st.clientID = ((s.states[id]?).getD (.fresh id)).clientID) :
    Inv { s with states := s.states.insert id st } where
  key := h.key
  normal := h.normal
  byMAC := h.byMAC
  token := h.token
  byToken := h.byToken
  record := fun hc => getElem?_insert_ne_none (h.record hc) id st
  own := by
    refine forall_insert h.own ?_
    rw [hst]
    cases hs : s.states[id]? with
    | none => rfl
    | some old => exact h.own hs
  seq := h.seq

/-- The next id is not in use. -/
theorem Inv.next_free (h : Inv s) : s.clients[clientID (s.seq + 1)]? = none := by
  cases hc : s.clients[clientID (s.seq + 1)]? with
  | none => rfl
  | some c =>
    have hle := h.seq hc
    rw [idSeq_clientID] at hle
    omega

/-- A token that was not generated before is not in use. -/
theorem Inv.token_free (h : Inv s) (hknown : Known used s) {tok : Token} (htok : tok ∉ used) :
    s.byToken[tok.text]? = none := by
  cases hid : s.byToken[tok.text]? with
  | none => rfl
  | some id =>
    obtain ⟨c, hc, hkey⟩ := (h.byToken _ _).mp hid
    rw [tokenKey_eq (h.token hc)] at hkey
    obtain ⟨t, ht, htext⟩ := hknown id c hc
    have hsame : t = tok := by
      cases t
      cases tok
      rw [Token.mk.injEq]
      exact htext.symm.trans (Option.some.inj hkey)
    exact absurd (hsame ▸ ht) htok

theorem Inv.add (h : Inv s) {c : Client} (hid : c.id = clientID (s.seq + 1))
    (hmac : s.byMAC[c.mac]? = none) (hnormal : Normal c.mac)
    (htoken : c.token ≠ []) (hfree : s.byToken[c.token]? = none) :
    Inv (State.add { s with seq := s.seq + 1 } c) := by
  have hnew : s.clients[c.id]? = none := by rw [hid, h.next_free]
  have hmacKey : c.macKey = some c.mac := by rw [Client.macKey, hnormal.1]
  refine
    { key := forall_insert h.key rfl
      normal := forall_insert (P := fun _ (c : Client) => Normal c.mac) h.normal hnormal
      byMAC := h.byMAC.insert_new hnew hmac hmacKey
      token := forall_insert h.token htoken
      byToken := h.byToken.insert_new hnew hfree (tokenKey_eq htoken)
      record := ?_
      own := ?_
      seq := ?_ }
  · intro id w hw
    show (s.states.insertIfNew c.id (.fresh c.id))[id]? ≠ none
    apply getElem?_insertIfNew_ne_none
    rcases getElem?_insert_eq_some hw with ⟨hself, -⟩ | ⟨-, hw⟩
    · exact Or.inl hself
    · exact Or.inr (h.record hw)
  · intro id st hst
    have hfresh : (ClientState.fresh c.id).clientID = c.id := rfl
    exact forall_insertIfNew (P := fun id (st : ClientState) => st.clientID = id) h.own hfresh hst
  · refine forall_insert (fun hc => Nat.le_succ_of_le (h.seq hc)) ?_
    rw [hid, idSeq_clientID]

/-- Memory with the invariant, all of whose tokens are known. -/
structure Good (used : List Token) (s : State) : Prop where
  inv : Inv s
  known : Known used s

theorem Known.mono {used' : List Token} (hsub : used ⊆ used') (h : Known used s) :
    Known used' s := by
  intro id c hc
  obtain ⟨t, ht, htext⟩ := h id c hc
  exact ⟨t, hsub ht, htext⟩

theorem token_ne_nil (tok : Token) : tok.text ≠ [] := by
  intro h
  have hlen := tok.length_eq
  rw [h] at hlen
  cases hlen

/-- Every change keeps the invariant when the token it takes is new. -/
theorem Good.change {call : Call} {s' : State} (h : Good used s) (hchange : Change s call s')
    (hnew : ∀ tok ∈ call.token, tok ∉ used) : Good (used ++ call.token.toList) s' := by
  have hknown := h.known.mono (List.subset_append_left used call.token.toList)
  cases hchange with
  | none => exact ⟨h.inv, hknown⟩
  | touch hc hid hmac htoken _ =>
    refine ⟨h.inv.touch hc hid hmac htoken, fun id w hw => ?_⟩
    refine forall_insert
      (P := fun _ (c : Client) => ∃ t ∈ used ++ call.token.toList, c.token = t.text)
      (hknown _ _) ?_ hw
    rw [htoken]
    exact hknown _ _ hc
  | skip _ => exact ⟨h.inv.skip, hknown⟩
  | edit _ hst hown _ => exact ⟨h.inv.edit (hst ▸ hown), hknown⟩
  | @add c tok hgen hid hmac hnormal htoken _ =>
    have htok : call.token = some tok := by
      rw [Call.token, hgen]
      rfl
    have hfree := h.inv.token_free h.known (hnew tok htok)
    rw [← htoken] at hfree
    have hne : c.token ≠ [] := by
      rw [htoken]
      exact token_ne_nil tok
    refine ⟨h.inv.add hid hmac hnormal hne hfree, fun id w hw => ?_⟩
    refine forall_insert
      (P := fun _ (c : Client) => ∃ t ∈ used ++ call.token.toList, c.token = t.text)
      (hknown _ _) ?_ hw
    refine ⟨tok, List.mem_append_right used ?_, htoken⟩
    rw [htok]
    exact List.mem_singleton_self tok

end Changes

/-! ## Restarts -/

/-- What is loaded from a file that was written from `s`. -/
def reloaded {Text : Type} (json : Json Text) (order : Order Str Client) (s : State) : State :=
  rebuildIndexes order
    { clients := s.clients.map fun _ c => { c with name := json.coerce c.name }
      states := s.states.map fun _ st => { st with lockReason := json.coerce st.lockReason } }

section Restart

variable {Text : Type} {json : Json Text} {order : Order Str Client} {s : State}
  {used : List Token}

theorem newState_marshal (json : Json Text) (order : Order Str Client) (s : State) :
    newState json order (.data (json.marshal s.toDoc)) = some (reloaded json order s) := by
  rw [newState, readState, json.marshal_ne_empty, if_neg Bool.false_ne_true, json.unmarshal_marshal]
  rfl

/-- A loaded client is one that was saved, with another name at most. -/
theorem reloaded_client {id : Str} {c : Client}
    (h : (reloaded json order s).clients[id]? = some c) :
    ∃ c₀, s.clients[id]? = some c₀ ∧ c.id = c₀.id ∧ c.mac = c₀.mac ∧ c.token = c₀.token := by
  change (s.clients.map _)[id]? = some c at h
  rw [Std.ExtTreeMap.getElem?_map] at h
  obtain ⟨c₀, hc₀, rfl⟩ := Option.map_eq_some_iff.mp h
  exact ⟨c₀, hc₀, rfl, rfl, rfl⟩

theorem reloaded_state {id : Str} : (reloaded json order s).states[id]? =
    (s.states[id]?).map fun st => { st with lockReason := json.coerce st.lockReason } := by
  change (s.states.map _)[id]? = _
  rw [Std.ExtTreeMap.getElem?_map]

theorem Inv.reloaded (h : Inv s) : Inv (reloaded json order s) where
  key := by
    intro id c hc
    obtain ⟨c₀, hc₀, hid, -, -⟩ := reloaded_client hc
    rw [hid, h.key hc₀]
  normal := by
    intro id c hc
    obtain ⟨c₀, hc₀, -, hmac, -⟩ := reloaded_client hc
    rw [hmac]
    exact h.normal hc₀
  byMAC := by
    refine inverse_indexBy order ?_
    intro id id' c c' mac hc hc' hmac hmac'
    obtain ⟨c₀, hc₀, -, heq, -⟩ := reloaded_client hc
    obtain ⟨c₀', hc₀', -, heq', -⟩ := reloaded_client hc'
    rw [Client.macKey, heq] at hmac
    rw [Client.macKey, heq'] at hmac'
    exact h.byMAC.inj hc₀ hc₀' hmac hmac'
  token := by
    intro id c hc
    obtain ⟨c₀, hc₀, -, -, htoken⟩ := reloaded_client hc
    rw [htoken]
    exact h.token hc₀
  byToken := by
    refine inverse_indexBy order ?_
    intro id id' c c' tok hc hc' htok htok'
    obtain ⟨c₀, hc₀, -, -, heq⟩ := reloaded_client hc
    obtain ⟨c₀', hc₀', -, -, heq'⟩ := reloaded_client hc'
    rw [Client.tokenKey, heq] at htok
    rw [Client.tokenKey, heq'] at htok'
    exact h.byToken.inj hc₀ hc₀' htok htok'
  record := by
    intro id c hc
    obtain ⟨c₀, hc₀, -⟩ := reloaded_client hc
    rw [reloaded_state]
    obtain ⟨st, hst⟩ := Option.ne_none_iff_exists'.mp (h.record hc₀)
    rw [hst]
    exact Option.some_ne_none _
  own := by
    intro id st hst
    rw [reloaded_state] at hst
    obtain ⟨st₀, hst₀, rfl⟩ := Option.map_eq_some_iff.mp hst
    show st₀.clientID = id
    exact h.own hst₀
  seq := fun hc => le_maxKey order idSeq hc

theorem Good.reloaded (h : Good used s) : Good used (reloaded json order s) := by
  refine ⟨h.inv.reloaded, ?_⟩
  intro id c hc
  obtain ⟨c₀, hc₀, -, -, htoken⟩ := reloaded_client hc
  rw [htoken]
  exact h.known id c₀ hc₀

theorem Good.mono {used' : List Token} (hsub : used ⊆ used') (h : Good used s) : Good used' s :=
  ⟨h.inv, h.known.mono hsub⟩

theorem good_empty (used : List Token) : Good used .empty := by
  refine ⟨inv_empty, ?_⟩
  intro id c h
  exact absurd h (by simp [State.empty])

end Restart

/-! ## Runs -/

/-- A property of memory, and of the memory the state file was written from. -/
structure Holds {Text : Type} (json : Json Text) (G : State → Prop) (p : Process Text) :
    Prop where
  memory : G p.memory
  file : ∀ text, p.file = some text → ∃ s, G s ∧ text = json.marshal s.toDoc

def Op.token : Op → Option Token
  | .call c _ => c.token
  | .restart _ => none

section Runs

variable {Text : Type} {json : Json Text} {G G' : State → Prop} {p : Process Text}

theorem holds_boot (h : G .empty) : Holds json G (boot : Process Text) where
  memory := h
  file := fun _ hfile => by cases hfile

theorem Holds.mono (hmono : ∀ s, G s → G' s) (h : Holds json G p) : Holds json G' p where
  memory := hmono _ h.memory
  file := by
    intro text htext
    obtain ⟨s, hs, heq⟩ := h.file text htext
    exact ⟨s, hmono s hs, heq⟩

/-- A call leaves the file or writes the new memory. -/
theorem Holds.call (h : Holds json G p) (hmono : ∀ s, G s → G' s) {c : Call}
    (hchange : G' (c.attempt p.memory).memory) (fault : Option Fault) :
    Holds json G' (call json p c fault).2 := by
  rw [Server.call]
  cases hattempt : c.attempt p.memory with
  | stops reply s =>
    rw [hattempt] at hchange
    exact ⟨hchange, (h.mono hmono).file⟩
  | persists reply s =>
    rw [hattempt] at hchange
    cases fault with
    | some f => exact ⟨hchange, (h.mono hmono).file⟩
    | none =>
      refine ⟨hchange, ?_⟩
      intro text htext
      exact ⟨s, hchange, (Option.some.inj htext).symm⟩

/-- A restart finds an empty state or what was written. -/
theorem Holds.restart (h : Holds json G p) (hempty : G .empty) {order : Order Str Client}
    (hreload : ∀ s, G s → G (reloaded json order s)) : Holds json G (restart json p order) := by
  have hnew : ∃ s, newState json order p.fileData = some s ∧ G s := by
    rw [Process.fileData]
    cases hfile : p.file with
    | none => exact ⟨.empty, rfl, hempty⟩
    | some text =>
      obtain ⟨s, hs, rfl⟩ := h.file text hfile
      exact ⟨_, newState_marshal json order s, hreload s hs⟩
  obtain ⟨s, hnew, hs⟩ := hnew
  rw [Server.restart, hnew]
  exact ⟨hs, h.file⟩

/-- What every step keeps that takes a new token, a run keeps that takes no token
twice. -/
theorem Holds.run {G : List Token → State → Prop} {P : Op → Prop}
    (hstep : ∀ used p op, Holds json (G used) p → P op → (∀ tok ∈ op.token, tok ∉ used) →
      Holds json (G (used ++ op.token.toList)) (step json p op))
    {used : List Token} (h : Holds json (G used) p) (ops : List Op) (hP : ∀ op ∈ ops, P op)
    (htokens : (used ++ ops.filterMap Op.token).Nodup) :
    Holds json (G (used ++ ops.filterMap Op.token)) (Machine.run (Server.step json) p ops) := by
  induction ops generalizing used p with
  | nil =>
    rw [List.filterMap_nil, List.append_nil]
    exact h
  | cons op ops ih =>
    have hsplit : used ++ (op :: ops).filterMap Op.token =
        (used ++ op.token.toList) ++ ops.filterMap Op.token := by
      rw [List.filterMap_cons, List.append_assoc]
      cases op.token with
      | none => rfl
      | some tok => rfl
    rw [hsplit] at htokens ⊢
    have hnew : ∀ tok ∈ op.token, tok ∉ used := by
      intro tok htok hused
      have hfirst := List.nodup_append.mp (List.nodup_append.mp htokens).1
      exact hfirst.2.2 tok hused tok (Option.mem_toList.mpr htok) rfl
    exact ih (hstep used p op h (hP op List.mem_cons_self) hnew)
      (fun op' hop' => hP op' (List.mem_cons_of_mem op hop')) htokens

theorem Good.step {used : List Token} (h : Holds json (Good used) p) (op : Op)
    (hnew : ∀ tok ∈ op.token, tok ∉ used) :
    Holds json (Good (used ++ op.token.toList)) (step json p op) := by
  cases op with
  | call c fault =>
    refine h.call (fun s hs => hs.mono (List.subset_append_left _ _)) ?_ fault
    exact h.memory.change (attempt_change p.memory c) hnew
  | restart order =>
    show Holds json (Good (used ++ [])) (Server.restart json p order)
    rw [List.append_nil]
    exact h.restart (good_empty used) fun s hs => hs.reloaded

end Runs

/-! ## The numbers of the ids -/

/-- No id has a number above `n`. -/
structure Numbered (n : ℕ) (s : State) : Prop where
  seq : s.seq ≤ n
  id : ∀ {id : Str} {c : Client}, s.clients[id]? = some c → idSeq id ≤ n

section Numbers

variable {s : State} {n : ℕ}

theorem Numbered.mono {m : ℕ} (hle : n ≤ m) (h : Numbered n s) : Numbered m s :=
  ⟨h.seq.trans hle, fun hc => (h.id hc).trans hle⟩

/-- A change uses the next number at most. -/
theorem Numbered.change {call : Call} {s' : State} (h : Numbered n s)
    (hchange : Change s call s') : Numbered (n + 1) s' := by
  have hmono := h.mono (Nat.le_add_right n 1)
  cases hchange with
  | none => exact hmono
  | touch hc _ _ _ _ =>
    exact ⟨hmono.seq, forall_insert (P := fun id _ => idSeq id ≤ n + 1) hmono.id (hmono.id hc)⟩
  | skip _ => exact ⟨Nat.succ_le_succ h.seq, hmono.id⟩
  | edit _ _ _ _ => exact ⟨hmono.seq, hmono.id⟩
  | add _ hid _ _ _ _ =>
    refine ⟨Nat.succ_le_succ h.seq, forall_insert (P := fun id _ => idSeq id ≤ n + 1) hmono.id ?_⟩
    rw [hid, idSeq_clientID]
    exact Nat.succ_le_succ h.seq

theorem Numbered.reloaded {Text : Type} {json : Json Text} {order : Order Str Client}
    (h : Numbered n s) : Numbered n (reloaded json order s) := by
  have hid {id : Str} {c : Client} (hc : (Server.reloaded json order s).clients[id]? = some c) :
      idSeq id ≤ n := by
    obtain ⟨c₀, hc₀, -⟩ := reloaded_client hc
    exact h.id hc₀
  refine ⟨?_, hid⟩
  show maxKey order idSeq (Server.reloaded json order s).clients ≤ n
  obtain hzero | ⟨id, c, hc, hmax⟩ :=
    maxKey_attained order idSeq (Server.reloaded json order s).clients
  · rw [hzero]
    exact Nat.zero_le n
  · rw [hmax]
    exact hid hc

end Numbers

/-- The numbers of a run are at most as many as its operations. -/
theorem numbered_run {Text : Type} (json : Json Text) (ops : List Op) :
    Numbered ops.length (run (step json) boot ops).memory := by
  have hempty (n : ℕ) : Numbered n .empty :=
    ⟨Nat.zero_le n, fun hc => absurd hc (by simp [State.empty])⟩
  have hrun : ∀ (ops : List Op) (n : ℕ) (p : Process Text), Holds json (Numbered n) p →
      Holds json (Numbered (n + ops.length)) (run (step json) p ops) := by
    intro ops
    induction ops with
    | nil => exact fun n p h => h
    | cons op ops ih =>
      intro n p h
      have hmono (s : State) (hs : Numbered n s) : Numbered (n + 1) s :=
        hs.mono (Nat.le_add_right n 1)
      have hstep : Holds json (Numbered (n + 1)) (step json p op) := by
        cases op with
        | call c fault =>
          exact h.call hmono (h.memory.change (attempt_change p.memory c)) fault
        | restart order => exact (h.restart (hempty n) fun s hs => hs.reloaded).mono hmono
      rw [List.length_cons, Nat.add_comm ops.length, ← Nat.add_assoc]
      exact ih (n + 1) (step json p op) hstep
  have hall := (hrun ops 0 boot (holds_boot (hempty 0))).memory
  rw [Nat.zero_add] at hall
  exact hall

/-! ## Registration -/

/-- A client that `Register` creates has an id that was not in use. -/
def ReusesNoID (s : State) : Prop :=
  ∀ name mac now tok c s', register s name mac now tok = .persists (.client c true) s' →
    s.clients[c.id]? = none

/-- However the address of a client is written, `Register` finds the client and creates
none. -/
def KnowsSpellings (s : State) : Prop :=
  ∀ (id : Str) (c : Client), s.clients[id]? = some c → ∀ mac, Spells mac c.mac →
    ∀ name now tok, ∃ c' s', register s name mac now tok = .persists (.client c' false) s' ∧
      c'.id = id ∧ ∀ id' : Str, s'.clients[id']?.isSome = s.clients[id']?.isSome

theorem Inv.reusesNoID {s : State} (h : Inv s) : ReusesNoID s := by
  intro name mac now tok c s' hreg
  rw [register] at hreg
  dsimp only at hreg
  split at hreg
  · cases hreg
  split at hreg
  · rw [registerAgain] at hreg
    split at hreg
    · cases hreg
    · injection hreg with hreply
      injection hreply with _ hflag
      cases hflag
  split at hreg
  · cases hreg
  · injection hreg with hreply
    injection hreply with hc
    rw [← hc]
    exact h.next_free

theorem Inv.knowsSpellings {s : State} (h : Inv s) : KnowsSpellings s := by
  intro id c hc mac hspells name now tok
  have hnorm : normalizeMAC mac = c.mac := by
    rw [normalizeMAC_of_spells hspells, (h.normal hc).1]
  have hfound : s.byMAC[c.mac]? = some id := by
    refine (h.byMAC _ _).mpr ⟨c, hc, ?_⟩
    rw [Client.macKey, (h.normal hc).1]
  have hkey : c.id = id := h.key hc
  refine ⟨c.again name now, { s with clients := s.clients.insert id (c.again name now) }, ?_,
    hkey, ?_⟩
  · rw [register, hnorm]
    dsimp only
    rw [if_neg (h.normal hc).2, hfound]
    dsimp only
    rw [registerAgain, hc]
  · intro id'
    by_cases hid : id' = id
    · rw [hid, hc]
      show (s.clients.insert id (c.again name now))[id]?.isSome = true
      rw [Std.ExtTreeMap.getElem?_insert_self]
      rfl
    · show (s.clients.insert id (c.again name now))[id']?.isSome = _
      rw [getElem?_insert_of_ne _ hid]

theorem inv_run_boot {Text : Type} (json : Json Text) (ops : List Op)
    (htokens : (ops.filterMap Op.token).Nodup) : Inv (run (step json) boot ops).memory := by
  have hboot : Holds json (Good []) boot := holds_boot (good_empty [])
  have hrun := Holds.run (P := fun _ => True) (fun used p op h _ hnew => Good.step h op hnew) hboot
    ops (fun _ _ => trivial) htokens
  exact hrun.memory.inv

/-- In every state of every run, with failures of `persistLocked` and `generateToken`
anywhere and restarts on the file, the store has its invariant, reuses no id and
knows every spelling of a registered address. -/
theorem store_invariant {Text : Type} (json : Json Text) (ops : List Op)
    (htokens : (ops.filterMap Op.token).Nodup) :
    Inv (run (step json) boot ops).memory ∧ ReusesNoID (run (step json) boot ops).memory ∧
      KnowsSpellings (run (step json) boot ops).memory := by
  have hinv := inv_run_boot json ops htokens
  exact ⟨hinv, hinv.reusesNoID, hinv.knowsSpellings⟩

/-! A run with a failed save, a restart and the same address in two spellings. -/

def plainJson : Json Doc where
  marshal := id
  unmarshal := fun d => some
    { clients := some (d.clients.map fun _ c => c), states := some (d.states.map fun _ st => st) }
  isEmpty := fun _ => false
  coerce := id
  unmarshal_marshal := fun _ => rfl
  marshal_ne_empty := fun _ => rfl
  coerce_nil := rfl

def token (c : Char) : Token := ⟨List.replicate 48 c, List.length_replicate⟩

def twoSpellings : List Op :=
  [.call (.register "pc1".toList "52:54:00:A1:B2:C3".toList 10 (some (token 'a'))) none,
    .call (.register "pc2".toList "52:54:00:a1:b2:c4".toList 20 (some (token 'b'))) (some .sync),
    .restart (.sorted Str Client),
    .call (.register "pc1".toList "525400a1b2c3".toList 30 none) none]

theorem store_invariant_two_spellings :
    (twoSpellings.filterMap Op.token).Nodup ∧
      Inv (run (step plainJson) boot twoSpellings).memory := by
  have htokens : (twoSpellings.filterMap Op.token).Nodup := by decide
  exact ⟨htokens, (store_invariant plainJson twoSpellings htokens).1⟩

end Server
end MkyBoot
