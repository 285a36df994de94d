import MkyBoot.Server.Failure

/-!
# What a restart finds after a saved operation

The file has clients and records only; the indexes and the id sequence are derived
from them when the state is loaded.  As long as the texts are valid and
`generateToken` works, memory is exactly what is derived from its own clients and
records, so a restart after a saved operation brings the same memory back.
-/

namespace MkyBoot
namespace Server

open Go Machine

/-- The json module gives the free texts back, and the id sequence is the number of a
client. -/
structure Derived {Text : Type} (json : Json Text) (s : State) : Prop where
  names : ∀ {id : Str} {c : Client}, s.clients[id]? = some c → json.coerce c.name = c.name
  reasons : ∀ {id : Str} {st : ClientState}, s.states[id]? = some st →
    json.coerce st.lockReason = st.lockReason
  seq : s.seq = 0 ∨ ∃ (id : Str) (c : Client), s.clients[id]? = some c ∧ idSeq id = s.seq

/-- `generateToken` works, and the texts are valid UTF-8. -/
def Call.Clean {Text : Type} (json : Json Text) (c : Call) : Prop :=
  c.generated ≠ some none ∧ ∀ text ∈ c.texts, json.coerce text = text

def Op.Clean {Text : Type} (json : Json Text) : Op → Prop
  | .call c _ => c.Clean json
  | .restart _ => True

section Reload

variable {Text : Type} {json : Json Text} {s : State}

theorem reloaded_clients (h : Derived json s) (order : Order Str Client) :
    (reloaded json order s).clients = s.clients := by
  refine Std.ExtTreeMap.ext_getElem? fun id => ?_
  show (s.clients.map _)[id]? = _
  rw [Std.ExtTreeMap.getElem?_map]
  cases hc : s.clients[id]? with
  | none => rfl
  | some c =>
    show some { c with name := json.coerce c.name } = some c
    rw [h.names hc]

theorem reloaded_states (h : Derived json s) (order : Order Str Client) :
    (reloaded json order s).states = s.states := by
  refine Std.ExtTreeMap.ext_getElem? fun id => ?_
  rw [reloaded_state]
  cases hst : s.states[id]? with
  | none => rfl
  | some st =>
    show some { st with lockReason := json.coerce st.lockReason } = some st
    rw [h.reasons hst]

theorem reloaded_seq (hinv : Inv s) (h : Derived json s) (order : Order Str Client) :
    (reloaded json order s).seq = s.seq := by
  have hmax : (reloaded json order s).seq = maxKey order idSeq s.clients := by
    show maxKey order idSeq (reloaded json order s).clients = _
    rw [reloaded_clients h]
  rw [hmax]
  apply Nat.le_antisymm
  · rcases maxKey_attained order idSeq s.clients with hzero | ⟨id, c, hc, heq⟩
    · omega
    · rw [heq]
      exact hinv.seq hc
  · rcases h.seq with hzero | ⟨id, c, hc, heq⟩
    · omega
    · rw [← heq]
      exact le_maxKey order idSeq hc

/-- What is loaded from the file written from memory is that memory. -/
theorem reloaded_eq (hinv : Inv s) (h : Derived json s) (order : Order Str Client) :
    reloaded json order s = s := by
  have hclients := reloaded_clients h order
  have hreloaded : Inv (reloaded json order s) := hinv.reloaded
  have hbyMAC : (reloaded json order s).byMAC = s.byMAC :=
    (hclients ▸ hreloaded.byMAC).unique hinv.byMAC
  have hbyToken : (reloaded json order s).byToken = s.byToken :=
    (hclients ▸ hreloaded.byToken).unique hinv.byToken
  exact State.ext hclients (reloaded_states h order) hbyMAC hbyToken (reloaded_seq hinv h order)

end Reload

section Runs

variable {Text : Type} {json : Json Text} {s s' : State}

theorem derived_empty : Derived json .empty where
  names := by intro id c h; exact absurd h (by simp [State.empty])
  reasons := by intro id st h; exact absurd h (by simp [State.empty])
  seq := Or.inl rfl

theorem Derived.touch (h : Derived json s) {id : Str} {c' : Client}
    (hname : json.coerce c'.name = c'.name) :
    Derived json { s with clients := s.clients.insert id c' } where
  names := forall_insert (P := fun _ (c : Client) => json.coerce c.name = c.name) h.names hname
  reasons := h.reasons
  seq := by
    rcases h.seq with hzero | ⟨id₀, c₀, hc₀, heq⟩
    · exact Or.inl hzero
    · have hne : (s.clients.insert id c')[id₀]? ≠ none := by
        apply getElem?_insert_ne_none
        rw [hc₀]
        exact Option.some_ne_none c₀
      obtain ⟨c₁, hc₁⟩ := Option.ne_none_iff_exists'.mp hne
      exact Or.inr ⟨id₀, c₁, hc₁, heq⟩

theorem Derived.edit (h : Derived json s) {id : Str} {st : ClientState}
    (hreason : json.coerce st.lockReason = st.lockReason) :
    Derived json { s with states := s.states.insert id st } where
  names := h.names
  reasons := forall_insert
    (P := fun _ (st : ClientState) => json.coerce st.lockReason = st.lockReason) h.reasons hreason
  seq := h.seq

theorem Derived.add (h : Derived json s) {c : Client} (hid : c.id = clientID (s.seq + 1))
    (hname : json.coerce c.name = c.name) :
    Derived json (State.add { s with seq := s.seq + 1 } c) where
  names := forall_insert (P := fun _ (c : Client) => json.coerce c.name = c.name) h.names hname
  reasons := forall_insertIfNew
    (P := fun _ (st : ClientState) => json.coerce st.lockReason = st.lockReason) h.reasons
    json.coerce_nil
  seq := by
    refine Or.inr ⟨c.id, c, Std.ExtTreeMap.getElem?_insert_self, ?_⟩
    rw [hid, idSeq_clientID]
    rfl

/-- A record that is edited, or the fresh one, has a valid reason. -/
theorem Derived.reason (h : Derived json s) (id : Str) :
    json.coerce ((s.states[id]?).getD (.fresh id)).lockReason =
      ((s.states[id]?).getD (.fresh id)).lockReason := by
  cases hst : s.states[id]? with
  | none => exact json.coerce_nil
  | some st => exact h.reasons hst

theorem Derived.change {call : Call} (h : Derived json s) (hclean : call.Clean json)
    (hchange : Change s call s') : Derived json s' := by
  cases hchange with
  | none => exact h
  | touch hc _ _ _ hname =>
    refine h.touch ?_
    rcases hname with hname | hname
    · rw [hname, h.names hc]
    · exact hclean.2 _ hname
  | skip hgen => exact absurd hgen hclean.1
  | add _ hid _ _ _ hname => exact h.add hid (hclean.2 _ hname)
  | edit _ hst _ hreason =>
    refine h.edit ?_
    rcases hreason with hreason | hreason
    · rw [hreason, hst, h.reason]
    · exact hclean.2 _ hreason

/-- Memory with the invariant that a restart brings back. -/
structure Durable (json : Json Text) (used : List Token) (s : State) : Prop where
  good : Good used s
  derived : Derived json s

theorem durable_empty (used : List Token) : Durable json used .empty :=
  ⟨good_empty used, derived_empty⟩

theorem Durable.step {p : Process Text} {used : List Token}
    (h : Holds json (Durable json used) p) (op : Op) (hclean : op.Clean json)
    (hnew : ∀ tok ∈ op.token, tok ∉ used) :
    Holds json (Durable json (used ++ op.token.toList)) (step json p op) := by
  cases op with
  | call c fault =>
    have hchange := attempt_change p.memory c
    refine h.call ?_ ?_ fault
    · exact fun s hs => ⟨hs.good.mono (List.subset_append_left _ _), hs.derived⟩
    · exact ⟨h.memory.good.change hchange hnew, h.memory.derived.change hclean hchange⟩
  | restart order =>
    show Holds json (Durable json (used ++ [])) (Server.restart json p order)
    rw [List.append_nil]
    refine h.restart (durable_empty used) ?_
    intro s hs
    rw [reloaded_eq hs.good.inv hs.derived]
    exact hs

/-- A call that changed memory and returned no error has saved the new memory. -/
theorem call_saved {p p' : Process Text} {c : Call} {fault : Option Fault} {reply : Reply}
    (hcall : call json p c fault = (reply, p')) (hok : ∀ e, reply ≠ .error e)
    (hchanged : p'.memory ≠ p.memory) : p'.file = some (json.marshal p'.memory.toDoc) := by
  have hdescribes := attempt_describes p.memory c
  rw [call] at hcall
  cases hattempt : c.attempt p.memory with
  | stops reply' s =>
    rw [hattempt] at hdescribes hcall
    injection hcall with hreply hp
    subst hreply hp
    have hsame : s = p.memory := by
      cases reply' with
      | error e => exact absurd rfl (hok e)
      | client c flag | unknownToken | state st | panicked | started => exact hdescribes
    exact absurd hsame hchanged
  | persists reply' s =>
    rw [hattempt] at hcall
    cases fault with
    | some f =>
      injection hcall with hreply _
      exact absurd hreply.symm (hok _)
    | none =>
      injection hcall with _ hp
      rw [← hp]

end Runs

/-- After a call that changed the state and returned no error, in any run of any
operations and restarts, `newState` on the file brings exactly the memory back:
clients, records, both indexes and the id sequence, in whatever order the loop visits
the clients.  So every later run is the same after a restart as without one.
`htokens` says that the random source does not repeat itself. -/
theorem saved_call_durable {Text : Type} (json : Json Text) {ops : List Op} {c : Call}
    {fault : Option Fault} {reply : Reply} {p p' : Process Text}
    (htokens : ((ops ++ [Op.call c fault]).filterMap Op.token).Nodup)
    (hclean : ∀ op ∈ ops ++ [Op.call c fault], op.Clean json)
    (hrun : run (step json) boot ops = p) (hcall : call json p c fault = (reply, p'))
    (hok : ∀ e, reply ≠ .error e) (hchanged : p'.memory ≠ p.memory) (order : Order Str Client) :
    newState json order p'.fileData = some p'.memory ∧
      ∀ later, run (step json) (restart json p' order) later = run (step json) p' later := by
  have hboot : Holds json (Durable json []) boot := holds_boot (durable_empty [])
  have hend : run (step json) boot (ops ++ [Op.call c fault]) = p' := by
    rw [run_append, hrun]
    show (call json p c fault).2 = p'
    rw [hcall]
  have hholds := Holds.run (P := Op.Clean json)
    (fun used p op h hclean hnew => Durable.step h op hclean hnew) hboot
    (ops ++ [Op.call c fault]) hclean htokens
  rw [hend] at hholds
  have hnew : newState json order p'.fileData = some p'.memory := by
    rw [Process.fileData, call_saved hcall hok hchanged]
    dsimp only
    rw [newState_marshal, reloaded_eq hholds.memory.good.inv hholds.memory.derived order]
  refine ⟨hnew, ?_⟩
  intro later
  rw [restart, hnew]

def lateLock : Call := .setLock "client-0001".toList true "late".toList

def locked : Process Doc := (call plainJson registered lateLock none).2

theorem saved_lock_durable :
    (call plainJson registered lateLock none).1 = .state
        { ClientState.fresh "client-0001".toList with
          locked := true, lockReason := "late".toList } ∧
      newState plainJson (.sorted Str Client) locked.fileData = some locked.memory := by
  have hreply : (call plainJson registered lateLock none).1 = .state
      { ClientState.fresh "client-0001".toList with
        locked := true, lockReason := "late".toList } := by decide +kernel
  have hclean : ∀ op ∈ oneClient ++ [Op.call lateLock none], op.Clean plainJson := by
    intro op hop
    rcases List.mem_cons.mp hop with rfl | hop
    · exact ⟨by decide, fun _ _ => rfl⟩
    · have hlock : op = Op.call lateLock none := List.mem_singleton.mp hop
      rw [hlock]
      exact ⟨by decide, fun _ _ => rfl⟩
  refine ⟨hreply, ?_⟩
  refine (saved_call_durable plainJson (by decide) hclean rfl (Prod.ext hreply rfl) ?_ ?_
    (.sorted Str Client)).1
  · exact fun e h => by cases h
  · decide +kernel

end Server
end MkyBoot
