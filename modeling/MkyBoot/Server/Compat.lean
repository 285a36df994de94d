import MkyBoot.Server.Config
import MkyBoot.Server.Views

/-!
# The list of clients and the status for launchers

`List` visits the clients in any order and sorts them by their ids.  The administrator gets
this list, and the status that launchers ask for counts it.  `list_run` says that the list
has every client once, by id, whatever order the map was visited in.

`rootAnswer` is `handleRoot` with the bodies that it writes.
-/

namespace MkyBoot
namespace Server

open Go Machine

/-! ## The list of clients -/

/-- In nanoseconds. -/
def heartbeatOfflineAfter : ℤ := 90 * second

/-- `Sub` stops at the ends of its range, which are not between a difference and the limit. -/
def onlineLocked (c : Client) (now : Time) : Bool :=
  c.lastSeen ≠ Time.zero && now - c.lastSeen ≤ heartbeatOfflineAfter

structure ClientView extends Client where
  online : Bool
  deriving DecidableEq

def Client.view (now : Time) (c : Client) : ClientView := ⟨c, onlineLocked c now⟩

def ClientView.le (a b : ClientView) : Bool := (compare a.id b.id).isLE

/-- `List`.  The bytes of two texts compare as their characters do. -/
def list (order : Order Str Client) (s : State) (now : Time) : List ClientView :=
  ((entries order s.clients).map fun e => e.2.view now).mergeSort ClientView.le

/-! ### Clients are kept under their ids -/

def Keyed (s : State) : Prop :=
  ∀ (id : Str) (c : Client), s.clients[id]? = some c → c.id = id

theorem Keyed.change {s s' : State} {call : Call} (h : Keyed s) (hchange : Change s call s') :
    Keyed s' := by
  cases hchange with
  | none => exact h
  | touch hc hid _ _ _ =>
    exact fun _ _ => forall_insert (P := fun id (c : Client) => c.id = id) (h _ _)
      (hid.trans (h _ _ hc))
  | skip _ => exact h
  | edit _ _ _ _ => exact h
  | add _ _ _ _ _ _ =>
    exact fun _ _ => forall_insert (P := fun id (c : Client) => c.id = id) (h _ _) rfl

theorem Keyed.reloaded {Text : Type} {json : Json Text} {order : Order Str Client} {s : State}
    (h : Keyed s) : Keyed (reloaded json order s) := by
  intro id c hc
  obtain ⟨c₀, hc₀, hid, -, -⟩ := reloaded_client hc
  rw [hid, h id c₀ hc₀]

theorem keyed_run {Text : Type} (json : Json Text) (ops : List Op) :
    Keyed (run (step json) boot ops).memory := by
  have hempty : Keyed .empty := fun id c hc => absurd hc (by simp [State.empty])
  have hstep (p : Process Text) (op : Op) (h : Holds json Keyed p) :
      Holds json Keyed (step json p op) := by
    cases op with
    | call c fault => exact h.call (fun _ => id) (h.memory.change (attempt_change p.memory c)) fault
    | restart order => exact h.restart hempty fun s hs => hs.reloaded
  exact (List.foldlRecOn ops (step json) (holds_boot hempty) fun p hp op _ => hstep p op hp).memory

section List

variable {s : State} (order : Order Str Client) (now : Time)

theorem list_perm : (list order s now).Perm (s.clients.toList.map fun e => e.2.view now) :=
  (List.mergeSort_perm _ _).trans ((order.perm s.clients.toList).map _)

theorem pairwise_list : (list order s now).Pairwise fun a b => ClientView.le a b := by
  apply List.pairwise_mergeSort
  · intro a b c hab hbc
    exact Std.TransCmp.isLE_trans hab hbc
  · intro a b
    have hswap : compare b.id a.id = (compare a.id b.id).swap := Std.OrientedCmp.eq_swap
    rw [Bool.or_eq_true, ClientView.le, ClientView.le, hswap]
    cases compare a.id b.id with
    | lt | eq => exact Or.inl rfl
    | gt => exact Or.inr rfl

theorem mem_list {v : ClientView} : v ∈ list order s now ↔
    ∃ (id : Str) (c : Client), s.clients[id]? = some c ∧ c.view now = v := by
  rw [(list_perm order now).mem_iff, List.mem_map]
  constructor
  · rintro ⟨e, he, hv⟩
    exact ⟨e.1, e.2, Std.ExtTreeMap.mem_toList_iff_getElem?_eq_some.mp he, hv⟩
  · rintro ⟨id, c, hc, hv⟩
    exact ⟨(id, c), Std.ExtTreeMap.mem_toList_iff_getElem?_eq_some.mpr hc, hv⟩

/-- The keys of a tree map are in order, and every client is kept under its id. -/
theorem pairwise_toList (hkeyed : Keyed s) : (s.clients.toList.map fun e => e.2.view now).Pairwise
    fun a b => compare a.id b.id = .lt := by
  rw [List.pairwise_map]
  have hid : ∀ e ∈ s.clients.toList, e.2.id = e.1 := by
    intro e he
    exact hkeyed _ _ (Std.ExtTreeMap.mem_toList_iff_getElem?_eq_some.mp he)
  have hordered : s.clients.toList.Pairwise fun a b => compare a.1 b.1 = .lt :=
    Std.ExtTreeMap.ordered_keys_toList
  refine hordered.imp_of_mem ?_
  intro a b ha hb hlt
  show compare a.2.id b.2.id = .lt
  rw [hid a ha, hid b hb]
  exact hlt

theorem list_eq (hkeyed : Keyed s) :
    list order s now = s.clients.toList.map fun e => e.2.view now := by
  refine List.Perm.eq_of_pairwise ?_ (pairwise_list order now)
    ((pairwise_toList now hkeyed).imp fun hlt => ?_) (list_perm order now)
  · intro a b ha hb hab hba
    obtain ⟨ida, ca, hca, rfl⟩ := (mem_list order now).mp ha
    obtain ⟨idb, cb, hcb, rfl⟩ := (mem_list order now).mp ((list_perm order now).mem_iff.mpr hb)
    have hids : ca.id = cb.id :=
      Std.LawfulEqCmp.eq_of_compare (Std.OrientedCmp.isLE_antisymm hab hba)
    rw [hkeyed _ _ hca, hkeyed _ _ hcb] at hids
    rw [hids] at hca
    rw [Option.some.inj (hca.symm.trans hcb)]
  · show (compare _ _).isLE = true
    rw [hlt]
    rfl

end List

/-- In every state of every run the list has every client once, in the order of the ids,
whatever order the map was visited in. -/
theorem list_run {Text : Type} (json : Json Text) (ops : List Op)
    (order order' : Order Str Client) (now : Time) :
    let s := (run (step json) boot ops).memory
    ((list order s now).Pairwise fun a b => compare a.id b.id = .lt) ∧
      (∀ v, v ∈ list order s now ↔ ∃ c, s.clients[v.id]? = some c ∧ c.view now = v) ∧
      list order s now = list order' s now := by
  intro s
  have hkeyed : Keyed s := keyed_run json ops
  refine ⟨?_, ?_, ?_⟩
  · rw [list_eq order now hkeyed]
    exact pairwise_toList now hkeyed
  · intro v
    rw [mem_list]
    constructor
    · rintro ⟨id, c, hc, rfl⟩
      refine ⟨c, ?_, rfl⟩
      show s.clients[c.id]? = some c
      rw [hkeyed id c hc, hc]
    · rintro ⟨c, hc, hv⟩
      exact ⟨v.id, c, hc, hv⟩
  · rw [list_eq order now hkeyed, list_eq order' now hkeyed]

/-! Two clients, with the map visited from its end. -/

def twoClients : List Op :=
  [.call (.register "pc1".toList "52:54:00:a1:b2:c3".toList 10 (some (token 'a'))) none,
    .call (.register "pc2".toList "52:54:00:a1:b2:c4".toList 20 (some (token 'b'))) none]

theorem list_run_backwards :
    (list (.sorted Str Client) (run (step plainJson) boot twoClients).memory 30).length = 2 ∧
      list ⟨List.reverse, List.reverse_perm⟩ (run (step plainJson) boot twoClients).memory 30 =
        list (.sorted Str Client) (run (step plainJson) boot twoClients).memory 30 := by
  refine ⟨?_, (list_run plainJson twoClients _ _ 30).2.2⟩
  rw [(list_perm _ 30).length_eq, List.length_map, Std.ExtTreeMap.length_toList]
  decide +kernel

/-! ## Bodies -/

def writeJSON (status : ℕ) (v : Json.Value) : ℕ × Str :=
  (status, Json.write .compact 0 v ++ ['\n'])

def writeError (status : ℕ) (msg : Str) : ℕ × Str :=
  writeJSON status (.obj [("error".toList, .str msg)])

theorem writeError_eq (status : ℕ) (msg : Str) : (writeError status msg).2 =
    '\x7b' :: (Json.quote "error".toList ++ ':' :: (Json.quote msg ++ "\x7d\n".toList)) := by
  rw [writeError, writeJSON]
  simp [Json.write, Json.writeMembers, Json.Layout.compact]

def serverVersion : Str := "0.1.0-phase2".toList

/-- `encoding/json` writes the keys of a map in order. -/
def statusValue (cfg : Config) (views : List ClientView) : Json.Value :=
  let total := views.length
  let online := views.countP (·.online)
  .obj
    [("clients".toList, .obj
      [("offline".toList, .num (Json.intText ((total : ℤ) - online))),
        ("online".toList, .num (Json.intText online)),
        ("total".toList, .num (Json.intText total))]),
      ("server".toList, .obj
        [("ipv4".toList, .str cfg.bindAddress), ("vendor".toList, .str "MKYBOOT".toList),
          ("version".toList, .str serverVersion)]),
      ("services".toList, .obj
        [("dhcp".toList, .bool false), ("iscsi".toList, .bool false),
          ("tftp".toList, .bool false)])]

def rootValue : Json.Value :=
  .obj
    [("admin".toList, .str "/api/clients (requires Bearer admin token)".toList),
      ("health".toList, .str "/healthz".toList), ("service".toList, .str "mkyboot-server".toList),
      ("version".toList, .str serverVersion)]

section Answers

variable {Body Text : Type} {sys : Filepath.Sys} (codec : Codec Body) (cfg : Config)
  (order : Order Str Client) (w : World Text sys) (v : Visit Body)

/-- `handleCompatStatus`, with its body. -/
def compatAnswer : ℕ × Str :=
  if v.method ≠ .get then writeError 405 "method not allowed".toList
  else if !requireAdmin codec w v.toRequest then
    writeJSON 200 (.obj [("error".toList, .str "Not authenticated".toList)])
  else writeJSON 200 (statusValue cfg (list order w.process.memory v.now))

/-- `handleRoot`, with its body. -/
def rootAnswer : ℕ × Str :=
  if v.path ≠ ['/'] then writeError 404 "not found".toList
  else if v.api = "status".toList then compatAnswer codec cfg order w v
  else if v.method ≠ .get then writeError 405 "method not allowed".toList
  else writeJSON 200 rootValue

/-- A response has a body of this form. -/
def Response.Has : Response → ℕ × Str → Prop
  | .json status, a => ∃ v, a = writeJSON status v
  | .error status (.text msg), a => a = writeError status msg
  | _, _ => False

theorem handleRoot_has : (handleRoot codec w v).1.Has (rootAnswer codec cfg order w v) := by
  unfold handleRoot rootAnswer
  split
  · rfl
  · split
    · unfold handleCompatStatus compatAnswer
      split
      · rfl
      · split
        · rfl
        · exact ⟨_, rfl⟩
    · split
      · rfl
      · exact ⟨_, rfl⟩

end Answers

end Server
end MkyBoot
