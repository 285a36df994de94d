import MkyBoot.Json.Reader
import MkyBoot.Server.Invariant

/-!
# Loading the state file

The maps of the state hold pointers, and a `null` in the file is a nil pointer.  `newState`
only builds the indexes anew; it dereferences every client on the way and checks nothing.
`load` is `newState` with these pointers and with the panic of the loop, and `load_sound_iff`
says for which files it is an error or a proper store.  Without nil pointers, and with numbers
that are an `int`, the loop is `rebuildIndexes` of the other modules, see `adopt_pointers` and
`adopt_run`.
-/

namespace MkyBoot
namespace Server

open Go

/-! ## The loader -/

/-- The maps of the state with their pointers, `none` for nil. -/
structure Pointers where
  clients : Map Str (Option Client)
  states : Map Str (Option ClientState)
  deriving DecidableEq

/-- A decoded file: a member that is null leaves a nil map. -/
structure Decoding where
  clients : Option (Map Str (Option Client))
  states : Option (Map Str (Option ClientState))

def Decoding.pointers (d : Decoding) : Pointers := ⟨d.clients.getD ∅, d.states.getD ∅⟩

structure Indexes where
  byMAC : Map Str Str
  byToken : Map Str Str
  seq : ℕ
  deriving DecidableEq

structure Store extends Pointers, Indexes
  deriving DecidableEq

/-- `idSeq`, where `strconv.Atoi` fails on a number that is no `int`. -/
def idSeqInt (id : Str) : ℕ := if idSeq id < 2 ^ 63 then idSeq id else 0

/-- A turn of the loop of `rebuildIndexes`, `none` where it dereferences nil. -/
def rebuildStep (x : Indexes) (e : Str × Option Client) : Option Indexes :=
  e.2.map fun c =>
    { byMAC := x.byMAC.insert (normalizeMAC c.mac) e.1
      byToken := if c.token ≠ [] then x.byToken.insert c.token e.1 else x.byToken
      seq := if x.seq < idSeqInt e.1 then idSeqInt e.1 else x.seq }

def rebuild (order : Order Str (Option Client)) (clients : Map Str (Option Client)) :
    Option Indexes :=
  (entries order clients).foldlM rebuildStep ⟨∅, ∅, 0⟩

inductive Outcome where
  | panics
  | error
  | loaded (s : Store)
  deriving DecidableEq

def emptyStore : Store := ⟨⟨∅, ∅⟩, ⟨∅, ∅, 0⟩⟩

/-- The end of `newState`, on what the file holds -/
def adopt (order : Order Str (Option Client)) (p : Pointers) : Outcome :=
  match rebuild order p.clients with
  | none => .panics
  | some x => .loaded ⟨p, x⟩

/-- `newState` -/
def load {Text : Type} (isEmpty : Text → Bool) (unmarshal : Text → Option Decoding)
    (order : Order Str (Option Client)) : FileData Text → Outcome
  | .missing => .loaded emptyStore
  | .unreadable => .error
  | .data text =>
    if isEmpty text then .loaded emptyStore
    else match unmarshal text with
      | none => .error
      | some d => adopt order d.pointers

/-! ## Proper stores -/

def macOf (c : Option Client) : Option Str := c.bind Client.macKey

def tokenOf (c : Option Client) : Option Str := c.bind Client.tokenKey

/-- No entry is nil, every client has the id it is kept under, and the indexes are the
inverses of the clients. -/
structure Store.Proper (s : Store) : Prop where
  client : ∀ {id : Str} {c : Option Client}, s.clients[id]? = some c → ∃ x, c = some x ∧ x.id = id
  state : ∀ {id : Str} {st : Option ClientState}, s.states[id]? = some st → st ≠ none
  byMAC : Inverse macOf s.clients s.byMAC
  byToken : Inverse tokenOf s.clients s.byToken

/-- An error, or a proper store, and no panic. -/
def Outcome.Sound : Outcome → Prop
  | .panics => False
  | .error => True
  | .loaded s => s.Proper

/-- What a file must hold: no null entries, ids that are their keys, and no address and no
token twice. -/
structure Pointers.WellFormed (p : Pointers) : Prop where
  client : ∀ {id : Str} {c : Option Client}, p.clients[id]? = some c → ∃ x, c = some x ∧ x.id = id
  state : ∀ {id : Str} {st : Option ClientState}, p.states[id]? = some st → st ≠ none
  mac : ∀ {i j : Str} {x y : Client}, p.clients[i]? = some (some x) →
    p.clients[j]? = some (some y) → normalizeMAC x.mac = normalizeMAC y.mac → i = j
  token : ∀ {i j : Str} {x y : Client}, p.clients[i]? = some (some x) →
    p.clients[j]? = some (some y) → x.token ≠ [] → x.token = y.token → i = j

/-! ## The loop -/

theorem rebuildStep_client (x : Indexes) (id : Str) (c : Client) :
    rebuildStep x (id, some c) = some
      { byMAC := note macOf x.byMAC id (some c)
        byToken := note tokenOf x.byToken id (some c)
        seq := if x.seq < idSeqInt id then idSeqInt id else x.seq } := by
  have htoken : note tokenOf x.byToken id (some c) =
      if c.token ≠ [] then x.byToken.insert c.token id else x.byToken := by
    by_cases h : c.token = []
    · rw [note, tokenOf, Option.bind_some, Client.tokenKey, if_pos h, if_neg (not_not.mpr h)]
    · rw [note, tokenOf, Option.bind_some, Client.tokenKey, if_neg h, if_pos h]
  rw [htoken]
  rfl

/-- Without nil the loop notes every client in both indexes. -/
theorem foldlM_rebuildStep {l : List (Str × Option Client)} (h : ∀ e ∈ l, e.2 ≠ none)
    (x : Indexes) : l.foldlM rebuildStep x = some
      { byMAC := l.foldl (fun idx e => note macOf idx e.1 e.2) x.byMAC
        byToken := l.foldl (fun idx e => note tokenOf idx e.1 e.2) x.byToken
        seq := l.foldl (fun n e => if n < idSeqInt e.1 then idSeqInt e.1 else n) x.seq } := by
  induction l generalizing x with
  | nil => rfl
  | cons e l ih =>
    obtain ⟨id, c⟩ := e
    cases c with
    | none => exact absurd rfl (h (id, none) List.mem_cons_self)
    | some c =>
      rw [List.foldlM_cons, rebuildStep_client]
      exact ih (fun e he => h e (List.mem_cons_of_mem _ he)) _

theorem foldlM_rebuildStep_none {l : List (Str × Option Client)} {e : Str × Option Client}
    (he : e ∈ l) (hnil : e.2 = none) (x : Indexes) : l.foldlM rebuildStep x = none := by
  induction l generalizing x with
  | nil => cases he
  | cons d l ih =>
    rw [List.foldlM_cons]
    obtain rfl | he := List.mem_cons.mp he
    · rw [rebuildStep, hnil]
      rfl
    · cases hd : rebuildStep x d with
      | none => rfl
      | some y => exact ih he y

/-- The indexes of a map without nil. -/
theorem rebuild_eq {order : Order Str (Option Client)} {clients : Map Str (Option Client)}
    (h : ∀ (id : Str) (c : Option Client), clients[id]? = some c → c ≠ none) :
    rebuild order clients = some
      { byMAC := indexBy order macOf clients, byToken := indexBy order tokenOf clients
        seq := maxKey order idSeqInt clients } :=
  foldlM_rebuildStep (fun e he => h e.1 e.2 (mem_entries_iff.mp he)) _

theorem rebuild_nil {order : Order Str (Option Client)} {clients : Map Str (Option Client)}
    {id : Str} (h : clients[id]? = some none) : rebuild order clients = none :=
  foldlM_rebuildStep_none (mem_entries_iff.mpr h) rfl _

theorem macOf_eq_some {c : Option Client} {j : Str} :
    macOf c = some j ↔ ∃ x, c = some x ∧ normalizeMAC x.mac = j := by
  cases c <;> simp [macOf, Client.macKey]

theorem tokenOf_eq_some {c : Option Client} {j : Str} :
    tokenOf c = some j ↔ ∃ x, c = some x ∧ x.token ≠ [] ∧ x.token = j := by
  cases c <;> simp [tokenOf, Client.tokenKey]

theorem inverse_macOf_iff {order : Order Str (Option Client)} {clients : Map Str (Option Client)} :
    Inverse macOf clients (indexBy order macOf clients) ↔
      ∀ {i j : Str} {x y : Client}, clients[i]? = some (some x) → clients[j]? = some (some y) →
        normalizeMAC x.mac = normalizeMAC y.mac → i = j := by
  constructor
  · intro h i j x y hx hy hmac
    exact h.inj hx hy (macOf_eq_some.mpr ⟨x, rfl, hmac⟩) (macOf_eq_some.mpr ⟨y, rfl, rfl⟩)
  · intro h
    refine inverse_indexBy order fun i j c d k hc hd hk hk' => ?_
    obtain ⟨x, rfl, hx⟩ := macOf_eq_some.mp hk
    obtain ⟨y, rfl, hy⟩ := macOf_eq_some.mp hk'
    exact h hc hd (hx.trans hy.symm)

theorem inverse_tokenOf_iff {order : Order Str (Option Client)}
    {clients : Map Str (Option Client)} : Inverse tokenOf clients (indexBy order tokenOf clients) ↔
      ∀ {i j : Str} {x y : Client}, clients[i]? = some (some x) → clients[j]? = some (some y) →
        x.token ≠ [] → x.token = y.token → i = j := by
  constructor
  · intro h i j x y hx hy hne htoken
    exact h.inj hx hy (tokenOf_eq_some.mpr ⟨x, rfl, hne, htoken⟩)
      (tokenOf_eq_some.mpr ⟨y, rfl, htoken ▸ hne, rfl⟩)
  · intro h
    refine inverse_indexBy order fun i j c d k hc hd hk hk' => ?_
    obtain ⟨x, rfl, hne, hx⟩ := tokenOf_eq_some.mp hk
    obtain ⟨y, rfl, -, hy⟩ := tokenOf_eq_some.mp hk'
    exact h hc hd hne (hx.trans hy.symm)

/-! ## The outcome -/

theorem emptyStore_proper : emptyStore.Proper where
  client h := by cases Std.ExtTreeMap.getElem?_empty.symm.trans h
  state h := by cases Std.ExtTreeMap.getElem?_empty.symm.trans h
  byMAC := Inverse.empty macOf
  byToken := Inverse.empty tokenOf

theorem adopt_sound_iff {order : Order Str (Option Client)} {p : Pointers} :
    (adopt order p).Sound ↔ p.WellFormed := by
  by_cases hnil : ∃ id : Str, p.clients[id]? = some none
  · obtain ⟨i, hi⟩ := hnil
    rw [adopt, rebuild_nil hi]
    refine iff_of_false id fun h => ?_
    obtain ⟨x, hx, -⟩ := h.client hi
    cases hx
  · rw [adopt, rebuild_eq fun id c hc hnone => hnil ⟨id, hnone ▸ hc⟩]
    constructor
    · exact fun h => ⟨h.client, h.state, inverse_macOf_iff.mp h.byMAC,
        inverse_tokenOf_iff.mp h.byToken⟩
    · exact fun h => ⟨h.client, h.state, inverse_macOf_iff.mpr h.mac,
        inverse_tokenOf_iff.mpr h.token⟩

/-- Loading is an error or gives a proper store exactly when the file, if it can be read and
decoded, is well formed. -/
theorem load_sound_iff {Text : Type} (isEmpty : Text → Bool) (unmarshal : Text → Option Decoding)
    (order : Order Str (Option Client)) (file : FileData Text) :
    (load isEmpty unmarshal order file).Sound ↔ ∀ text d, file = .data text →
      isEmpty text = false → unmarshal text = some d → d.pointers.WellFormed := by
  cases file with
  | missing => exact iff_of_true emptyStore_proper fun _ _ h => by cases h
  | unreadable => exact iff_of_true trivial fun _ _ h => by cases h
  | data text =>
    rw [load]
    cases hempty : isEmpty text with
    | true =>
      refine iff_of_true emptyStore_proper fun t _ ht hfull => ?_
      obtain rfl := FileData.data.inj ht
      rw [hempty] at hfull
      cases hfull
    | false =>
      cases hdecode : unmarshal text with
      | none =>
        refine iff_of_true trivial fun t d ht _ hd => ?_
        obtain rfl := FileData.data.inj ht
        rw [hdecode] at hd
        cases hd
      | some d =>
        have hfile : (∀ t d', FileData.data text = .data t → isEmpty t = false →
            unmarshal t = some d' → d'.pointers.WellFormed) ↔ d.pointers.WellFormed := by
          refine ⟨fun h => h text d rfl hempty hdecode, fun h t d' ht _ hd => ?_⟩
          obtain rfl := FileData.data.inj ht
          rw [hdecode] at hd
          exact Option.some.inj hd ▸ h
        rw [hfile]
        exact adopt_sound_iff

/-! ## Without nil -/

def Doc.pointers (d : Doc) : Pointers :=
  ⟨d.clients.map fun _ c => some c, d.states.map fun _ st => some st⟩

theorem exists_of_pointers {β : Type} {m : Map Str β} {id : Str} {p : Option β}
    (h : (m.map fun _ x => some x)[id]? = some p) : ∃ x, p = some x ∧ m[id]? = some x := by
  rw [Std.ExtTreeMap.getElem?_map] at h
  obtain ⟨x, hx, rfl⟩ := Option.map_eq_some_iff.mp h
  exact ⟨x, rfl, hx⟩

theorem Doc.pointers_ne_nil (d : Doc) (id : Str) (c : Option Client)
    (h : d.pointers.clients[id]? = some c) : c ≠ none := by
  obtain ⟨x, rfl, -⟩ := exists_of_pointers h
  exact Option.some_ne_none x

def State.store (s : State) : Store := ⟨s.toDoc.pointers, ⟨s.byMAC, s.byToken, s.seq⟩⟩

def pointer (e : Str × Client) : Str × Option Client := (e.1, some e.2)

def dereference (e : Str × Option Client) : Option (Str × Client) := e.2.map fun c => (e.1, c)

theorem filterMap_pointer (l : List (Str × Client)) :
    (l.map pointer).filterMap dereference = l := by
  rw [List.filterMap_map]
  exact List.filterMap_some

/-- The order of the clients that their pointers are visited in. -/
def clientOrder (order : Order Str (Option Client)) : Order Str Client where
  visit l := (order.visit (l.map pointer)).filterMap dereference
  perm l := by
    have h := (order.perm (l.map pointer)).filterMap dereference
    rwa [filterMap_pointer] at h

theorem map_pointer_entries (order : Order Str (Option Client)) (m : Map Str Client) :
    (entries (clientOrder order) m).map pointer = entries order (m.map fun _ c => some c) := by
  have hlist : (m.map fun _ c => some c).toList = m.toList.map pointer :=
    Std.ExtTreeMap.toList_map
  rw [entries, entries, hlist]
  show ((order.visit (m.toList.map pointer)).filterMap dereference).map pointer = _
  have hback : ∀ e ∈ order.visit (m.toList.map pointer), (dereference e).map pointer = some e := by
    intro e he
    obtain ⟨c, -, rfl⟩ := List.mem_map.mp ((order.perm _).mem_iff.mp he)
    rfl
  rw [List.map_filterMap]
  exact (List.filterMap_congr hback).trans List.filterMap_some

theorem foldl_entries {β : Type} (order : Order Str (Option Client)) (m : Map Str Client)
    (f : β → Str × Option Client → β) (b : β) :
    (entries order (m.map fun _ c => some c)).foldl f b =
      (entries (clientOrder order) m).foldl (fun b e => f b (pointer e)) b := by
  rw [← map_pointer_entries, List.foldl_map]

/-- On a document without nil, with numbers that are an `int`, the loop is the one of
`rebuildIndexes`. -/
theorem adopt_pointers (order : Order Str (Option Client)) (d : Doc)
    (h : ∀ (id : Str) (c : Client), d.clients[id]? = some c → idSeq id < 2 ^ 63) :
    adopt order d.pointers = .loaded (rebuildIndexes (clientOrder order) d).store := by
  have hmac : indexBy order macOf d.pointers.clients =
      indexBy (clientOrder order) Client.macKey d.clients := foldl_entries order d.clients _ _
  have htoken : indexBy order tokenOf d.pointers.clients =
      indexBy (clientOrder order) Client.tokenKey d.clients := foldl_entries order d.clients _ _
  have hseq : maxKey order idSeqInt d.pointers.clients =
      maxKey (clientOrder order) idSeq d.clients := by
    refine (foldl_entries order d.clients _ _).trans ?_
    have hint : ∀ e ∈ entries (clientOrder order) d.clients, idSeqInt e.1 = idSeq e.1 :=
      fun e he => if_pos (h e.1 e.2 (mem_entries_iff.mp he))
    refine List.foldl_ext _ _ 0 fun n e he => ?_
    show (if n < idSeqInt e.1 then idSeqInt e.1 else n) = _
    rw [hint e he]
  rw [adopt, rebuild_eq d.pointers_ne_nil, hmac, htoken, hseq]
  rfl

/-- The numbers of the other modules are not bounded.  A store reaches the end of the range of
an `int` after `2 ^ 63` operations, and before that it is loaded as they say. -/
theorem adopt_run {Text : Type} (json : Json Text) (ops : List Op) (hops : ops.length < 2 ^ 63)
    (order : Order Str (Option Client)) :
    let d := (Machine.run (step json) boot ops).memory.toDoc
    adopt order d.pointers = .loaded (rebuildIndexes (clientOrder order) d).store :=
  adopt_pointers order _ fun _ _ hc => Nat.lt_of_le_of_lt ((numbered_run json ops).id hc) hops

/-! ## Decoding -/

/-- `encoding/json` compares the names of members up to case.  Two letters outside ASCII fold
to one of it. -/
def foldName (key : Str) : Str :=
  key.map fun c => if c = '\u017f' then 's' else if c = '\u212a' then 'k' else c.toLower

def isField (name : String) (key : Str) : Bool := foldName key = name.toList

/-- A field keeps its value at `null`, and another type is an error. -/
def decodeString (old : Str) : Json.Value → Option Str
  | .null => some old
  | .str s => some s
  | _ => none

def decodeBool (old : Bool) : Json.Value → Option Bool
  | .null => some old
  | .bool b => some b
  | _ => none

section

variable (parseTime : Str → Option Time)

def decodeTime (old : Time) : Json.Value → Option Time
  | .null => some old
  | .str s => parseTime s
  | _ => none

def decodeTimePointer : Json.Value → Option (Option Time)
  | .null => some none
  | .str s => (parseTime s).map some
  | _ => none

def decodeClient (members : List (Str × Json.Value)) : Option Client :=
  members.foldlM (fun c m =>
    if isField "id" m.1 then (decodeString c.id m.2).map ({ c with id := · })
    else if isField "name" m.1 then (decodeString c.name m.2).map ({ c with name := · })
    else if isField "mac" m.1 then (decodeString c.mac m.2).map ({ c with mac := · })
    else if isField "token" m.1 then (decodeString c.token m.2).map ({ c with token := · })
    else if isField "last_seen" m.1 then
      (decodeTime parseTime c.lastSeen m.2).map ({ c with lastSeen := · })
    else if isField "created_at" m.1 then
      (decodeTime parseTime c.createdAt m.2).map ({ c with createdAt := · })
    else some c)
    { id := [], name := [], mac := [], token := [], lastSeen := Time.zero, createdAt := Time.zero }

def decodeState (members : List (Str × Json.Value)) : Option ClientState :=
  members.foldlM (fun st m =>
    if isField "client_id" m.1 then (decodeString st.clientID m.2).map ({ st with clientID := · })
    else if isField "locked" m.1 then (decodeBool st.locked m.2).map ({ st with locked := · })
    else if isField "lock_reason" m.1 then
      (decodeString st.lockReason m.2).map ({ st with lockReason := · })
    else if isField "session_started_at" m.1 then
      (decodeTime parseTime st.sessionStartedAt m.2).map ({ st with sessionStartedAt := · })
    else if isField "session_expires_at" m.1 then
      (decodeTimePointer parseTime m.2).map ({ st with sessionExpiresAt := · })
    else some st)
    (ClientState.fresh [])

/-- An entry of a map of pointers. -/
def decodeEntry {V : Type} (decode : List (Str × Json.Value) → Option V) :
    Json.Value → Option (Option V)
  | .null => some none
  | .obj members => (decode members).map some
  | _ => none

/-- A map is extended, and made if it was nil. -/
def decodeMap {V : Type} (decode : List (Str × Json.Value) → Option V)
    (old : Option (Map Str (Option V))) : Json.Value → Option (Option (Map Str (Option V)))
  | .null => some none
  | .obj members =>
    (members.foldlM (fun m e => (decodeEntry decode e.2).map (m.insert e.1 ·))
      (old.getD ∅)).map some
  | _ => none

/-- `json.Unmarshal` into the empty state, on the value of the text -/
def decodeDoc : Json.Value → Option Decoding
  | .null => some ⟨some ∅, some ∅⟩
  | .obj members =>
    members.foldlM (fun d m =>
      if isField "clients" m.1 then
        (decodeMap (decodeClient parseTime) d.clients m.2).map ({ d with clients := · })
      else if isField "states" m.1 then
        (decodeMap (decodeState parseTime) d.states m.2).map ({ d with states := · })
      else some d)
      ⟨some ∅, some ∅⟩
  | _ => none

def unmarshal (text : Str) : Option Decoding := (Json.read text).bind (decodeDoc parseTime)

end

/-- A client that is null is dereferenced. -/
theorem null_client_panics :
    load List.isEmpty (unmarshal fun _ => none) (.sorted Str (Option Client))
        (.data "\x7b\"clients\":\x7b\"client-0001\":null\x7d\x7d".toList) = .panics ∧
      ¬ (load List.isEmpty (unmarshal fun _ => none) (.sorted Str (Option Client))
        (.data "\x7b\"clients\":\x7b\"client-0001\":null\x7d\x7d".toList)).Sound := by
  have h : load List.isEmpty (unmarshal fun _ => none) (.sorted Str (Option Client))
      (.data "\x7b\"clients\":\x7b\"client-0001\":null\x7d\x7d".toList) = .panics := by
    decide +kernel
  rw [h]
  exact ⟨rfl, id⟩

end Server
end MkyBoot
