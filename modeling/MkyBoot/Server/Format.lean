import MkyBoot.Go.Rfc3339
import MkyBoot.Json.Writer
import MkyBoot.Server.Crash
import MkyBoot.Server.Load

/-!
# The text of the state file

`persistLocked` writes the state by `json.MarshalIndent`, and `newState` reads it.  Here is
that text, byte by byte, and `unmarshal_marshal` says that the decoder of `Server.Load`
gives every state back from it.  Times are written by `time.Time`, see `TimeFormat`; a state
with a time that cannot be written is not saved.

Together with the operations on the disk this is the whole way of a state to the next
process.  `restart_loads` says that it is never broken: whatever calls were made, killed or
undone by a loss of power, a new process loads a store.
-/

namespace MkyBoot
namespace Server

open Go Posix Machine

/-- `MarshalJSON` and `UnmarshalJSON` of `time.Time`, on instants. -/
structure TimeFormat where
  writable : Time → Bool
  format : Time → Str
  parse : Str → Option Time
  parse_format : ∀ t, writable t = true → parse (format t) = some t

theorem rfc3339_parse_format (zone : Rfc3339.Zone) (t : Time)
    (h : Rfc3339.writable zone t = true) :
    Rfc3339.parse (Rfc3339.format zone t) = some t := Rfc3339.parse_format h

/-- The times of a server in a time zone. -/
def TimeFormat.rfc3339 (zone : Rfc3339.Zone) : TimeFormat where
  writable := Rfc3339.writable zone
  format := Rfc3339.format zone
  parse := Rfc3339.parse
  parse_format := rfc3339_parse_format zone

section

variable (times : TimeFormat)

def clientMembers (c : Client) : List (Str × Json.Value) :=
  [("id".toList, .str c.id), ("name".toList, .str c.name), ("mac".toList, .str c.mac),
    ("token".toList, .str c.token), ("last_seen".toList, .str (times.format c.lastSeen)),
    ("created_at".toList, .str (times.format c.createdAt))]

/-- A reason is left out if it is empty, and an end if there is none.  A time is a struct
and never empty to `omitempty`. -/
def stateMembers (st : ClientState) : List (Str × Json.Value) :=
  [("client_id".toList, .str st.clientID), ("locked".toList, .bool st.locked)] ++
    (if st.lockReason = [] then [] else [("lock_reason".toList, .str st.lockReason)]) ++
    [("session_started_at".toList, .str (times.format st.sessionStartedAt))] ++
    (match st.sessionExpiresAt with
      | none => []
      | some t => [("session_expires_at".toList, .str (times.format t))])

/-- A map is written in the order of its keys. -/
def mapValue {V : Type} (members : V → List (Str × Json.Value)) (m : Map Str V) : Json.Value :=
  .obj (m.toList.map fun e => (e.1, .obj (members e.2)))

def docValue (d : Doc) : Json.Value :=
  .obj [("clients".toList, mapValue (clientMembers times) d.clients),
    ("states".toList, mapValue (stateMembers times) d.states)]

/-- The data that `persistLocked` saves -/
def marshalDoc (d : Doc) : List Char := Json.write .indented 0 (docValue times d) ++ ['\n']

def unmarshalDoc (text : List Char) : Option Decoding :=
  (Json.decode text).bind (decodeDoc times.parse)

def Client.fits (c : Client) : Bool := times.writable c.lastSeen && times.writable c.createdAt

def ClientState.fits (st : ClientState) : Bool :=
  times.writable st.sessionStartedAt && st.sessionExpiresAt.all times.writable

/-- `MarshalIndent` returns no error. -/
def Doc.fits (d : Doc) : Bool :=
  d.clients.toList.all (fun e => e.2.fits times) && d.states.toList.all fun e => e.2.fits times

end

theorem decodeClient_members {times : TimeFormat} {c : Client} (h : c.fits times = true) :
    decodeClient times.parse (clientMembers times c) = some c := by
  obtain ⟨hseen, hcreated⟩ := Bool.and_eq_true_iff.mp h
  simp [decodeClient, clientMembers, isField, foldName, decodeString, decodeTime,
    times.parse_format _ hseen, times.parse_format _ hcreated]

theorem decodeState_members {times : TimeFormat} {st : ClientState} (h : st.fits times = true) :
    decodeState times.parse (stateMembers times st) = some st := by
  obtain ⟨clientID, locked, lockReason, started, expires⟩ := st
  obtain ⟨hstarted, hexpires⟩ := Bool.and_eq_true_iff.mp h
  have hread := times.parse_format started hstarted
  have hfresh : ClientState.fresh [] = ⟨[], false, [], Time.zero, none⟩ := rfl
  cases expires with
  | none =>
    by_cases hreason : lockReason = [] <;>
      simp [decodeState, stateMembers, isField, foldName, decodeString, decodeBool, decodeTime,
        hread, hreason, hfresh]
  | some t =>
    have hread' := times.parse_format t hexpires
    by_cases hreason : lockReason = [] <;>
      simp [decodeState, stateMembers, isField, foldName, decodeString, decodeBool, decodeTime,
        decodeTimePointer, hread, hread', hreason, hfresh]

theorem decodeMap_mapValue {V : Type} {decode : List (Str × Json.Value) → Option V}
    {members : V → List (Str × Json.Value)} {m : Map Str V}
    (h : ∀ e ∈ m.toList, decode (members e.2) = some e.2) :
    decodeMap decode (some ∅) (mapValue members m) = some (some (m.map fun _ v => some v)) := by
  have hfold (l : List (Str × V)) (hl : ∀ e ∈ l, decode (members e.2) = some e.2)
      (x : Map Str (Option V)) :
      (l.map fun e => (e.1, Json.Value.obj (members e.2))).foldlM
          (fun x e => (decodeEntry decode e.2).map (x.insert e.1 ·)) x =
        some (l.foldl (fun x e => x.insert e.1 (some e.2)) x) := by
    induction l generalizing x with
    | nil => rfl
    | cons e l ih =>
      rw [List.map_cons, List.foldlM_cons, decodeEntry, hl e List.mem_cons_self]
      exact ih (fun e he => hl e (List.mem_cons_of_mem _ he)) _
  rw [mapValue, decodeMap, Option.getD_some, hfold _ h, Option.map_some]
  exact congrArg (fun x => some (some x)) (foldl_insert_entries (.sorted Str V) some m)

theorem numeric_docValue (times : TimeFormat) (d : Doc) : (docValue times d).Numeric := by
  have hmap {V : Type} {members : V → List (Str × Json.Value)}
      (h : ∀ v, Json.NumericMembers (members v)) (m : Map Str V) :
      (mapValue members m).Numeric := by
    refine Json.numericMembers_iff.mpr fun e he => ?_
    obtain ⟨x, -, rfl⟩ := List.mem_map.mp he
    exact h x.2
  refine ⟨hmap (fun c => ?_) d.clients, hmap (fun st => ?_) d.states, trivial⟩
  · exact ⟨trivial, trivial, trivial, trivial, trivial, trivial, trivial⟩
  · by_cases hreason : st.lockReason = [] <;> cases hexpires : st.sessionExpiresAt <;>
      simp [stateMembers, hreason, hexpires, Json.NumericMembers, Json.Value.Numeric]

/-- The decoder gives every document back from the text that is written for it. -/
theorem unmarshal_marshal {times : TimeFormat} {d : Doc} (h : d.fits times = true) :
    unmarshalDoc times (marshalDoc times d) =
      some ⟨some d.pointers.clients, some d.pointers.states⟩ := by
  rw [unmarshalDoc, marshalDoc, Json.decode_write .indented (numeric_docValue times d),
    Option.bind_some, docValue, decodeDoc]
  obtain ⟨hclients, hstates⟩ := Bool.and_eq_true_iff.mp h
  have hclients := decodeMap_mapValue (m := d.clients) fun e he =>
    decodeClient_members (List.all_eq_true.mp hclients e he)
  have hstates := decodeMap_mapValue (m := d.states) fun e he =>
    decodeState_members (List.all_eq_true.mp hstates e he)
  simp [isField, foldName, hclients, hstates, Doc.pointers]

/-! ## A new process -/

/-- A map without its pointers, unless one is nil. -/
def dereferenced {V : Type} (m : Map Str (Option V)) : Option (Map Str V) :=
  if m.toList.all fun e => e.2.isSome then some (m.filterMap fun _ v => v) else none

theorem dereferenced_map {V : Type} (m : Map Str V) :
    dereferenced (m.map fun _ v => some v) = some m := by
  have hall : ((m.map fun _ v => some v).toList.all fun e => e.2.isSome) = true := by
    rw [Std.ExtTreeMap.toList_map, List.all_map, List.all_eq_true]
    exact fun _ _ => rfl
  rw [dereferenced, if_pos hall]
  refine congrArg some (Std.ExtTreeMap.ext_getElem? fun k => ?_)
  rw [Std.ExtTreeMap.getElem?_filterMap', Std.ExtTreeMap.getElem?_map]
  cases m[k]? <;> rfl

/-- What the server writes has no nil, so a file with one is none of its own here; `Server.Load`
has them. -/
def unmarshalFile (times : TimeFormat) (text : List Char) : Option Decoded :=
  (unmarshalDoc times text).bind fun d =>
    (dereferenced d.pointers.clients).bind fun clients =>
      (dereferenced d.pointers.states).map fun states => ⟨some clients, some states⟩

/-- The text of a document, unless a time of it cannot be written. -/
def marshalFile (times : TimeFormat) (d : Doc) : Option (List Char) :=
  if d.fits times then some (marshalDoc times d) else none

theorem marshalFile_eq_some {times : TimeFormat} {d : Doc} {text : List Char}
    (h : marshalFile times d = some text) : d.fits times = true ∧ text = marshalDoc times d := by
  unfold marshalFile at h
  by_cases hfits : d.fits times = true
  · rw [if_pos hfits] at h
    exact ⟨hfits, (Option.some.inj h).symm⟩
  · rw [if_neg hfits] at h
    cases h

theorem unmarshalFile_marshalFile (times : TimeFormat) (d : Doc) (text : List Char)
    (h : marshalFile times d = some text) : unmarshalFile times text =
      some ⟨some (d.clients.map fun _ c => c), some (d.states.map fun _ st => st)⟩ := by
  obtain ⟨hfits, rfl⟩ := marshalFile_eq_some h
  have hsame {V : Type} (m : Map Str V) : (m.map fun _ v => v) = m := by
    refine Std.ExtTreeMap.ext_getElem? fun k => ?_
    rw [Std.ExtTreeMap.getElem?_map, Option.map_id']
  rw [unmarshalFile, unmarshal_marshal hfits, hsame, hsame]
  show (dereferenced (d.clients.map fun _ c => some c)).bind _ = _
  rw [dereferenced_map, Option.bind_some]
  show (dereferenced (d.states.map fun _ st => some st)).map _ = _
  rw [dereferenced_map]
  rfl

theorem marshalFile_of_fits {times : TimeFormat} {d : Doc} (h : d.fits times = true) :
    marshalFile times d = some (marshalDoc times d) := by
  rw [marshalFile, if_pos h]

theorem marshalFile_ne_nil (times : TimeFormat) (d : Doc) : marshalFile times d ≠ some [] := by
  intro h
  obtain ⟨-, htext⟩ := marshalFile_eq_some h
  exact absurd htext (List.cons_ne_nil _ _).symm

theorem id_nil : id ([] : Str) = [] := rfl

/-- `encoding/json` on the file of the state -/
def fileCodec (times : TimeFormat) : StateCodec where
  marshal := marshalFile times
  unmarshal := unmarshalFile times
  coerce := id
  unmarshal_marshal := unmarshalFile_marshalFile times
  marshal_ne_nil := marshalFile_ne_nil times
  coerce_nil := id_nil

theorem Inv.wellFormed {s : State} (h : Inv s) : s.toDoc.pointers.WellFormed := by
  refine ⟨?_, ?_, ?_, ?_⟩
  · intro id c hc
    obtain ⟨x, rfl, hx⟩ := exists_of_pointers hc
    exact ⟨x, rfl, h.key hx⟩
  · intro id st hst
    obtain ⟨x, rfl, -⟩ := exists_of_pointers hst
    exact Option.some_ne_none x
  · intro i j x y hx hy hmac
    obtain ⟨x', hx', hx⟩ := exists_of_pointers hx
    obtain ⟨y', hy', hy⟩ := exists_of_pointers hy
    obtain rfl := Option.some.inj hx'
    obtain rfl := Option.some.inj hy'
    exact h.byMAC.inj hx hy (congrArg some hmac) rfl
  · intro i j x y hx hy hne htoken
    obtain ⟨x', hx', hx⟩ := exists_of_pointers hx
    obtain ⟨y', hy', hy⟩ := exists_of_pointers hy
    obtain rfl := Option.some.inj hx'
    obtain rfl := Option.some.inj hy'
    have hkey : Client.tokenKey x = some y.token := by rw [Client.tokenKey, if_neg hne, htoken]
    have hkey' : Client.tokenKey y = some y.token := by
      rw [Client.tokenKey, if_neg (htoken ▸ hne)]
    exact h.byToken.inj hx hy hkey hkey'

/-- `newState` on a file that the server has written. -/
theorem load_marshal {times : TimeFormat} (order : Order Str (Option Client)) {d : Doc}
    (h : d.fits times = true) :
    ∃ s, load List.isEmpty (unmarshalDoc times) order (.data (marshalDoc times d)) = .loaded s ∧
      s.toPointers = d.pointers ∧ (d.pointers.WellFormed → s.Proper) := by
  have hload : load List.isEmpty (unmarshalDoc times) order (.data (marshalDoc times d)) =
      adopt order d.pointers := by
    have hfull : (marshalDoc times d).isEmpty = false := rfl
    rw [load, hfull, if_neg Bool.false_ne_true, unmarshal_marshal h]
    rfl
  obtain ⟨s, hadopt, hsame⟩ : ∃ s, adopt order d.pointers = .loaded s ∧
      s.toPointers = d.pointers := by
    rw [adopt, rebuild_eq d.pointers_ne_nil]
    exact ⟨_, rfl, rfl⟩
  refine ⟨s, hload.trans hadopt, hsame, fun h => ?_⟩
  have hsound : (adopt order d.pointers).Sound := adopt_sound_iff.mpr h
  rw [hadopt] at hsound
  exact hsound

theorem filterMap_token (ops : List Op) :
    ops.filterMap Op.token = (ops.filterMap Op.call?).filterMap Call.token := by
  rw [List.filterMap_filterMap]
  refine List.filterMap_congr fun op _ => ?_
  cases op <;> rfl

/-- The file of the store with one step, and what the disk has for it. -/
theorem fileData_cases {times : TimeFormat} {p : Process Doc} {s : Running}
    (h : Shows (fileCodec times) p s) :
    (p.file = none ∧ s.fileData = .missing) ∨
      ∃ d, p.file = some d ∧ d.fits times = true ∧ s.fileData = .data (marshalDoc times d) := by
  have hfile := h.file
  rw [Running.fileData]
  cases hread : s.disk.read (.file ()) with
  | none =>
    rw [hread] at hfile
    exact Or.inl ⟨Option.map_eq_none_iff.mp hfile, rfl⟩
  | some text =>
    rw [hread] at hfile
    obtain ⟨d, hd, hmarshal⟩ := Option.map_eq_some_iff.mp hfile
    obtain ⟨hfits, rfl⟩ := marshalFile_eq_some hmarshal
    exact Or.inr ⟨d, hd, hfits, rfl⟩

/-- Whatever happens to the server, a new process loads a store from the file: it meets no
error and no panic.  If the random source has repeated no token, the store is proper. -/
theorem restart_loads (times : TimeFormat) (ms : List Moment) (order : Order Str (Option Client)) :
    ∃ s, load List.isEmpty (unmarshalDoc times) order
        (run (Running.step (fileCodec times)) .init ms).fileData = .loaded s ∧
      (((ms.filterMap Moment.call?).filterMap Call.token).Nodup → s.Proper) := by
  obtain ⟨ops, hrealises, hsub, -⟩ := exists_realises (fileCodec times) ms
  rcases fileData_cases hrealises.shows with ⟨-, hdata⟩ | ⟨d, hfile, hfits, hdata⟩
  · rw [hdata]
    exact ⟨emptyStore, rfl, fun _ => emptyStore_proper⟩
  · rw [hdata]
    obtain ⟨t, hload, -, hproper⟩ := load_marshal order hfits
    refine ⟨t, hload, fun hnodup => ?_⟩
    have htokens : (ops.filterMap Op.token).Nodup := by
      rw [filterMap_token]
      exact hnodup.sublist (hsub.filterMap Call.token)
    have hboot : Holds (fileCodec times).docs (Good []) boot := holds_boot (good_empty [])
    have hgood := Holds.run (P := fun _ => True)
      (fun used p op h _ hnew => Good.step h op hnew) hboot ops (fun _ _ => trivial) htokens
    obtain ⟨s, hs, hdoc⟩ := hgood.file d hfile
    have hdoc : d = s.toDoc := hdoc
    rw [hdoc] at hproper
    exact hproper hs.inv.wellFormed

/-! A client registers in the winter of Central Europe, the next one is killed while its text
is written, and then power is lost. -/

theorem winter_small (t : Time) : (if t = Time.zero then 0 else 60 : ℤ).natAbs < 1440 := by
  by_cases h : t = Time.zero
  · rw [if_pos h]
    decide
  · rw [if_neg h]
    decide

/-- An hour ahead; the zero time has no zone. -/
def winter : Rfc3339.Zone := ⟨fun t => if t = Time.zero then 0 else 60, winter_small⟩

def firstCall : Call :=
  .register "pc1".toList "52:54:00:A1:B2:C3".toList 1794818725120000000 (some (token 'a'))

def secondCall : Call :=
  .register "pc2".toList "52:54:00:A1:B2:C4".toList 1794818790000000000 (some (token 'b'))

def firstState : State := (firstCall.attempt .empty).memory

def lossy : List Moment :=
  [.call firstCall (smooth (marshalDoc (.rfc3339 winter) firstState.toDoc).length)
      (.sorted Str Client),
    .call secondCall [⟨true, 0⟩, ⟨true, 0⟩, ⟨true, 7⟩] (.sorted Str Client),
    .powerLoss 0 (fun _ => ['?']) (.sorted Str Client)]

theorem fits_firstState : firstState.toDoc.fits (.rfc3339 winter) = true := by decide +kernel

theorem fileData_lossy :
    (run (Running.step (fileCodec (.rfc3339 winter))) .init lossy).fileData =
      .data (marshalDoc (.rfc3339 winter) firstState.toDoc) := by
  obtain ⟨reply, hfirst⟩ : ∃ reply, firstCall.attempt .empty = .persists reply firstState :=
    ⟨_, rfl⟩
  obtain ⟨reply', m, hsecond, hfits⟩ : ∃ reply m, secondCall.attempt firstState =
      .persists reply m ∧ m.toDoc.fits (.rfc3339 winter) = true := ⟨_, _, rfl, by decide +kernel⟩
  obtain ⟨d, hexec, hinv, hread⟩ := exec_smooth (fileCodec (.rfc3339 winter)) (s := .init)
    (Saves.inv_init (κ := Unit) fun _ _ => False).disk hfirst (marshalFile_of_fits fits_firstState)
    le_rfl (.sorted Str Client)
  obtain ⟨hinv', hread'⟩ := read_killed (fileCodec (.rfc3339 winter)) (s := ⟨firstState, d⟩) hinv
    hsecond (marshalFile_of_fits hfits) (pending_save_write d _ 7) (.sorted Str Client)
  have hfirst : Running.init.step (fileCodec (.rfc3339 winter)) (.call firstCall _ _) =
    ⟨firstState, d⟩ := congrArg Prod.snd hexec
  refine fileData_of_read ?_
  rw [lossy, run_cons, hfirst, run_cons, run_cons]
  refine (congrArg (fun x => Disk.read x (.file ())) (disk_powerLoss _ _ _ _ _)).trans ?_
  rw [(hinv'.settled ()).read_powerLoss_zero, hread', hread]

theorem restart_loads_lossy :
    ∃ s, load List.isEmpty (unmarshalDoc (.rfc3339 winter)) (.sorted Str (Option Client))
        (run (Running.step (fileCodec (.rfc3339 winter))) .init lossy).fileData = .loaded s ∧
      s.Proper ∧ s.clients = firstState.toDoc.pointers.clients := by
  obtain ⟨s, hload, hproper⟩ := restart_loads (.rfc3339 winter) lossy (.sorted Str (Option Client))
  refine ⟨s, hload, hproper (by decide), ?_⟩
  obtain ⟨t, hfirst, hsame, -⟩ := load_marshal (.sorted Str (Option Client)) fits_firstState
  rw [fileData_lossy, hfirst] at hload
  rw [← Outcome.loaded.inj hload, hsame]

end Server
end MkyBoot
