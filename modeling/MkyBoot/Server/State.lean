import MkyBoot.Go.Map
import MkyBoot.Server.Naming

/-!
# The client store of the Go server

`state` keeps the registered clients, their lock and session records, two indexes
and the id sequence in memory, and writes clients and records to one file after
every change.  Each operation first changes memory and calls `persistLocked` last;
`Attempt` keeps these two parts apart.  What the operations take from outside is
passed in: the clock, the token that `generateToken` returns, the step of
`persistLocked` that fails, if one does, and the order of a loop over a map.
-/

namespace MkyBoot
namespace Server

open Go

/-- An instant, in nanoseconds. -/
abbrev Time := ℤ

/-- `time.Time{}`, the first instant of the year 1 -/
def Time.zero : Time := -62135596800000000000

structure Client where
  id : Str
  name : Str
  mac : Str
  token : Str
  lastSeen : Time
  createdAt : Time
  deriving DecidableEq

structure ClientState where
  clientID : Str
  locked : Bool
  lockReason : Str
  sessionStartedAt : Time
  sessionExpiresAt : Option Time
  deriving DecidableEq

/-- `&ClientState{ClientID: id}` -/
def ClientState.fresh (id : Str) : ClientState :=
  { clientID := id, locked := false, lockReason := [], sessionStartedAt := Time.zero,
    sessionExpiresAt := none }

def ClientState.expired (st : ClientState) (now : Time) : Bool :=
  match st.sessionExpiresAt with
  | some exp => exp < now
  | none => false

/-- The part of the state that `encoding/json` sees. -/
structure Doc where
  clients : Map Str Client
  states : Map Str ClientState
  deriving DecidableEq

@[ext]
structure State extends Doc where
  byMAC : Map Str Str
  byToken : Map Str Str
  seq : ℕ
  deriving DecidableEq

def State.empty : State := { clients := ∅, states := ∅, byMAC := ∅, byToken := ∅, seq := 0 }

/-! ## Loading and saving -/

/-- A decoded file: a member that is absent or null leaves a nil map. -/
structure Decoded where
  clients : Option (Map Str Client)
  states : Option (Map Str ClientState)

/-- `encoding/json` on the state.  It reads back what it has written, except that
invalid UTF-8 in the free texts is replaced. -/
structure Json (Text : Type) where
  marshal : Doc → Text
  unmarshal : Text → Option Decoded
  isEmpty : Text → Bool
  coerce : Str → Str
  unmarshal_marshal : ∀ d, unmarshal (marshal d) = some
    { clients := some (d.clients.map fun _ c => { c with name := coerce c.name })
      states := some (d.states.map fun _ st => { st with lockReason := coerce st.lockReason }) }
  marshal_ne_empty : ∀ d, isEmpty (marshal d) = false
  coerce_nil : coerce [] = []

def Client.macKey (c : Client) : Option Str := some (normalizeMAC c.mac)

def Client.tokenKey (c : Client) : Option Str := if c.token = [] then none else some c.token

/-- The loop of `rebuildIndexes` fills both indexes and finds the largest number. -/
def rebuildIndexes (order : Order Str Client) (d : Doc) : State :=
  { d with
    byMAC := indexBy order Client.macKey d.clients
    byToken := indexBy order Client.tokenKey d.clients
    seq := maxKey order idSeq d.clients }

/-- What `os.ReadFile` finds. -/
inductive FileData (Text : Type) where
  | missing
  | unreadable
  | data (text : Text)

/-- `newState`, `none` where it returns an error. -/
def readState {Text : Type} (isEmpty : Text → Bool) (unmarshal : Text → Option Decoded)
    (order : Order Str Client) : FileData Text → Option State
  | .missing => some .empty
  | .unreadable => none
  | .data text =>
    if isEmpty text then some .empty
    else (unmarshal text).map fun d =>
      rebuildIndexes order { clients := d.clients.getD ∅, states := d.states.getD ∅ }

def newState {Text : Type} (json : Json Text) (order : Order Str Client) :
    FileData Text → Option State :=
  readState json.isEmpty json.unmarshal order

/-- The steps of `persistLocked` and `atomicWriteFile` that can fail.  The state file
is only touched by the rename, so a failure at any of them leaves it. -/
inductive Fault where
  | marshal
  | mkdirAll
  | createTemp
  | write
  | sync
  | close
  | chmod
  | restrict
  | rename
  deriving DecidableEq

/-! ## Operations -/

/-- The 24 random bytes of `generateToken` in hex. -/
structure Token where
  text : Str
  length_eq : text.length = 48
  deriving DecidableEq

inductive Err where
  | invalidMAC
  | unknownClient (id : Str)
  | durationNotPositive
  | token
  | persist (fault : Fault)
  deriving DecidableEq

inductive Reply where
  /-- A client and the flag of `Register` or `Heartbeat`. -/
  | client (c : Client) (flag : Bool)
  /-- `nil, false, nil` -/
  | unknownToken
  | state (st : ClientState)
  | error (e : Err)
  | panicked
  | started
  deriving DecidableEq

/-- What an operation does up to its call of `persistLocked`, if it gets there: the
reply that it then gives on success, and memory. -/
inductive Attempt where
  | stops (reply : Reply) (s : State)
  | persists (reply : Reply) (s : State)

def Attempt.memory : Attempt → State
  | .stops _ s => s
  | .persists _ s => s

/-- A client that registers once more. -/
def Client.again (c : Client) (name : Str) (now : Time) : Client :=
  { c with name := if name = [] then c.name else name, lastSeen := now }

/-- `Register` for an address that is known. -/
def registerAgain (s : State) (id name : Str) (now : Time) : Attempt :=
  match s.clients[id]? with
  | none => .stops .panicked s
  | some c =>
    .persists (.client (c.again name now) false)
      { s with clients := s.clients.insert id (c.again name now) }

/-- A new client in both indexes, with a record unless there is one for its id. -/
def State.add (s : State) (c : Client) : State :=
  { s with
    clients := s.clients.insert c.id c
    byMAC := s.byMAC.insert c.mac c.id
    byToken := s.byToken.insert c.token c.id
    states := s.states.insertIfNew c.id (.fresh c.id) }

/-- `Register` for a new address, once the token is there. -/
def registerNew (s : State) (name mac : Str) (now : Time) (tok : Token) : Attempt :=
  let c : Client :=
    { id := clientID s.seq, name := name, mac := mac, token := tok.text, lastSeen := now
      createdAt := now }
  .persists (.client c true) (s.add c)

def register (s : State) (name mac : Str) (now : Time) (tok : Option Token) : Attempt :=
  let norm := normalizeMAC mac
  if norm = [] then .stops (.error .invalidMAC) s
  else match s.byMAC[norm]? with
    | some id => registerAgain s id name now
    | none =>
      let s := { s with seq := s.seq + 1 }
      match tok with
      | none => .stops (.error .token) s
      | some tok => registerNew s name norm now tok

def heartbeat (s : State) (token : Str) (now : Time) : Attempt :=
  match s.byToken[token]? with
  | none => .stops .unknownToken s
  | some id =>
    match s.clients[id]? with
    | none => .stops .panicked s
    | some c =>
      let c := { c with lastSeen := now }
      .persists (.client c true) { s with clients := s.clients.insert id c }

def getState (s : State) (id : Str) : Option ClientState := s.states[id]?

/-- The common end of the operations on a client's record. -/
def editState (s : State) (id : Str) (edit : ClientState → ClientState) : Attempt :=
  let st := edit ((s.states[id]?).getD (.fresh id))
  .persists (.state st) { s with states := s.states.insert id st }

def setLock (s : State) (id : Str) (locked : Bool) (reason : Str) : Attempt :=
  if s.clients[id]? = none then .stops (.error (.unknownClient id)) s
  else editState s id fun st => { st with locked := locked, lockReason := reason }

def startSession (s : State) (id : Str) (duration : ℤ) (now : Time) : Attempt :=
  if s.clients[id]? = none then .stops (.error (.unknownClient id)) s
  else if duration ≤ 0 then .stops (.error .durationNotPositive) s
  else editState s id fun st =>
    { st with sessionStartedAt := now, sessionExpiresAt := some (now + duration) }

def endSession (s : State) (id : Str) : Attempt :=
  if s.clients[id]? = none then .stops (.error (.unknownClient id)) s
  else editState s id fun st =>
    { st with sessionStartedAt := Time.zero, sessionExpiresAt := none }

inductive Call where
  | register (name mac : Str) (now : Time) (tok : Option Token)
  | heartbeat (token : Str) (now : Time)
  | setLock (id : Str) (locked : Bool) (reason : Str)
  | startSession (id : Str) (duration : ℤ) (now : Time)
  | endSession (id : Str)

def Call.attempt : Call → State → Attempt
  | .register name mac now tok, s => Server.register s name mac now tok
  | .heartbeat token now, s => Server.heartbeat s token now
  | .setLock id locked reason, s => Server.setLock s id locked reason
  | .startSession id duration now, s => Server.startSession s id duration now
  | .endSession id, s => Server.endSession s id

/-! ## The server -/

/-- Memory, and the state file if there is one. -/
structure Process (Text : Type) where
  memory : State
  file : Option Text

inductive Op where
  | call (c : Call) (fault : Option Fault)
  | restart (order : Order Str Client)

section Steps

variable {Text : Type} (json : Json Text)

def Process.fileData (p : Process Text) : FileData Text :=
  match p.file with
  | none => .missing
  | some text => .data text

/-- A call, with the `persistLocked` at its end. -/
def call (p : Process Text) (c : Call) (fault : Option Fault) : Reply × Process Text :=
  match c.attempt p.memory with
  | .stops reply s => (reply, { p with memory := s })
  | .persists reply s =>
    match fault with
    | some f => (.error (.persist f), { p with memory := s })
    | none => (reply, { memory := s, file := some (json.marshal s.toDoc) })

/-- A new process on the same file.  One that cannot read it does not start. -/
def restart (p : Process Text) (order : Order Str Client) : Process Text :=
  match newState json order p.fileData with
  | some s => { p with memory := s }
  | none => p

def exec (p : Process Text) : Op → Reply × Process Text
  | .call c fault => call json p c fault
  | .restart order => (.started, restart json p order)

def step (p : Process Text) (op : Op) : Process Text := (exec json p op).2

/-- The first start, without a file. -/
def boot : Process Text := { memory := .empty, file := none }

end Steps

end Server
end MkyBoot
