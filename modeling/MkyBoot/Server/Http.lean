import MkyBoot.Server.Expiry
import MkyBoot.Server.Storage

/-!
# The HTTP API

The routes of `NewServer`, the choice of a handler by `http.ServeMux` and the
handlers, with the place at which each of them asks for the administrator's token.
A handler returns its response and what it leaves of the client store, the storage
and the administrator's credential.  JSON bodies are decoded by parameters, since
every handler decodes before it looks at a field.  The two boot handlers are not part
of the repository and are a parameter too.
-/

namespace MkyBoot
namespace Server

open Go Machine

/-! ## The administrator's token -/

structure AdminRecord where
  tokenHash : Str
  provisioned : Str
  deriving DecidableEq

/-- The credential file as `load` finds it. -/
inductive AdminFile where
  | missing
  | unreadable
  | corrupt
  | record (r : AdminRecord)
  deriving DecidableEq

def AdminFile.load : AdminFile → Option AdminRecord
  | .missing => some { tokenHash := [], provisioned := [] }
  | .unreadable => none
  | .corrupt => none
  | .record r => some r

def AdminFile.verify (hashToken : Str → Str) (file : AdminFile) (token : Str) : Bool :=
  token ≠ [] &&
    match file.load with
    | none => false
    | some r => r.tokenHash ≠ [] && hashToken token == r.tokenHash

/-- `unicode.IsSpace` -/
def isSpace (c : Char) : Bool :=
  (9 ≤ c.toNat && c.toNat ≤ 13) || (0x2000 ≤ c.toNat && c.toNat ≤ 0x200a) ||
    c.toNat ∈ [0x20, 0x85, 0xa0, 0x1680, 0x2028, 0x2029, 0x202f, 0x205f, 0x3000]

def trimSpace (s : Str) : Str := (s.dropWhile isSpace).rdropWhile isSpace

/-- The token of an `Authorization: Bearer` header.  Case folding adds no letter to
those of the word. -/
def bearerToken (authorization : Str) : Str :=
  if 7 < authorization.length ∧ (authorization.take 7).map Char.toLower = "bearer ".toList then
    trimSpace (authorization.drop 7)
  else []

/-! ## Requests and responses -/

inductive Method where
  | get
  | post
  | delete
  | connect
  | other (name : Str)
  deriving DecidableEq

structure Request (Body : Type) where
  method : Method
  escapedPath : Str
  path : Str
  /-- The query parameter `api`. -/
  api : Str
  authorization : Str
  body : Body

/-- A request, with what serving it takes from outside: the clock, the token of
`generateToken` and the failures of `persistLocked`. -/
structure Visit (Body : Type) extends Request Body where
  now : Time
  tok : Option Token
  fault : Option Fault
  lockFault : Option Fault

/-- What the handlers use of other packages. -/
structure Codec (Body : Type) where
  hashToken : Str → Str
  /-- `url.PathUnescape` of a path segment, or the segment where that fails. -/
  unescape : Str → Str
  /-- `decodeJSON` for the four request bodies: the fields, or the text of an error. -/
  register : Body → Except Str (Str × Str)
  heartbeat : Body → Except Str Str
  session : Body → Except Str ℤ
  assign : Body → Except Str (Str × Str)

inductive Msg where
  | text (s : Str)
  | state (e : Err)
  | storage (e : StorageErr)
  deriving DecidableEq

inductive Response where
  | json (status : ℕ)
  | error (status : ℕ) (msg : Msg)
  | redirect (path : Str)
  deriving DecidableEq

def notFound : Response := .error 404 (.text "not found".toList)

def methodNotAllowed : Response := .error 405 (.text "method not allowed".toList)

def unauthorized : Response := .error 401 (.text "unauthorized".toList)

/-- What `recoverMiddleware` makes of a panic. -/
def internalError : Response := .error 500 (.text "internal error".toList)

structure World (Text : Type) (sys : Filepath.Sys) where
  process : Process Text
  storage : Storage sys.os
  admin : AdminFile

/-! ## Routes -/

inductive Route where
  | health
  | clients
  | heartbeat
  | clientItem
  | session
  | boot
  | storageHealth
  | storageImages
  | storageAssign
  | root
  deriving DecidableEq

inductive Choice where
  | handler (route : Route)
  | addSlash
  deriving DecidableEq

/-- The patterns without a slash at the end. -/
def exactRoutes : List (List String × Route) :=
  [(["healthz"], .health), (["api", "clients"], .clients),
    (["api", "clients", "heartbeat"], .heartbeat), (["api", "bootstate"], .boot),
    (["api", "bootscript"], .boot), (["api", "storage", "health"], .storageHealth),
    (["api", "storage", "images"], .storageImages),
    (["api", "storage", "assign"], .storageAssign)]

/-- The patterns with one, `/` apart. -/
def treeRoutes : List (List String × Route) :=
  [(["api", "client"], .clientItem), (["api", "session"], .session),
    (["api", "storage", "images"], .storageImages),
    (["api", "storage", "assign"], .storageAssign)]

def chars (pattern : List String) : List Str := pattern.map String.toList

/-- The pattern for the segments of a path. -/
def choose (segments : List Str) : Choice :=
  match exactRoutes.find? fun e => chars e.1 = segments with
  | some e => .handler e.2
  | none =>
    match treeRoutes.find? fun e => (chars e.1).isPrefixOf segments with
    | some e => if chars e.1 = segments then .addSlash else .handler e.2
    | none => .handler .root

/-- `cleanPath` of `net/http`: `path.Clean`, with a slash at the end if there was one -/
def cleanPath (p : Str) : Str :=
  let p := if p.head? = some '/' then p else '/' :: p
  let np := Filepath.clean .unix p
  if p.getLast? = some '/' ∧ np ≠ ['/'] then np ++ ['/'] else np

inductive Target where
  | route (route : Route)
  | redirect (path : Str)
  | none
  deriving DecidableEq

section Serving

variable {Body : Type} (codec : Codec Body)

def segments (path : Str) : List Str := (Filepath.elements .unix path).tail.map codec.unescape

/-- `findHandler`.  A `CONNECT` request is matched as it is; any other path is cleaned
first, and one that was not clean is redirected. -/
def target (r : Request Body) : Target :=
  let path := if r.method = .connect then r.escapedPath else cleanPath r.escapedPath
  if path.head? ≠ some '/' then .none
  else match choose (segments codec path) with
    | .addSlash => .redirect (cleanPath r.path ++ ['/'])
    | .handler route => if path ≠ r.escapedPath then .redirect path else .route route

variable {Text : Type} {sys : Filepath.Sys} (json : Json Text) (w : World Text sys)

def requireAdmin (r : Request Body) : Bool :=
  w.admin.verify codec.hashToken (bearerToken r.authorization)

/-- A request served without an effect. -/
def World.answers (response : Response) : Response × World Text sys := (response, w)

/-! ## Handlers for clients -/

def handleCompatStatus (v : Visit Body) : Response × World Text sys :=
  if v.method ≠ .get then w.answers methodNotAllowed
  else if !requireAdmin codec w v.toRequest then
    w.answers (.error 200 (.text "Not authenticated".toList))
  else w.answers (.json 200)

def handleRoot (v : Visit Body) : Response × World Text sys :=
  if v.path ≠ ['/'] then w.answers notFound
  else if v.api = "status".toList then handleCompatStatus codec w v
  else if v.method ≠ .get then w.answers methodNotAllowed
  else w.answers (.json 200)

def handleHealth (v : Visit Body) : Response × World Text sys :=
  if v.method ≠ .get then w.answers methodNotAllowed else w.answers (.json 200)

/-- A call of the store, and the response to its reply. -/
def World.calls (c : Call) (fault : Option Fault) (respond : Reply → Response) :
    Response × World Text sys :=
  (respond (call json w.process c fault).1,
    { w with process := (call json w.process c fault).2 })

/-- The response to a reply with a client or a record. -/
def respond (failure : ℕ) : Reply → Response
  | .error e => .error failure (.state e)
  | .panicked => internalError
  | _ => .json 200

def handleRegister (v : Visit Body) : Response × World Text sys :=
  match codec.register v.body with
  | .error e => w.answers (.error 400 (.text e))
  | .ok (name, mac) =>
    if trimSpace name = [] then w.answers (.error 400 (.text "name is required".toList))
    else if 64 < byteLength (trimSpace name) then
      w.answers (.error 400 (.text "name too long".toList))
    else if normalizeMAC mac = [] then
      w.answers (.error 400 (.text "invalid MAC address".toList))
    else w.calls json (.register (trimSpace name) mac v.now v.tok) v.fault (respond 500)

def handleClients (v : Visit Body) : Response × World Text sys :=
  match v.method with
  | .get => if !requireAdmin codec w v.toRequest then w.answers unauthorized
    else w.answers (.json 200)
  | .post => handleRegister codec json w v
  | _ => w.answers methodNotAllowed

/-- The end of a heartbeat, once the client of the token is known.  Without a record
the copy is the zero value. -/
def enforceExpiry (c : Client) (v : Visit Body) : Response × World Text sys :=
  let st := (getState w.process.memory c.id).getD (.fresh [])
  if st.expired v.now && !st.locked then
    w.calls json (.setLock c.id true "session expired".toList) v.lockFault fun _ => .json 200
  else w.answers (.json 200)

def handleHeartbeat (v : Visit Body) : Response × World Text sys :=
  if v.method ≠ .post then w.answers methodNotAllowed
  else match codec.heartbeat v.body with
    | .error e => w.answers (.error 400 (.text e))
    | .ok token =>
      match call json w.process (.heartbeat token v.now) v.fault with
      | (.client c true, p) => enforceExpiry json { w with process := p } c v
      | (.error e, p) => (.error 500 (.state e), { w with process := p })
      | (.panicked, p) => (internalError, { w with process := p })
      | (_, p) => (.error 401 (.text "unknown client token".toList), { w with process := p })

/-- `strings.TrimPrefix` -/
def trimLeading (front s : Str) : Str := if front.isPrefixOf s then s.drop front.length else s

def handleClientItem (v : Visit Body) : Response × World Text sys :=
  if !requireAdmin codec w v.toRequest then w.answers unauthorized
  else match (trimLeading "/api/client/".toList v.path).splitOn '/' with
    | id :: action :: _ =>
      if action = "state".toList then
        if v.method ≠ .get then w.answers methodNotAllowed
        else match getState w.process.memory id with
          | none => w.answers (.error 404 (.text "unknown client".toList))
          | some _ => w.answers (.json 200)
      else if action = "lock".toList ∨ action = "unlock".toList then
        if v.method ≠ .post then w.answers methodNotAllowed
        else w.calls json (.setLock id (action = "lock".toList) action) v.fault (respond 404)
      else w.answers notFound
    | _ => w.answers notFound

def handleSession (v : Visit Body) : Response × World Text sys :=
  if !requireAdmin codec w v.toRequest then w.answers unauthorized
  else
    let id := trimLeading "/api/session/".toList v.path
    if id = [] ∨ '/' ∈ id then w.answers notFound
    else match v.method with
      | .post =>
        match codec.session v.body with
        | .error e => w.answers (.error 400 (.text e))
        | .ok minutes =>
          if minutes ≤ 0 ∨ 24 * 60 < minutes then
            w.answers (.error 400 (.text "minutes must be between 1 and 1440".toList))
          else w.calls json (.startSession id (minutes * minute) v.now) v.fault (respond 404)
      | .delete => w.calls json (.endSession id) v.fault (respond 404)
      | _ => w.answers methodNotAllowed

/-! ## Handlers for the storage -/

def handleStorageHealth (v : Visit Body) : Response × World Text sys :=
  if v.method ≠ .get then w.answers methodNotAllowed
  else if !requireAdmin codec w v.toRequest then w.answers unauthorized
  else w.answers (.json 200)

def handleStorageImages (v : Visit Body) : Response × World Text sys :=
  if v.method ≠ .get then w.answers methodNotAllowed
  else if !requireAdmin codec w v.toRequest then w.answers unauthorized
  else if v.path = "/api/storage/images".toList then w.answers (.json 200)
  else if "/api/storage/images/".toList.isPrefixOf v.path then
    let id := trimLeading "/api/storage/images/".toList v.path
    if id = [] ∨ '/' ∈ id then w.answers notFound
    else match w.storage.images[id]? with
      | none => w.answers (.error 404 (.text "image not found".toList))
      | some _ => w.answers (.json 200)
  else w.answers notFound

/-- The status for an error of `AssignClient` or `ReleaseAssignment`. -/
def StorageErr.status : StorageErr → ℕ
  | .imageNotFound _ => 404
  | .clientAssigned _ => 409
  | .clientNotAssigned _ => 404
  | _ => 400

def handleStorageAssign (v : Visit Body) : Response × World Text sys :=
  if !requireAdmin codec w v.toRequest then w.answers unauthorized
  else match v.method with
    | .post =>
      if v.path ≠ "/api/storage/assign".toList then w.answers notFound
      else match codec.assign v.body with
        | .error e => w.answers (.error 400 (.text e))
        | .ok (clientID, imageID) =>
          match assignClient sys w.storage clientID imageID v.now with
          | .error e => w.answers (.error e.status (.storage e))
          | .ok (_, storage) => (.json 201, { w with storage := storage })
    | .delete =>
      if !"/api/storage/assign/".toList.isPrefixOf v.path then w.answers notFound
      else
        let clientID := trimLeading "/api/storage/assign/".toList v.path
        if clientID = [] ∨ '/' ∈ clientID then w.answers notFound
        else match releaseAssignment w.storage clientID with
          | .error e => w.answers (.error e.status (.storage e))
          | .ok storage => (.json 200, { w with storage := storage })
    | _ => w.answers methodNotAllowed

variable (boot : World Text sys → Visit Body → Response × World Text sys)

def serve (v : Visit Body) : Response × World Text sys :=
  match target codec v.toRequest with
  | .none => w.answers notFound
  | .redirect path => w.answers (.redirect path)
  | .route .health => handleHealth w v
  | .route .clients => handleClients codec json w v
  | .route .heartbeat => handleHeartbeat codec json w v
  | .route .clientItem => handleClientItem codec json w v
  | .route .session => handleSession codec json w v
  | .route .boot => boot w v
  | .route .storageHealth => handleStorageHealth codec w v
  | .route .storageImages => handleStorageImages codec w v
  | .route .storageAssign => handleStorageAssign codec w v
  | .route .root => handleRoot codec w v

end Serving

end Server
end MkyBoot
