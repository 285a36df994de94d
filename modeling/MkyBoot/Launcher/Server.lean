import MkyBoot.Server.Http

/-!
# What the launcher asks of a server

The launcher's client of one server: the check of an address, the status check with
its classification of everything that can come back, the sign-in and the control
request.  What the network and the libraries do with a request is passed in as a
reply; the functions here turn a reply into what the launcher goes on with.
-/

namespace MkyBoot
namespace Launcher

open Server (Str Time trimSpace)

/-! ## States and results -/

inductive ServerState where
  | connecting
  | starting
  | online
  | degraded
  | offline
  | timeout
  | unauthorized
  | serverError
  | malformed
  | stopping
  deriving DecidableEq

/-- `ServerState.String` -/
def ServerState.label : ServerState → Str
  | .connecting => "Connecting".toList
  | .starting => "Starting".toList
  | .online => "Online".toList
  | .degraded => "Degraded".toList
  | .offline => "Offline".toList
  | .timeout => "Slow Response".toList
  | .unauthorized => "Unauthorized".toList
  | .serverError => "Server Error".toList
  | .malformed => "Malformed Response".toList
  | .stopping => "Stopping".toList

def ServerState.reachable : ServerState → Bool
  | .online | .degraded | .unauthorized | .starting | .stopping => true
  | _ => false

/-- A control operation has been asked for. -/
def ServerState.transitional : ServerState → Bool
  | .starting | .stopping => true
  | _ => false

inductive ControlOp where
  | restart
  | stop
  deriving DecidableEq

structure ServerStatus where
  ipv4 : Str
  version : Str
  vendor : Str
  clientsTotal : ℤ
  clientsOnline : ℤ
  clientsOffline : ℤ
  servicesRunning : Bool
  downServices : List Str
  deriving DecidableEq

structure CheckResult where
  state : ServerState
  detail : Str
  authRequired : Bool
  status : Option ServerStatus
  checkedAt : Time
  deriving DecidableEq

/-- A result with nothing but a state and a text. -/
def CheckResult.plain (state : ServerState) (detail : Str) (checkedAt : Time) : CheckResult :=
  ⟨state, detail, false, none, checkedAt⟩

/-! ## Texts -/

/-- `s[:n]`.  A rune that is cut through reads as one replacement character for each of its
bytes. -/
def cut : ℕ → Str → Str
  | _, [] => []
  | n, c :: cs =>
    if c.utf8Size ≤ n then c :: cut (n - c.utf8Size) cs else List.replicate n (Char.ofNat 0xfffd)

def sanitizeDetail (s : Str) : Str :=
  let s := (trimSpace s).map fun c => if c.toNat < 0x20 ∨ c.toNat = 0x7f then ' ' else c
  if 160 < byteLength s then cut 160 s ++ "...".toList else s

def orDash (s : Str) : Str := if s = [] then "-".toList else s

/-- `strings.Contains` -/
def contains (s sub : Str) : Bool := decide (sub <:+: s)

/-- `strings.EqualFold` with the text of the server's refusal, none of whose letters has a
fold outside ASCII. -/
def isNotAuthenticated (s : Str) : Bool :=
  s.map Char.toLower == "not authenticated".toList

def httpText (code : ℕ) : Str := "HTTP ".toList ++ Nat.toDigits 10 code

/-! ## Addresses -/

structure ParsedUrl where
  scheme : Str
  user : Bool
  host : Str
  rawQuery : Str
  fragment : Str
  path : Str

/-- `net/url`: `Parse`, and `String` of a URL with a scheme and a host only. -/
structure UrlLib where
  parse : Str → Except Str ParsedUrl
  text : Str → Str → Str

/-- `net/url` on addresses that start with `http://` and have no user, query or fragment and
nothing to escape. -/
def UrlLib.plain : UrlLib where
  parse raw :=
    if "http://".toList.isPrefixOf raw then
      let rest := raw.drop 7
      .ok ⟨"http".toList, false, rest.takeWhile (· != '/'), [], [], rest.dropWhile (· != '/')⟩
    else .error "first path segment in URL cannot contain colon".toList
  text scheme host := scheme ++ "://".toList ++ host

def normalizeServerURL (url : UrlLib) (raw : Str) : Except Str Str :=
  let raw := trimSpace raw
  if raw = [] then .error "server URL is empty".toList
  else if 2048 < byteLength raw then .error "server URL is too long".toList
  else
    match url.parse raw with
    | .error e => .error ("invalid server URL: ".toList ++ e)
    | .ok u =>
      let scheme := u.scheme.map Char.toLower
      if scheme ≠ "http".toList ∧ scheme ≠ "https".toList then
        .error ("unsupported URL scheme \"".toList ++ u.scheme ++ "\" (only http/https)".toList)
      else if u.user then .error "server URL must not contain credentials".toList
      else if u.host = [] then .error "server URL has no host".toList
      else if u.rawQuery ≠ [] ∨ u.fragment ≠ [] then
        .error "server URL must not contain query or fragment".toList
      else if u.path ≠ [] ∧ u.path ≠ ['/'] then
        .error "server URL must not contain a path".toList
      else .ok (url.text scheme u.host)

/-! ## The status check -/

structure DialError where
  text : Str
  timeout : Bool

/-- What `errors.As` and `errors.Is` find in an error of a request. -/
structure TransportError where
  dial : Option DialError
  canceled : Bool
  timeout : Bool
  deadlineExceeded : Bool
  text : Str

def classifyDial (e : DialError) : ServerState × Str :=
  if contains e.text "refused".toList then (.offline, "connection refused".toList)
  else if contains e.text "no such host".toList then (.offline, "host not found".toList)
  else if contains e.text "network is unreachable".toList ||
      contains e.text "no route to host".toList || contains e.text "unreachable".toList ||
      contains e.text "unreachable network".toList then (.offline, "network unreachable".toList)
  else if e.timeout then (.offline, "connect timed out".toList)
  else (.offline, "cannot reach server".toList)

def classifyTransportError (e : TransportError) : ServerState × Str :=
  match e.dial with
  | some d => classifyDial d
  | none =>
    if e.canceled then (.offline, "check cancelled".toList)
    else if e.timeout then (.timeout, "server reachable but slow to respond".toList)
    else if e.deadlineExceeded then (.timeout, "server reachable but slow to respond".toList)
    else if contains e.text "no such host".toList then (.offline, "host not found".toList)
    else if contains e.text "refused".toList then (.offline, "connection refused".toList)
    else if contains e.text "EOF".toList || contains e.text "reset".toList ||
        contains e.text "forced close".toList then (.offline, "connection closed by server".toList)
    else (.offline, "cannot reach server".toList)

structure RawStatus where
  ipv4 : Str
  version : Str
  vendor : Str
  total : ℤ
  online : ℤ
  offline : ℤ
  dhcp : Bool
  tftp : Bool
  iscsi : Bool
  error : Str

/-- How a status request ends. -/
inductive StatusReply where
  | noRequest
  /-- `cancelled` says whether the context of the caller has been cancelled. -/
  | failed (cancelled : Bool) (e : TransportError)
  | unreadable
  | tooLarge
  /-- The status code, and the payload if it is JSON. -/
  | answered (code : ℕ) (payload : Option RawStatus)

def downServices (raw : RawStatus) : List Str :=
  (if raw.dhcp then [] else ["DHCP".toList]) ++ (if raw.tftp then [] else ["TFTP".toList]) ++
    if raw.iscsi then [] else ["iSCSI".toList]

/-- The part of `CheckStatusContext` for a payload. -/
def classifyPayload (now : Time) (raw : RawStatus) : CheckResult :=
  if raw.error ≠ [] then
    if isNotAuthenticated raw.error then
      ⟨.online, "Reachable (dashboard sign-in required)".toList, true, none, now⟩
    else .plain .malformed ("API error: ".toList ++ sanitizeDetail raw.error) now
  else if raw.ipv4 = [] ∧ raw.version = [] ∧ raw.total = 0 then
    .plain .malformed "payload missing MKYBOOT status fields".toList now
  else
    let down := downServices raw
    let status := ⟨raw.ipv4, raw.version, raw.vendor, raw.total, raw.online, raw.offline,
      down.isEmpty, down⟩
    let detail := "MKYBOOT ".toList ++ orDash raw.version ++ " at ".toList ++ orDash raw.ipv4
    if down ≠ [] then
      ⟨.degraded, detail ++ " - not running: ".toList ++ List.intercalate ", ".toList down, false,
        some status, now⟩
    else ⟨.online, detail, false, some status, now⟩

/-- The part of `CheckStatusContext` for an answer that could be read. -/
def classifyAnswer (now : Time) (code : ℕ) (payload : Option RawStatus) : CheckResult :=
  if code = 401 ∨ code = 403 then .plain .unauthorized (httpText code) now
  else if code = 408 then .plain .timeout "server reported HTTP 408".toList now
  else if 400 ≤ code then .plain .serverError (httpText code) now
  else
    match payload with
    | none => .plain .malformed "invalid JSON payload".toList now
    | some raw => classifyPayload now raw

def checkStatusContext (now : Time) : StatusReply → CheckResult
  | .noRequest => .plain .offline "cannot build request".toList now
  | .failed true _ => .plain .offline "check cancelled".toList now
  | .failed false e => .plain (classifyTransportError e).1 (classifyTransportError e).2 now
  | .unreadable => .plain .serverError "failed to read response".toList now
  | .tooLarge => .plain .malformed "response too large".toList now
  | .answered code payload => classifyAnswer now code payload

def statusRetryAttempts : ℕ := 2

/-- The attempts of `CheckStatusRetry` from one on, when nobody cancels them. -/
def retryFrom (reply : ℕ → Time × StatusReply) (attempt : ℕ) : ℕ → CheckResult
  | 0 => checkStatusContext (reply attempt).1 (reply attempt).2
  | left + 1 =>
    let res := checkStatusContext (reply attempt).1 (reply attempt).2
    if res.state ≠ .timeout ∧ res.state ≠ .connecting then res
    else retryFrom reply (attempt + 1) left

def checkStatusRetry (reply : ℕ → Time × StatusReply) : CheckResult :=
  retryFrom reply 0 statusRetryAttempts

/-! A check says what it has seen of the server, never that an operation is under way. -/

theorem classifyDial_state (e : DialError) : (classifyDial e).1 = .offline := by
  unfold classifyDial
  repeat' split
  all_goals rfl

theorem classifyTransportError_state (e : TransportError) :
    (classifyTransportError e).1 = .offline ∨ (classifyTransportError e).1 = .timeout := by
  unfold classifyTransportError
  cases e.dial with
  | some d => exact Or.inl (classifyDial_state d)
  | none =>
    dsimp only
    repeat' split
    all_goals simp

theorem classifyPayload_not_transitional (now : Time) (raw : RawStatus) :
    (classifyPayload now raw).state.transitional = false := by
  unfold classifyPayload
  dsimp only
  repeat' split
  all_goals rfl

theorem classifyAnswer_not_transitional (now : Time) (code : ℕ) (payload : Option RawStatus) :
    (classifyAnswer now code payload).state.transitional = false := by
  unfold classifyAnswer
  split
  · rfl
  · split
    · rfl
    · split
      · rfl
      · cases payload with
        | none => rfl
        | some raw => exact classifyPayload_not_transitional now raw

theorem checkStatusContext_not_transitional (now : Time) (reply : StatusReply) :
    (checkStatusContext now reply).state.transitional = false := by
  cases reply with
  | noRequest | unreadable | tooLarge => rfl
  | failed cancelled e =>
    cases cancelled with
    | true => rfl
    | false =>
      show (classifyTransportError e).1.transitional = false
      rcases classifyTransportError_state e with h | h <;> rw [h] <;> rfl
  | answered code payload => exact classifyAnswer_not_transitional now code payload

theorem checkStatusRetry_not_transitional (reply : ℕ → Time × StatusReply) :
    (checkStatusRetry reply).state.transitional = false := by
  have hfrom (left attempt : ℕ) :
      (retryFrom reply attempt left).state.transitional = false := by
    induction left generalizing attempt with
    | zero => exact checkStatusContext_not_transitional _ _
    | succ left ih =>
      rw [retryFrom]
      split
      · exact checkStatusContext_not_transitional _ _
      · exact ih (attempt + 1)
  exact hfrom statusRetryAttempts 0

/-! ## Sign-in and control -/

inductive LoginReply where
  | noRequest
  | failed (e : TransportError)
  | unreadable
  /-- The body, and whether the jar holds a session cookie afterwards. -/
  | answered (body : Str) (session : Bool)

/-- The error of `Login`, if there is one. -/
def login : LoginReply → Option Str
  | .noRequest => some "invalid server URL".toList
  | .failed e => some ("login failed: ".toList ++ (classifyTransportError e).1.label ++
      " (".toList ++ (classifyTransportError e).2 ++ ")".toList)
  | .unreadable => some "login failed: cannot read response".toList
  | .answered body session =>
    let reply := trimSpace body
    if reply = "OK".toList then
      if session then none else some "login response OK but no session cookie received".toList
    else if "ERROR".toList.isPrefixOf reply then some (sanitizeDetail reply)
    else some "unexpected server response".toList

structure ControlAck where
  accepted : Bool
  action : Str
  error : Str

structure ControlPayload where
  success : Option Bool
  action : Str
  error : Str

inductive ControlReply where
  | noRequest
  | failed (text : Str)
  | unreadable
  | answered (code : ℕ) (payload : Option ControlPayload)

inductive ControlError where
  | notAuthenticated (text : Str)
  | other (text : Str)

/-- The part of `Control` for a payload. -/
def acknowledge (p : ControlPayload) : Except ControlError ControlAck :=
  if p.error ≠ [] then
    if isNotAuthenticated p.error then .error (.notAuthenticated "server session required".toList)
    else .error (.other (sanitizeDetail p.error))
  else
    match p.success with
    | none => .error (.other "unexpected server response".toList)
    | some true => .ok ⟨true, p.action, p.error⟩
    | some false => .error (.other ("server rejected operation: ".toList ++ sanitizeDetail p.error))

/-- `Control` for one of the two supported operations. -/
def control (url : UrlLib) (baseURL : Str) (reply : ControlReply) :
    Except ControlError ControlAck :=
  match normalizeServerURL url baseURL with
  | .error e => .error (.other ("invalid server URL: ".toList ++ e))
  | .ok _ =>
    match reply with
    | .noRequest => .error (.other "invalid server URL".toList)
    | .failed text => .error (.other ("control request interrupted: ".toList ++ text))
    | .unreadable => .error (.other "cannot read control response".toList)
    | .answered code payload =>
      if code = 401 ∨ code = 403 then
        .error (.notAuthenticated
          ("server session required (".toList ++ httpText code ++ ")".toList))
      else
        match payload with
        | none => .error (.other "unexpected server response".toList)
        | some p => acknowledge p

end Launcher
end MkyBoot
