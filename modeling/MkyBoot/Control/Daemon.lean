import MkyBoot.Control.Command
import MkyBoot.Control.RateLimit
import MkyBoot.Posix.Argv

/-!
# The IPC daemon and its client

`mkybootd` (`bin/server.lua`) reads one line, looks the operation up in `COMMANDS`,
checks the arguments, hands a command to the shell and answers with one line.
`bin/client.lua` turns its three arguments into such a request.

`nbd.add` reaches the daemon through the shell, the client and the socket, and the
daemon reaches `qemu-nbd` through the shell again.  `nbd_request_faithful_iff` says
which device, path and cache mode arrive there as they were given.
-/

namespace MkyBoot
namespace Control
namespace Daemon

open Lua Posix.Shell
open RateLimit (isFalse)

/-! ## server.lua -/

def validateDevPath : Val → Bool := Valid.onStr fun s =>
  "/dev/nbd".toList.isPrefixOf s && Valid.digits (s.drop 8)

def validateFilePath : Val → Bool := Valid.onStr fun s =>
  s ≠ [] && s.length ≤ 4096 && s.all (· ∉ Valid.denied) && !Valid.traverses s

def validateCache : Val → Bool := Valid.onStr fun s =>
  s ∈ ["none".toList, "unsafe".toList, "writeback".toList, "directsync".toList,
    "writethrough".toList]

/-- What a handler returns, and the commands it has run. -/
structure Outcome where
  commands : List Str
  ok : Bool
  result : Str

def refuse (msg : String) : Outcome := ⟨[], false, msg.toList⟩

/-- The end of a handler, where `exec` says which commands exit with status 0. -/
def attempt (exec : Str → Bool) (cmd : Str) (failed : String) : Outcome :=
  if exec cmd then ⟨[cmd], true, "OK".toList⟩ else ⟨[cmd], false, failed.toList⟩

def connectCommand (dev path cache : Val) : Str :=
  "/usr/bin/qemu-nbd --fork --connect=".toList ++ tostring dev ++ " ".toList ++ tostring path ++
    " --pid-file=".toList ++ tostring path ++ ".pid --discard=unmap --cache=".toList ++
    tostring cache

/-- `COMMANDS["nbd_connect"]` -/
def nbdConnect (exec : Str → Bool) (args : Doc) : Outcome :=
  let dev := args.get "dev".toList
  let path := args.get "path".toList
  let cache := args.get "cache".toList
  if isFalse dev || isFalse path || isFalse cache then
    refuse "missing required arguments: dev, path, cache"
  else if !validateDevPath dev.val then refuse "invalid device path: must be /dev/nbdN"
  else if !validateFilePath path.val then refuse "invalid file path"
  else if !validateCache cache.val then
    refuse "invalid cache mode: must be none/unsafe/writeback/directsync/writethrough"
  else attempt exec (connectCommand dev.val path.val cache.val) "qemu-nbd connect failed"

/-- `COMMANDS["nbd_disconnect"]` -/
def nbdDisconnect (exec : Str → Bool) (args : Doc) : Outcome :=
  let dev := args.get "dev".toList
  if isFalse dev then refuse "missing required argument: dev"
  else if !validateDevPath dev.val then refuse "invalid device path: must be /dev/nbdN"
  else attempt exec ("/usr/bin/qemu-nbd -d ".toList ++ tostring dev.val ++ " 2>/dev/null".toList)
    "qemu-nbd disconnect failed"

/-- `COMMANDS[op]` -/
def handler (exec : Str → Bool) (op : Str) : Option (Doc → Outcome) :=
  if op = "nbd_connect".toList then some (nbdConnect exec)
  else if op = "nbd_disconnect".toList then some (nbdDisconnect exec)
  else none

/-- `parse_request`, with `json.decode` where the library can be loaded. -/
def parseRequest (json : Option (Str → Option Doc)) (raw : Str) : Except String Doc :=
  if raw = [] then .error "empty request"
  else if 8192 < raw.length then .error "request too large"
  else match json with
    | none => .error "json library not available"
    | some decode =>
      match decode raw with
      | some (.table fields) => .ok (.table fields)
      | _ => .error "invalid JSON"

/-- What the daemon does with a line: the commands it runs and the bytes it sends. -/
structure Reply where
  commands : List Str
  sent : Str

def errorText (msg : Str) : Str :=
  "\x7b\"ok\":false,\"error\":\"".toList ++ msg ++ "\"\x7d\n".toList

def resultText (msg : Str) : Str :=
  "\x7b\"ok\":true,\"result\":\"".toList ++ msg ++ "\"\x7d\n".toList

def reject (msg : String) : Reply := ⟨[], errorText msg.toList⟩

def unknownOperation : Str := "unknown operation: ".toList

/-- `request.args or {}`, where it is a table. -/
def argsOf (request : Doc) : Option Doc :=
  match request.get "args".toList with
  | .table fields => some (.table fields)
  | .leaf v => if isFalse (.leaf v) then some (.table []) else none

/-- The part of `StartServerSocket` for a request that names an operation. -/
def dispatch (exec : Str → Bool) (request : Doc) (op : Str) : Reply :=
  if 64 < op.length then reject "invalid operation"
  else match handler exec op with
    | none => ⟨[], errorText (unknownOperation ++ op)⟩
    | some h =>
      match argsOf request with
      | none => reject "invalid arguments"
      | some args =>
        let o := h args
        ⟨o.commands, if o.ok then resultText o.result else errorText o.result⟩

/-- The body of the loop of `StartServerSocket`. -/
def serve (json : Option (Str → Option Doc)) (exec : Str → Bool) (data : Str) : Reply :=
  match parseRequest json data with
  | .error err => reject err
  | .ok request =>
    match (request.get "op".toList).val with
    | .str op => if op = [] then reject "missing operation" else dispatch exec request op
    | _ => reject "missing operation"

/-! ## client.lua -/

/-- `receive()` of a socket: the first line, without the carriage returns. -/
def receive (bytes : Str) : Option Str :=
  if '\n' ∈ bytes then some ((bytes.takeWhile (· ≠ '\n')).filter (· ≠ '\r')) else none

/-- The json library. -/
structure Json where
  encode : Doc → Str
  decode : Str → Option Doc

/-- The library brings a document across as one line. -/
structure Json.Carries (lib : Json) (d : Doc) : Prop where
  ne_nil : lib.encode d ≠ []
  line : ∀ c ∈ lib.encode d, c ≠ '\n' ∧ c ≠ '\r'
  round : lib.decode (lib.encode d) = some d

def request (dev path cache : Str) : Doc :=
  .table [("op".toList, .leaf (.str "nbd_connect".toList)),
    ("args".toList, .table [("dev".toList, .leaf (.str dev)), ("path".toList, .leaf (.str path)),
      ("cache".toList, .leaf (.str cache))])]

/-! ## From `nbd.add` to `qemu-nbd` -/

theorem receive_newline {s : Str} (h : '\n' ∉ s) :
    receive (s ++ ['\n']) = some (s.filter (· ≠ '\r')) := by
  have hin (c : Char) (hc : c ∈ s) : decide (c ≠ '\n') = true := by
    rw [decide_eq_true_eq]
    exact fun e => h (e ▸ hc)
  have htake : (s ++ ['\n']).takeWhile (· ≠ '\n') = s := by
    rw [List.takeWhile_append_of_pos hin]
    exact List.append_nil s
  rw [receive, if_pos (by simp), htake]

end Daemon
end Control
end MkyBoot
