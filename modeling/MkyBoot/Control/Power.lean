import MkyBoot.Control.Origin
import MkyBoot.Json.Struct
import MkyBoot.Launcher.Server
import MkyBoot.Server.Load

/-!
# Restart and stop, from the launcher to `systemctl`

The launcher asks the server in Lua to restart or stop nginx and reads the answer.  The handler
takes what `os.execute` returns for a condition.  In Lua 5.1 that is the status of the command,
a number, and every number is true; later versions return a boolean or nil.

`acknowledged_iff` says when the launcher is told that an operation succeeded: in Lua 5.1 for
every request with a session, whatever `systemctl` did.  The json module of the server is a
parameter of it, and all it has to do is to write texts from which the launcher gets the
members of the table back.
-/

namespace MkyBoot
namespace Control
namespace Power

open Lua
open Launcher (ControlOp ControlPayload ControlReply ControlAck ControlError UrlLib
  normalizeServerURL)
open Server (foldName)

/-! ## The server -/

/-- What `os.execute` returns for the status of a command. -/
inductive Version where
  | lua51
  | lua52

def Version.execute : Version → ℤ → Val
  | .lua51, status => .num status
  | .lua52, status => if status = 0 then .bool true else .nil

/-- A condition holds for every value but `nil` and `false`. -/
def truthy : Val → Bool
  | .nil => false
  | .bool b => b
  | _ => true

/-- `valid.service_name` -/
def serviceName : Val → Bool
  | .str s => s ∈ ["isc-dhcp-server".toList, "tftpd-hpa".toList, "tgt".toList, "nginx".toList,
      "mkybootd".toList]
  | _ => false

/-- `valid.systemctl_cmd` -/
def systemctlCmd : Val → Bool
  | .str s => s ∈ ["start".toList, "stop".toList, "restart".toList, "status".toList,
      "enable".toList, "disable".toList]
  | _ => false

/-- `inc.systemctl`, with `os.execute`. -/
def systemctl (execute : Str → Val) (name cmd : Val) : Val :=
  if !serviceName name then .bool false
  else if !systemctlCmd cmd then .bool false
  else execute ("/usr/bin/systemctl ".toList ++ tostring cmd ++ ' ' :: tostring name)

/-- The members of an answer. -/
def members (op : Str) (result : Val) : List (Str × Json.Value) :=
  if truthy result then [("success".toList, .bool true), ("action".toList, .str op)]
  else [("success".toList, .bool false), ("action".toList, .str op),
    ("error".toList, .str (tostring result))]

/-- `json.encode` of a module outside the repository, on a table with these members. -/
abbrev Encoder := List (Str × Json.Value) → Str

/-- `ngx.say(json.encode(t))` -/
def say (encode : Encoder) (ms : List (Str × Json.Value)) : Str := encode ms ++ ['\n']

/-- The handler of `api=server`.  `pcall` has nothing to catch, since `inc.systemctl` raises no
error. -/
def answer (encode : Encoder) (execute : Str → Val) (session : Bool)
    (ipv4 http_origin http_referer : Option Str) (op : Str) : Str :=
  match apiServerGate session ipv4 http_origin http_referer with
  | some refusal => refusal ++ ['\n']
  | none =>
    if op = "restart".toList then
      say encode (members "restart".toList
        (systemctl execute (.str "nginx".toList) (.str "restart".toList)))
    else if op = "stop".toList then
      say encode (members "stop".toList
        (systemctl execute (.str "nginx".toList) (.str "stop".toList)))
    else "\x7b\"error\":\"Invalid server operation\"\x7d\n".toList

/-! ## The launcher -/

def payloadFields : List (Json.Field ControlPayload) :=
  [{ name := "success".toList
     encode := fun p => some (p.success.elim .null .bool)
     decode := fun p v =>
      match v with
      | .null => some { p with success := none }
      | .bool b => some { p with success := some b }
      | _ => none },
    .string "action".toList (·.action) ({ · with action := · }),
    .string "error".toList (·.error) ({ · with error := · })]

def unmarshalControl (body : Str) : Option ControlPayload :=
  Json.unmarshalStruct foldName payloadFields ⟨none, [], []⟩ body

/-- The body is read up to 64 KiB. -/
def receiveControl (code : ℕ) (body : Str) : ControlReply :=
  .answered code (unmarshalControl (body.take 65536))

/-- `ControlOp` as it is sent. -/
def opName : ControlOp → Str
  | .restart => "restart".toList
  | .stop => "stop".toList

/-! ## The answer as it is read -/

theorem names_payload : Json.Names foldName payloadFields := by
  constructor <;> simp [payloadFields, Json.Field.string, foldName]

theorem independent_payload : ∀ f ∈ payloadFields, ∀ g ∈ payloadFields, f.name ≠ g.name →
    f.Independent g := by
  intro f hf g hg hne a x y
  simp only [payloadFields, List.mem_cons, List.not_mem_nil, or_false] at hf hg
  rcases hf with rfl | rfl | rfl <;> rcases hg with rfl | rfl | rfl
  all_goals first
    | exact absurd rfl hne
    | (cases x <;> cases y <;> rfl)

/-- The decoder of the launcher gets the members of a table back from its text, in any order,
and the text is not too long for it. -/
structure Encoder.Carries (encode : Encoder) (ms : List (Str × Json.Value)) : Prop where
  decodes : ∃ ms', ms'.Perm ms ∧ Json.decode (say encode ms) = some (.obj ms')
  short : (say encode ms).length ≤ 65536

theorem unmarshalControl_say {encode : Encoder} {ms : List (Str × Json.Value)}
    (h : encode.Carries ms) (hnames : (ms.map fun m => foldName m.1).Nodup) :
    unmarshalControl ((say encode ms).take 65536) =
      Json.decodeMembers foldName payloadFields ⟨none, [], []⟩ ms := by
  obtain ⟨ms', hperm, hdecode⟩ := h.decodes
  rw [List.take_of_length_le h.short, unmarshalControl, Json.unmarshalStruct, hdecode]
  exact (Json.decodeMembers_perm independent_payload hnames hperm.symm _).symm

/-- A module that writes the members as they come. -/
def compact : Encoder := fun ms => Json.write .compact 0 (.obj ms)

theorem carries_compact {ms : List (Str × Json.Value)} (hnum : Json.NumericMembers ms)
    (hsmall : Json.boundMembers ms ≤ 1000) : compact.Carries ms where
  decodes := ⟨ms, List.Perm.refl ms, Json.decode_write .compact (v := .obj ms) hnum⟩
  short := by
    have hbound := Json.length_write_le (.obj ms) 0
    rw [Json.Value.bound] at hbound
    rw [say, compact, List.length_append, List.length_singleton]
    omega

theorem refusal_eq : "\x7b\"error\":\"Not authenticated\"\x7d".toList ++ ['\n'] =
    say compact [("error".toList, .str "Not authenticated".toList)] := by
  rw [say, compact, Json.write, Json.write, Json.writeMembers]
  decide +kernel

theorem unmarshalControl_refusal :
    unmarshalControl (("\x7b\"error\":\"Not authenticated\"\x7d".toList ++ ['\n']).take 65536) =
      some ⟨none, [], "Not authenticated".toList⟩ := by
  have hcarries : compact.Carries [("error".toList, .str "Not authenticated".toList)] :=
    carries_compact ⟨trivial, trivial⟩ (by decide +kernel)
  rw [refusal_eq, unmarshalControl_say hcarries (by decide)]
  exact Json.decodeMembers_cons names_payload (f := payloadFields[2]) (List.getElem_mem _) rfl []

theorem unmarshalControl_members {encode : Encoder} {op : ControlOp} {result : Val}
    (h : encode.Carries (members (opName op) result)) :
    unmarshalControl ((say encode (members (opName op) result)).take 65536) =
      some ⟨some (truthy result), opName op, if truthy result then [] else tostring result⟩ := by
  cases htruthy : truthy result with
  | true =>
    have hms : members (opName op) result =
        [("success".toList, .bool true), ("action".toList, .str (opName op))] := if_pos htruthy
    rw [unmarshalControl_say h (by rw [hms]; simp [foldName]), hms]
    exact (Json.decodeMembers_cons names_payload (f := payloadFields[0]) (List.getElem_mem _) rfl
      _).trans (Json.decodeMembers_cons names_payload (f := payloadFields[1])
        (List.getElem_mem _) rfl [])
  | false =>
    have hms : members (opName op) result = [("success".toList, .bool false),
        ("action".toList, .str (opName op)), ("error".toList, .str (tostring result))] :=
      if_neg (by rw [htruthy]; exact Bool.false_ne_true)
    rw [unmarshalControl_say h (by rw [hms]; simp [foldName]), hms]
    exact (Json.decodeMembers_cons names_payload (f := payloadFields[0]) (List.getElem_mem _) rfl
      _).trans <| (Json.decodeMembers_cons names_payload (f := payloadFields[1])
        (List.getElem_mem _) rfl _).trans <|
      Json.decodeMembers_cons names_payload (f := payloadFields[2]) (List.getElem_mem _) rfl []

/-- With a session the command is run; the launcher sends no header for the origin. -/
theorem answer_of_session (encode : Encoder) (execute : Str → Val) (ipv4 : Option Str)
    (op : ControlOp) :
    answer encode execute true ipv4 none none (opName op) =
      say encode (members (opName op) (execute
        ("/usr/bin/systemctl ".toList ++ opName op ++ " nginx".toList))) := by
  cases op with
  | restart => rfl
  | stop => rfl

theorem truthy_execute_iff (version : Version) (status : ℤ) :
    truthy (version.execute status) = true ↔ version = .lua51 ∨ status = 0 := by
  cases version with
  | lua51 => simp [Version.execute, truthy]
  | lua52 =>
    by_cases h : status = 0
    · simp [Version.execute, truthy, h]
    · simp [Version.execute, truthy, h]

theorem control_answered {url : UrlLib} {baseURL norm : Str}
    (hurl : normalizeServerURL url baseURL = .ok norm) (payload : ControlPayload) :
    Launcher.control url baseURL (.answered 200 (some payload)) = Launcher.acknowledge payload := by
  rw [Launcher.control, hurl]
  rfl

/-- Without a session the launcher is told to sign in. -/
theorem control_without_session (encode : Encoder) (execute : Str → Val) (ipv4 : Option Str)
    (op : Str) {url : UrlLib} {baseURL norm : Str}
    (hurl : normalizeServerURL url baseURL = .ok norm) :
    Launcher.control url baseURL
        (receiveControl 200 (answer encode execute false ipv4 none none op)) =
      .error (.notAuthenticated "server session required".toList) := by
  have hanswer : answer encode execute false ipv4 none none op =
      "\x7b\"error\":\"Not authenticated\"\x7d".toList ++ ['\n'] := rfl
  rw [hanswer, receiveControl, unmarshalControl_refusal, control_answered hurl]
  rfl

/-- With one it is told whether the result of the command counts as true. -/
theorem control_with_session {encode : Encoder} {version : Version} {status : ℤ} {op : ControlOp}
    (hcarries : encode.Carries (members (opName op) (version.execute status)))
    (ipv4 : Option Str) {url : UrlLib} {baseURL norm : Str}
    (hurl : normalizeServerURL url baseURL = .ok norm) :
    Launcher.control url baseURL (receiveControl 200
        (answer encode (fun _ => version.execute status) true ipv4 none none (opName op))) =
      if truthy (version.execute status) then .ok ⟨true, opName op, []⟩
      else .error (.other "nil".toList) := by
  rw [answer_of_session, receiveControl, unmarshalControl_members hcarries, control_answered hurl]
  cases htruthy : truthy (version.execute status) with
  | true => rfl
  | false =>
    have hnil : version.execute status = .nil := by
      cases version with
      | lua51 => exact absurd htruthy (by simp [Version.execute, truthy])
      | lua52 =>
        by_cases hzero : status = 0
        · exact absurd htruthy (by simp [Version.execute, truthy, hzero])
        · exact if_neg hzero
    rw [hnil]
    rfl

/-- The launcher is told that an operation succeeded exactly if it has a session and, unless
the server runs in Lua 5.1, `systemctl` was successful; in Lua 5.1 the status does not matter.
Without a session it is told to sign in. -/
theorem acknowledged_iff (encode : Encoder) (version : Version) (status : ℤ) (op : ControlOp)
    (hcarries : encode.Carries (members (opName op) (version.execute status)))
    (ipv4 : Option Str) {url : UrlLib} {baseURL norm : Str}
    (hurl : normalizeServerURL url baseURL = .ok norm) (session : Bool) :
    let reply := receiveControl 200
      (answer encode (fun _ => version.execute status) session ipv4 none none (opName op))
    (Launcher.control url baseURL reply = .ok ⟨true, opName op, []⟩ ↔
        session = true ∧ (version = .lua51 ∨ status = 0)) ∧
      (session = false ↔ Launcher.control url baseURL reply =
        .error (.notAuthenticated "server session required".toList)) := by
  intro reply
  cases session with
  | false =>
    have hcontrol := control_without_session encode (fun _ => version.execute status) ipv4
      (opName op) hurl
    rw [hcontrol]
    simp
  | true =>
    have hcontrol := control_with_session hcarries ipv4 hurl
    rw [hcontrol, ← truthy_execute_iff version status]
    cases truthy (version.execute status) with
    | true => simp
    | false => simp

/-- A restart that fails in Lua 5.1 is acknowledged. -/
theorem failed_restart_acknowledged :
    Launcher.control .plain "http://10.0.0.1:8888".toList (receiveControl 200
      (answer compact (fun _ => Version.lua51.execute 256) true none none none
        (opName .restart))) = .ok ⟨true, "restart".toList, []⟩ := by
  have hurl : normalizeServerURL .plain "http://10.0.0.1:8888".toList =
      .ok "http://10.0.0.1:8888".toList := by decide +kernel
  have hcarries : compact.Carries (members (opName .restart) (Version.lua51.execute 256)) :=
    carries_compact ⟨trivial, trivial, trivial⟩ (by decide +kernel)
  have h := acknowledged_iff compact .lua51 256 .restart hcarries none hurl true
  exact h.1.mpr ⟨rfl, Or.inl rfl⟩

end Power
end Control
end MkyBoot
