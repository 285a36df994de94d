import MkyBoot.Control.Daemon
import MkyBoot.Json.Reader

/-!
# The answers of the daemon

The daemon puts its answers together around a text.  All of these texts but one are
its own; the name of an operation it does not know comes from the request.
`replies_truthful_iff` says for every line the daemon receives when its answer is one
JSON object whose `ok` tells whether a command has succeeded.
-/

namespace MkyBoot
namespace Control
namespace Answer

open Lua Daemon

/-- The test `parsed.ok`, where `null` is decoded as `nil`. -/
def isTrue : Option Json.Value → Bool
  | none => false
  | some .null => false
  | some (.bool b) => b
  | some _ => true

def okOf (response : Str) : Option Json.Value :=
  (Json.read response).bind (Json.Value.last? "ok".toList)

def isObject (s : Str) : Bool := (Json.read s).any Json.Value.isObj

/-- The reply is one line that is an object, also as the client receives it, and both its
`ok` and the test of the client say whether a handler has run a command that succeeded. -/
def Truthful (exec : Str → Bool) (r : Reply) : Prop :=
  ∃ body response, r.sent = body ++ ['\n'] ∧ '\n' ∉ body ∧ isObject body = true ∧
    receive r.sent = some response ∧ isObject response = true ∧
    (okOf response = some (.bool true) ↔ r.commands.any exec = true) ∧
    (isTrue (okOf response) = true ↔ r.commands.any exec = true)

/-- The operation of a request that is well formed, if the daemon does not know it. -/
def strangeOp (json : Option (Str → Option Doc)) (data : Str) : Option Str :=
  match parseRequest json data with
  | .error _ => none
  | .ok request =>
    match (request.get "op".toList).val with
    | .str op =>
      if op = [] ∨ 64 < op.length ∨ op ∈ ["nbd_connect".toList, "nbd_disconnect".toList] then none
      else some op
    | _ => none

/-! ## Texts within an answer -/

/-- What has been read when the text of an error begins. -/
def inside : Json.State :=
  .string (.value [.member [("ok".toList, .bool false)] "error".toList]) [] .none

/-- A string is being read that is the value of a member of the answer: its key, and the
members before it, the last first. -/
def member : Json.State → Option (Json.Text × List (Json.Text × Json.Value))
  | .string (.value [.member ms k]) _ .none => some (k, ms)
  | _ => none

/-- Read on from within the error string, the text leaves the reader in a string value
of the same object, without a new line, and no `ok` it has added passes for true. -/
def Harmless (msg : Str) : Prop :=
  '\n' ∉ msg ∧ (member (Json.run inside msg)).isSome = true ∧
    (member (Json.run inside (msg.filter (· ≠ '\r')))).any
      (fun m => m.1 ≠ "ok".toList && !isTrue (m.2.lookup "ok".toList)) = true

instance (msg : Str) : Decidable (Harmless msg) := inferInstanceAs (Decidable (_ ∧ _ ∧ _))

def errorHead : Str := "\x7b\"ok\":false,\"error\":\"".toList

def closing : Str := "\"\x7d".toList

theorem read_error (msg : Str) : Json.read (errorHead ++ (msg ++ closing)) =
    Json.finish (Json.run (Json.run inside msg) closing) := by
  have hhead : Json.run (.value []) errorHead = inside := by rfl
  rw [Json.read, Json.run_append, hhead, Json.run_append]

theorem member_eq_some_iff {s : Json.State} {k : Json.Text} {ms : List (Json.Text × Json.Value)} :
    member s = some (k, ms) ↔ ∃ read, s = .string (.value [.member ms k]) read .none := by
  constructor
  · intro h
    unfold member at h
    split at h
    · next ms' k' read =>
      obtain ⟨rfl, rfl⟩ := Prod.mk.inj (Option.some.inj h)
      exact ⟨read, rfl⟩
    · exact absurd h (by simp)
  · intro h
    obtain ⟨read, rfl⟩ := h
    rfl

theorem isObject_error_iff (msg : Str) :
    isObject (errorHead ++ (msg ++ closing)) = true ↔
      (member (Json.run inside msg)).isSome = true := by
  rw [isObject, read_error, Option.any_eq_true, Option.isSome_iff_exists]
  constructor
  · intro h
    obtain ⟨v, hv, -⟩ := h
    obtain ⟨ms, k, read, hs, -⟩ := (Json.finish_closed_iff _ v).mp hv
    exact ⟨(k, ms), member_eq_some_iff.mpr ⟨read, hs⟩⟩
  · intro h
    obtain ⟨⟨k, ms⟩, h⟩ := h
    obtain ⟨read, hs⟩ := member_eq_some_iff.mp h
    exact ⟨_, (Json.finish_closed_iff _ _).mpr ⟨ms, k, read, hs, rfl⟩, rfl⟩

/-- The `ok` of an answer with the text: that of the last string, or the last one before. -/
theorem isTrue_okOf_error {msg : Str} {k : Json.Text} {ms : List (Json.Text × Json.Value)}
    (h : member (Json.run inside msg) = some (k, ms)) :
    isTrue (okOf (errorHead ++ (msg ++ closing))) =
      !(k ≠ "ok".toList && !isTrue (ms.lookup "ok".toList)) := by
  obtain ⟨read, hs⟩ := member_eq_some_iff.mp h
  have hread : Json.finish (Json.run (Json.run inside msg) closing) =
      some (.obj ((k, .str (Json.textOf read.reverse)) :: ms).reverse) :=
    (Json.finish_closed_iff _ _).mpr ⟨ms, k, read, hs, rfl⟩
  have hlast : okOf (errorHead ++ (msg ++ closing)) =
      List.lookup "ok".toList ((k, .str (Json.textOf read.reverse)) :: ms) := by
    rw [okOf, read_error, hread, Option.bind_some, Json.Value.last?, List.reverse_reverse]
  rw [hlast]
  by_cases hk : k = "ok".toList
  · rw [hk, List.lookup_cons_self]
    rfl
  · have hbeq : ("ok".toList == k) = false := beq_false_of_ne (Ne.symm hk)
    rw [List.lookup_cons, hbeq, decide_eq_true hk, Bool.true_and, Bool.not_not]

/-! ## The answers -/

theorem errorText_eq (msg : Str) : errorText msg = errorHead ++ (msg ++ closing) ++ ['\n'] := by
  have hend : "\"\x7d\n".toList = closing ++ ['\n'] := by rfl
  show errorHead ++ msg ++ "\"\x7d\n".toList = _
  rw [hend, List.append_assoc, List.append_assoc, List.append_assoc]

theorem filter_error (msg : Str) : (errorHead ++ (msg ++ closing)).filter (· ≠ '\r') =
    errorHead ++ (msg.filter (· ≠ '\r') ++ closing) := by
  have hhead : errorHead.filter (· ≠ '\r') = errorHead := by decide +kernel
  have hclose : closing.filter (· ≠ '\r') = closing := by decide +kernel
  rw [List.filter_append, List.filter_append, hhead, hclose]

/-- An error is told truthfully exactly when its text is harmless. -/
theorem truthful_error_iff {exec : Str → Bool} {commands : List Str}
    (hno : commands.any exec = false) (msg : Str) :
    Truthful exec ⟨commands, errorText msg⟩ ↔ Harmless msg := by
  have hnewline : '\n' ∉ errorHead ++ (msg ++ closing) ↔ '\n' ∉ msg := by
    rw [List.mem_append, List.mem_append, not_or, not_or]
    exact ⟨fun h => h.2.1, fun h => ⟨by decide, h, by decide⟩⟩
  have hfalse : ¬ commands.any exec = true := by rw [hno]; exact Bool.false_ne_true
  have hresponse (h : '\n' ∉ msg) : receive (errorText msg) =
      some (errorHead ++ (msg.filter (· ≠ '\r') ++ closing)) := by
    rw [errorText_eq, receive_newline (hnewline.mpr h), filter_error]
  constructor
  · intro h
    obtain ⟨body, response, hsent, hline, hobj, hrec, hobj', -, htrue⟩ := h
    obtain rfl := List.append_cancel_right ((errorText_eq msg).symm.trans hsent)
    have hmsg := hnewline.mp hline
    obtain rfl := Option.some.inj ((hresponse hmsg).symm.trans hrec)
    refine ⟨hmsg, (isObject_error_iff msg).mp hobj, ?_⟩
    obtain ⟨⟨k, ms⟩, hmember⟩ := Option.isSome_iff_exists.mp ((isObject_error_iff _).mp hobj')
    rw [isTrue_okOf_error hmember] at htrue
    rw [hmember, Option.any_some]
    by_contra hbad
    exact hfalse (htrue.mp (by rw [Bool.eq_false_iff.mpr hbad]; rfl))
  · intro h
    obtain ⟨hmsg, hobj, hany⟩ := h
    obtain ⟨⟨k, ms⟩, hmember, hgood⟩ := (Option.any_eq_true _ _).mp hany
    have htrue : ¬ isTrue (okOf (errorHead ++ (msg.filter (· ≠ '\r') ++ closing))) = true := by
      rw [isTrue_okOf_error hmember, hgood]
      exact Bool.false_ne_true
    refine ⟨_, _, errorText_eq msg, hnewline.mpr hmsg, (isObject_error_iff msg).mpr hobj,
      hresponse hmsg, (isObject_error_iff _).mpr ?_, ?_, iff_of_false htrue hfalse⟩
    · rw [hmember]
      rfl
    · refine iff_of_false (fun hok => htrue ?_) hfalse
      rw [hok]
      rfl

theorem harmless_of_plain {msg : Str} (h : ∀ c ∈ msg, Json.Plain c) : Harmless msg := by
  have hout (c : Char) (hc : ¬ Json.Plain c) : c ∉ msg := fun hmem => hc (h c hmem)
  have hfilter : msg.filter (· ≠ '\r') = msg := by
    refine List.filter_eq_self.mpr fun c hc => decide_eq_true fun e => ?_
    exact hout '\r' (by decide) (e ▸ hc)
  have hmember : member (Json.run inside msg) =
      some ("error".toList, [("ok".toList, .bool false)]) := by
    rw [inside, Json.run_plain h]
    rfl
  refine ⟨hout '\n' (by decide), ?_, ?_⟩
  · rw [hmember]
    rfl
  · rw [hfilter, hmember]
    rfl

/-- The answer to a command that has succeeded. -/
theorem truthful_result {exec : Str → Bool} {cmd : Str} (h : exec cmd = true) :
    Truthful exec ⟨[cmd], resultText "OK".toList⟩ := by
  have hany : [cmd].any exec = true := by
    rw [List.any_cons, h, Bool.true_or]
  have hsent : resultText "OK".toList =
      "\x7b\"ok\":true,\"result\":\"OK\"\x7d".toList ++ ['\n'] := by decide +kernel
  have hreceive : receive (resultText "OK".toList) =
      some "\x7b\"ok\":true,\"result\":\"OK\"\x7d".toList := by decide +kernel
  refine ⟨_, _, hsent, by decide, by decide +kernel, hreceive, by decide +kernel,
    iff_of_true ?_ hany, iff_of_true ?_ hany⟩
  · rfl
  · rfl

/-- What a handler returns can be answered truthfully. -/
def Settled (exec : Str → Bool) (o : Outcome) : Prop :=
  (o.ok = true ∧ ∃ cmd, exec cmd = true ∧ o.commands = [cmd] ∧ o.result = "OK".toList) ∨
    (o.ok = false ∧ o.commands.any exec = false ∧ ∀ c ∈ o.result, Json.Plain c)

/-- The texts of the daemon's own errors. -/
def errorTexts : List String :=
  ["missing required arguments: dev, path, cache", "invalid device path: must be /dev/nbdN",
    "invalid file path",
    "invalid cache mode: must be none/unsafe/writeback/directsync/writethrough",
    "qemu-nbd connect failed", "missing required argument: dev", "qemu-nbd disconnect failed",
    "invalid operation", "invalid arguments", "missing operation", "empty request",
    "request too large", "json library not available", "invalid JSON"]

theorem errorTexts_plain : ∀ msg ∈ errorTexts, ∀ c ∈ msg.toList, Json.Plain c := by
  -- as lists of characters the texts are checked without decoding them
  simp only [errorTexts, List.forall_mem_cons]
  repeat rewrite [String.toList_ofList]
  decide +kernel

theorem settled_refuse (exec : Str → Bool) {msg : String} (h : msg ∈ errorTexts) :
    Settled exec (refuse msg) := Or.inr ⟨rfl, rfl, errorTexts_plain msg h⟩

theorem settled_attempt (exec : Str → Bool) (cmd : Str) {failed : String}
    (h : failed ∈ errorTexts) : Settled exec (attempt exec cmd failed) := by
  rw [attempt]
  by_cases hexec : exec cmd = true
  · rw [if_pos hexec]
    exact Or.inl ⟨rfl, cmd, hexec, rfl, rfl⟩
  · rw [if_neg hexec]
    refine Or.inr ⟨rfl, ?_, errorTexts_plain failed h⟩
    rw [List.any_cons, Bool.eq_false_iff.mpr hexec]
    rfl

theorem settled_nbdConnect (exec : Str → Bool) (args : Doc) :
    Settled exec (nbdConnect exec args) := by
  unfold nbdConnect
  dsimp only
  split
  · exact settled_refuse exec (by simp [errorTexts])
  · split
    · exact settled_refuse exec (by simp [errorTexts])
    · split
      · exact settled_refuse exec (by simp [errorTexts])
      · split
        · exact settled_refuse exec (by simp [errorTexts])
        · exact settled_attempt exec _ (by simp [errorTexts])

theorem settled_nbdDisconnect (exec : Str → Bool) (args : Doc) :
    Settled exec (nbdDisconnect exec args) := by
  unfold nbdDisconnect
  dsimp only
  split
  · exact settled_refuse exec (by simp [errorTexts])
  · split
    · exact settled_refuse exec (by simp [errorTexts])
    · exact settled_attempt exec _ (by simp [errorTexts])

theorem settled_handler {exec : Str → Bool} {op : Str} {h : Doc → Outcome}
    (hop : handler exec op = some h) (args : Doc) : Settled exec (h args) := by
  rw [handler] at hop
  split at hop
  · rw [← Option.some.inj hop]
    exact settled_nbdConnect exec args
  · split at hop
    · rw [← Option.some.inj hop]
      exact settled_nbdDisconnect exec args
    · exact absurd hop (by simp)

theorem Settled.truthful {exec : Str → Bool} {o : Outcome} (h : Settled exec o) :
    Truthful exec ⟨o.commands, if o.ok then resultText o.result else errorText o.result⟩ := by
  obtain ⟨hok, cmd, hexec, hcmds, hresult⟩ | ⟨hok, hno, hplain⟩ := h
  · rw [hok, if_pos rfl, hcmds, hresult]
    exact truthful_result hexec
  · rw [hok, if_neg Bool.false_ne_true]
    exact (truthful_error_iff hno _).mpr (harmless_of_plain hplain)

theorem truthful_reject (exec : Str → Bool) {msg : String} (h : msg ∈ errorTexts) :
    Truthful exec (reject msg) :=
  (truthful_error_iff rfl _).mpr (harmless_of_plain (errorTexts_plain msg h))

theorem handler_eq_none_iff {exec : Str → Bool} {op : Str} :
    handler exec op = none ↔ op ∉ ["nbd_connect".toList, "nbd_disconnect".toList] := by
  rw [handler, List.mem_cons, List.mem_singleton, not_or]
  split
  · next h => simp [h]
  · next h =>
    split
    · next h' => simp [h']
    · next h' => exact ⟨fun _ => ⟨h, h'⟩, fun _ => rfl⟩

theorem parseRequest_error {json : Option (Str → Option Doc)} {raw : Str} {err : String}
    (h : parseRequest json raw = .error err) : err ∈ errorTexts := by
  unfold parseRequest at h
  split at h
  · rw [← Except.error.inj h]
    simp [errorTexts]
  · split at h
    · rw [← Except.error.inj h]
      simp [errorTexts]
    · split at h
      · rw [← Except.error.inj h]
        simp [errorTexts]
      · split at h
        · exact absurd h (by simp)
        · rw [← Except.error.inj h]
          simp [errorTexts]

/-- A request for an operation the daemon knows, or that is too long a name, is answered
truthfully; the answer to another one depends on the name. -/
theorem truthful_dispatch_iff (exec : Str → Bool) (request : Doc) (op : Str) :
    Truthful exec (dispatch exec request op) ↔
      (64 < op.length ∨ op ∈ ["nbd_connect".toList, "nbd_disconnect".toList]) ∨
        Harmless (unknownOperation ++ op) := by
  unfold dispatch
  by_cases hlen : 64 < op.length
  · rw [if_pos hlen]
    exact iff_of_true (truthful_reject exec (by simp [errorTexts])) (Or.inl (Or.inl hlen))
  · rw [if_neg hlen]
    cases hhandler : handler exec op with
    | none =>
      have hop := handler_eq_none_iff.mp hhandler
      have hneither : ¬ (64 < op.length ∨ op ∈ ["nbd_connect".toList, "nbd_disconnect".toList]) :=
        not_or.mpr ⟨hlen, hop⟩
      exact (truthful_error_iff rfl _).trans (or_iff_right hneither).symm
    | some h =>
      have hop : op ∈ ["nbd_connect".toList, "nbd_disconnect".toList] := by
        by_contra hop
        rw [handler_eq_none_iff.mpr hop] at hhandler
        exact absurd hhandler (by simp)
      refine iff_of_true ?_ (Or.inl (Or.inr hop))
      dsimp only
      cases argsOf request with
      | none => exact truthful_reject exec (by simp [errorTexts])
      | some args => exact (settled_handler hhandler args).truthful

/-- Every line is answered truthfully, except where it names an operation that the daemon
does not know and whose name is not harmless in the text of the error. -/
theorem replies_truthful_iff (json : Option (Str → Option Doc)) (exec : Str → Bool) (data : Str) :
    Truthful exec (serve json exec data) ↔
      ∀ op, strangeOp json data = some op → Harmless (unknownOperation ++ op) := by
  unfold serve strangeOp
  cases hparse : parseRequest json data with
  | error err =>
    refine iff_of_true (truthful_reject exec (parseRequest_error hparse)) fun op hop => ?_
    exact absurd hop (by simp)
  | ok request =>
    dsimp only
    cases (request.get "op".toList).val with
    | str op =>
      dsimp only
      by_cases hempty : op = []
      · rw [if_pos hempty, if_pos (Or.inl hempty)]
        refine iff_of_true (truthful_reject exec (by simp [errorTexts])) fun op hop => ?_
        exact absurd hop (by simp)
      · rw [if_neg hempty, truthful_dispatch_iff]
        by_cases hknown : 64 < op.length ∨ op ∈ ["nbd_connect".toList, "nbd_disconnect".toList]
        · rw [if_pos (Or.inr hknown)]
          exact iff_of_true (Or.inl hknown) fun op hop => absurd hop (by simp)
        · rw [if_neg (not_or.mpr ⟨hempty, hknown⟩), or_iff_right hknown]
          exact ⟨fun h op' hop => Option.some.inj hop ▸ h, fun h => h op rfl⟩
    | nil | bool _ | num _ | other =>
      refine iff_of_true (truthful_reject exec (by simp [errorTexts])) fun op hop => ?_
      exact absurd hop (by simp)

/-! A request whose operation goes on with a member of its own. -/

def forgingOp : Str := "x\",\"ok\":true,\"y\":\"".toList

def forgingLine : Str := "\x7b\"op\":\"x\\\",\\\"ok\\\":true,\\\"y\\\":\\\"\"\x7d".toList

def forgingDecode (s : Str) : Option Doc :=
  if s = forgingLine then some (.table [("op".toList, .leaf (.str forgingOp))]) else none

def forgedReply : Str :=
  "\x7b\"ok\":false,\"error\":\"unknown operation: x\",\"ok\":true,\"y\":\"\"\x7d".toList

/-- No command has been run, and the client reads that one has succeeded. -/
theorem success_forged :
    (Json.read forgingLine).bind (Json.Value.last? "op".toList) = some (.str forgingOp) ∧
      (serve (some forgingDecode) (fun _ => true) forgingLine).commands = [] ∧
      receive (serve (some forgingDecode) (fun _ => true) forgingLine).sent = some forgedReply ∧
      okOf forgedReply = some (.bool true) ∧
      ¬ Truthful (fun _ => true) (serve (some forgingDecode) (fun _ => true) forgingLine) := by
  have hserve : serve (some forgingDecode) (fun _ => true) forgingLine =
      dispatch (fun _ => true) (.table [("op".toList, .leaf (.str forgingOp))]) forgingOp := rfl
  refine ⟨rfl, by decide +kernel, by decide +kernel, rfl, ?_⟩
  rw [hserve, truthful_dispatch_iff]
  decide +kernel

end Answer
end Control
end MkyBoot
