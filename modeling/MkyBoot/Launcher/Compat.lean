import MkyBoot.Launcher.Effect
import MkyBoot.Server.Compat
import MkyBoot.Server.Frame

/-!
# The launcher at the Go server

The launcher was made for the server in Lua.  Its requests have a cookie and never a token, so
the Go server takes every one of them for a stranger's.  `Site` is a launcher, a server and the
answers on their way between them, while others visit the server.  `stranger_shut_out` says
what comes of it: the server is as if the launcher were not there, the launcher never shows
more than that sign-in is required, and every operation ends with a sign-in that fails, before
its request.

With a token the answer would be read as it was meant, which is `status_read`.
-/

namespace MkyBoot
namespace Launcher

open Server (Str Time foldName Visit World Codec Response rootAnswer)
open Machine

/-! ## Answers as the launcher reads them -/

def RawStatus.zero : RawStatus := ⟨[], [], [], 0, 0, 0, false, false, false, []⟩

def RawStatus.serverFields : List (Json.Field RawStatus) :=
  [.string "ipv4".toList (·.ipv4) ({ · with ipv4 := · }),
    .string "version".toList (·.version) ({ · with version := · }),
    .string "vendor".toList (·.vendor) ({ · with vendor := · })]

def RawStatus.totalField : Json.Field RawStatus :=
  .int "total".toList (.ofInt ·.total) fun r n => { r with total := n.toInt }

def RawStatus.onlineField : Json.Field RawStatus :=
  .int "online".toList (.ofInt ·.online) fun r n => { r with online := n.toInt }

def RawStatus.offlineField : Json.Field RawStatus :=
  .int "offline".toList (.ofInt ·.offline) fun r n => { r with offline := n.toInt }

def RawStatus.clientFields : List (Json.Field RawStatus) := [totalField, onlineField, offlineField]

def RawStatus.serviceFields : List (Json.Field RawStatus) :=
  [.bool "dhcp".toList (·.dhcp) ({ · with dhcp := · }),
    .bool "tftp".toList (·.tftp) ({ · with tftp := · }),
    .bool "iscsi".toList (·.iscsi) ({ · with iscsi := · })]

def RawStatus.group (name : String) (fields : List (Json.Field RawStatus)) : Json.Field RawStatus :=
  .struct foldName name.toList id (fun _ r => r) fields

def RawStatus.fields : List (Json.Field RawStatus) :=
  [group "server" serverFields, group "clients" clientFields, group "services" serviceFields,
    .string "error".toList (·.error) ({ · with error := · })]

/-- `json.Unmarshal` into the zero value -/
def unmarshalStatus (body : Str) : Option RawStatus :=
  Json.unmarshalStruct foldName RawStatus.fields .zero body

def maxResponseBody : ℕ := 2 ^ 20

def receiveStatus (a : ℕ × Str) : StatusReply :=
  if maxResponseBody < a.2.length then .tooLarge else .answered a.1 (unmarshalStatus a.2)

/-- The Go server sets no cookie, so there is none for a session. -/
def receiveLogin (a : ℕ × Str) : LoginReply := .answered (Json.characters (a.2.take 4096)) false

/-! ## The requests -/

/-- The requests that the launcher makes without a session. -/
inductive Ask where
  | status
  | login (password : Str)

def Ask.request {Body : Type} (body : Ask → Body) : Ask → Server.Request Body
  | .status => ⟨.get, ['/'], ['/'], "status".toList, [], body .status⟩
  | .login password => ⟨.post, ['/'], ['/'], [], [], body (.login password)⟩

/-- What the Go server has to say to these. -/
def Ask.answer : Ask → ℕ × Str
  | .status => Server.writeJSON 200 (.obj [("error".toList, .str "Not authenticated".toList)])
  | .login _ => Server.writeError 405 "method not allowed".toList

def signInRequired (now : Time) : CheckResult :=
  ⟨.online, "Reachable (dashboard sign-in required)".toList, true, none, now⟩

theorem names_fields : Json.Names foldName RawStatus.fields := by
  constructor <;> simp [RawStatus.fields, RawStatus.group, Json.Field.struct, Json.Field.string,
    foldName]

theorem unmarshalStatus_error (status : ℕ) (msg : Str) :
    unmarshalStatus (Server.writeError status msg).2 =
      some { RawStatus.zero with error := msg } := by
  have hnum : (Json.Value.obj [("error".toList, .str msg)]).Numeric := ⟨trivial, trivial⟩
  rw [unmarshalStatus, Json.unmarshalStruct, Server.writeError, Server.writeJSON,
    Json.decode_write .compact hnum]
  exact Json.decodeMembers_cons names_fields (f := RawStatus.fields[3]) (List.getElem_mem _) rfl []

theorem answer_status : Ask.status.answer = Server.writeError 200 "Not authenticated".toList := rfl

theorem checkStatusContext_answer (now : Time) :
    checkStatusContext now (receiveStatus Ask.status.answer) = signInRequired now := by
  have hlen : Ask.status.answer.2.length ≤ 31 := by
    rw [answer_status, Server.writeError_eq]
    decide +kernel
  have hsmall : ¬maxResponseBody < Ask.status.answer.2.length := by
    rw [maxResponseBody]
    omega
  rw [receiveStatus, if_neg hsmall, answer_status, unmarshalStatus_error]
  rfl

theorem login_answer (password : Str) :
    login (receiveLogin (Ask.login password).answer) =
      some "unexpected server response".toList := by
  have htext : (Ask.login password).answer.2 =
      "\x7b\"error\":\"method not allowed\"\x7d\n".toList := by
    rw [Ask.answer, Server.writeError_eq]
    decide +kernel
  have hchars : Json.characters ((Ask.login password).answer.2.take 4096) =
      "\x7b\"error\":\"method not allowed\"\x7d\n".toList := by
    rw [htext, List.take_of_length_le (by decide)]
    exact Json.characters_ascii (by decide)
  rw [receiveLogin, hchars]
  decide +kernel

/-! ## A launcher, a server and its visitors -/

structure Site (Text : Type) (sys : Go.Filepath.Sys) where
  world : World Text sys
  /-- What the server has answered to the launcher. -/
  answers : List (Ask × ℕ × Str)
  app : App

inductive Event (Body : Type) where
  /-- A visit of another client. -/
  | visit (v : Visit Body)
  /-- A request of the launcher arrives, at the moment of a visit. -/
  | ask (a : Ask) (v : Visit Body) (order : Go.Order Str Server.Client)
  | launcher (x : Input)

def Event.visit? {Body : Type} : Event Body → Option (Visit Body)
  | .visit v => some v
  | _ => none

section

variable {Body Text : Type} {sys : Go.Filepath.Sys} (codec : Codec Body) (json : Server.Json Text)
  (boot : World Text sys → Visit Body → Response × World Text sys) (cfg : Server.Config)
  (body : Ask → Body) (url : UrlLib)

def Site.step (s : Site Text sys) : Event Body → Site Text sys
  | .visit v => { s with world := Server.serveStep codec json boot s.world v }
  | .ask a v order =>
    let v := { v with toRequest := a.request body }
    { s with world := Server.serveStep codec json boot s.world v
             answers := (a, rootAnswer codec cfg order s.world v) :: s.answers }
  | .launcher x => { s with app := Launcher.step url s.app x }

def Site.start (w : World Text sys) (baseURL : Str) : Site Text sys :=
  ⟨w, [], Launcher.start baseURL⟩

end

/-- A status request fails on its way, or is answered by the server. -/
inductive HeardStatus (answers : List (Ask × ℕ × Str)) : StatusReply → Prop where
  | noRequest : HeardStatus answers .noRequest
  | failed (cancelled : Bool) (e : TransportError) : HeardStatus answers (.failed cancelled e)
  | unreadable : HeardStatus answers .unreadable
  | answered {a : ℕ × Str} (h : (Ask.status, a) ∈ answers) : HeardStatus answers (receiveStatus a)

inductive HeardLogin (answers : List (Ask × ℕ × Str)) : LoginReply → Prop where
  | noRequest : HeardLogin answers .noRequest
  | failed (e : TransportError) : HeardLogin answers (.failed e)
  | unreadable : HeardLogin answers .unreadable
  | answered {password : Str} {a : ℕ × Str} (h : (Ask.login password, a) ∈ answers) :
      HeardLogin answers (receiveLogin a)

/-- What the launcher hears comes from the server, which never gives it a session. -/
def Heard (answers : List (Ask × ℕ × Str)) : Input → Prop
  | .polled reply => ∀ n, HeardStatus answers (reply n).2
  | .control _ (.checked _ reply) => HeardStatus answers reply
  | .control _ (.observed _ reply) => HeardStatus answers reply
  | .control _ (.loggedIn reply) => HeardLogin answers reply
  | .resume session _ => session = false
  | _ => True

def Event.Heard {Body Text : Type} {sys : Go.Filepath.Sys} (s : Site Text sys) : Event Body → Prop
  | .launcher x => Launcher.Heard s.answers x
  | _ => True

/-! ## What the server answers -/

section

variable {Body Text : Type} {sys : Go.Filepath.Sys} {codec : Codec Body} {json : Server.Json Text}
  {boot : World Text sys → Visit Body → Response × World Text sys} {body : Ask → Body}

theorem handleRoot_world (w : World Text sys) (v : Visit Body) :
    (Server.handleRoot codec w v).2 = w := by
  unfold Server.handleRoot Server.handleCompatStatus
  repeat' split
  all_goals rfl

theorem target_root (hcodec : codec.unescape [] = []) {r : Server.Request Body}
    (hmethod : r.method ≠ .connect) (hpath : r.escapedPath = ['/']) :
    Server.target codec r = .route .root := by
  have hclean : Server.cleanPath ['/'] = ['/'] := by decide +kernel
  have hsegments : Server.segments codec ['/'] = [[]] := by
    show [codec.unescape []] = [[]]
    rw [hcodec]
  have hchoose : Server.choose [[]] = .handler .root := by decide +kernel
  unfold Server.target
  rw [if_neg hmethod, hpath, hclean]
  dsimp only
  rw [hsegments, hchoose]
  rfl

theorem Ask.method_ne (a : Ask) : (a.request body).method ≠ .connect := by
  cases a with
  | status | login password => exact Server.Method.noConfusion

theorem Ask.escapedPath (a : Ask) : (a.request body).escapedPath = ['/'] := by
  cases a with
  | status => rfl
  | login password => rfl

/-- Neither request leaves anything at the server. -/
theorem serveStep_ask (hcodec : codec.unescape [] = []) (w : World Text sys) (a : Ask)
    (v : Visit Body) :
    Server.serveStep codec json boot w { v with toRequest := a.request body } = w := by
  have htarget : Server.target codec (a.request body) = .route .root :=
    target_root hcodec a.method_ne a.escapedPath
  unfold Server.serveStep Server.serve
  dsimp only
  rw [htarget]
  exact handleRoot_world w _

theorem rootAnswer_ask (cfg : Server.Config) (order : Go.Order Str Server.Client)
    (w : World Text sys) (a : Ask) (v : Visit Body) :
    rootAnswer codec cfg order w { v with toRequest := a.request body } = a.answer := by
  cases a with
  | login password => rfl
  | status => rfl

end

/-! ## What the launcher makes of it -/

/-- What the launcher shows of the server: that sign-in is required, or no more than its own
states and the failures of a request. -/
def Reported (res : CheckResult) : Prop :=
  res = signInRequired res.checkedAt ∨
    res.state ∈ [ServerState.connecting, .starting, .stopping, .offline, .timeout, .serverError]

theorem reported_of_state {res : CheckResult} (state : ServerState) (h : res.state = state)
    (hmem : state ∈ [ServerState.connecting, .starting, .stopping, .offline, .timeout,
      .serverError]) : Reported res := Or.inr (h ▸ hmem)

def signInFailed : Str := "Sign-in failed".toList

/-- An operation that has not got past its sign-in. -/
def Phase.Barred : Phase → Prop
  | .login _ => True
  | .clearing n _ => n.title = signInFailed
  | .posting n _ => n.title = signInFailed
  | .done => True
  | _ => False

structure App.Barred (s : App) : Prop where
  controls : ∀ c ∈ s.controls, c.phase.Barred
  notices : ∀ n ∈ s.noticeCh, n.title = signInFailed

section

variable {answers : List (Ask × ℕ × Str)} (hanswers : ∀ e ∈ answers, e.2 = e.1.answer)

include hanswers

theorem reported_check (now : Time) {reply : StatusReply} (h : HeardStatus answers reply) :
    Reported (checkStatusContext now reply) := by
  cases h with
  | noRequest => exact reported_of_state .offline rfl (by decide)
  | unreadable => exact reported_of_state .serverError rfl (by decide)
  | failed cancelled e =>
    cases cancelled with
    | true => exact reported_of_state .offline rfl (by decide)
    | false =>
      rcases classifyTransportError_state e with hstate | hstate
      · exact reported_of_state .offline hstate (by decide)
      · exact reported_of_state .timeout hstate (by decide)
  | answered ha =>
    have heq := hanswers _ ha
    dsimp only at heq
    rw [heq, checkStatusContext_answer]
    exact Or.inl rfl

theorem reported_retry {reply : ℕ → Time × StatusReply}
    (h : ∀ n, HeardStatus answers (reply n).2) : Reported (checkStatusRetry reply) := by
  have hfrom (left attempt : ℕ) : Reported (retryFrom reply attempt left) := by
    induction left generalizing attempt with
    | zero => exact reported_check hanswers _ (h attempt)
    | succ left ih =>
      rw [retryFrom]
      split
      · exact reported_check hanswers _ (h attempt)
      · exact ih (attempt + 1)
  exact hfrom statusRetryAttempts 0

theorem login_heard {reply : LoginReply} (h : HeardLogin answers reply) :
    ∃ err, login reply = some err := by
  cases h with
  | noRequest | failed e | unreadable => exact ⟨_, rfl⟩
  | @answered password a ha =>
    have heq : a = (Ask.login password).answer := hanswers _ ha
    rw [heq, login_answer]
    exact ⟨_, rfl⟩

theorem barred_afterLogin {reply : LoginReply} (h : HeardLogin answers reply) :
    (afterLogin reply).Barred := by
  obtain ⟨err, herr⟩ := login_heard hanswers h
  rw [afterLogin, herr]
  rfl

end

theorem reported_after {b : Board} (h : Reported b.result) {e : Effect}
    (he : ∀ baseURL res source, e = .store baseURL res source → Reported res) :
    Reported (b.after e).result := by
  cases e with
  | none => exact h
  | store baseURL res source =>
    show Reported (b.applyResult baseURL res source).result
    rw [applyResult_result]
    split
    · exact he baseURL res source rfl
    · exact h
  | adopt baseURL => exact reported_of_state .connecting rfl (by decide)
  | launch op srv password => exact h
  | finish i => exact h

/-! ### Operations and notices -/

section

variable {url : UrlLib} {s t : App} {answers : List (Ask × ℕ × Str)}

theorem App.Barred.congr (h : s.Barred) (hcontrols : t.controls = s.controls)
    (hnotices : ∀ n ∈ t.noticeCh, n ∈ s.noticeCh) : t.Barred where
  controls := hcontrols ▸ h.controls
  notices := fun n hn => h.notices n (hnotices n hn)

theorem App.Barred.setPhase (h : s.Barred) (i : ℕ) (c : Control) {phase : Phase}
    (hphase : phase.Barred) : (s.setPhase i c phase).Barred where
  controls := by
    intro c' hc'
    rcases List.mem_or_eq_of_mem_set hc' with hold | rfl
    · exact h.controls c' hold
    · exact hphase
  notices := h.notices

theorem App.Barred.postNotice (h : s.Barred) {n : Notice} (hn : n.title = signInFailed) :
    (s.postNotice n).Barred := by
  unfold App.postNotice
  split
  · refine ⟨h.controls, fun n' hn' => ?_⟩
    rcases List.mem_append.mp hn' with hold | hnew
    · exact h.notices n' hold
    · rw [List.mem_singleton.mp hnew]
      exact hn
  · exact h

/-- The goroutine of an operation that has not signed in can only fail to. -/
theorem App.Barred.advance (hanswers : ∀ e ∈ answers, e.2 = e.1.answer) (h : s.Barred) (i : ℕ)
    {c : Control} (hc : c.phase.Barred) {e : ControlEvent} (he : Heard answers (.control i e)) :
    (s.advance url i c c.phase e).Barred := by
  cases hphase : c.phase with
  | login password =>
    cases e <;> try exact h
    exact h.setPhase i c (barred_afterLogin hanswers he)
  | request | verifying err | verified ok err => exact absurd hc (by rw [hphase]; exact id)
  | clearing n recheck =>
    rw [hphase] at hc
    cases e <;> try exact h
    have hclear : (s.setBusy false).Barred := h.congr rfl fun _ hn => hn
    exact hclear.setPhase i c hc
  | posting n recheck =>
    rw [hphase] at hc
    cases e <;> try exact h
    have hcheck : (if recheck then s.requestCheck else s).Barred := by
      split
      · exact h.congr rfl fun _ hn => hn
      · exact h
    exact (hcheck.postNotice hc).setPhase i c trivial
  | done => cases e <;> exact h

theorem runDialog_noticeCh (opens : Bool) (flow : Flow) (title text : Str) :
    (s.runDialog opens flow title text).noticeCh = s.noticeCh := by
  unfold App.runDialog
  repeat' split
  all_goals rfl

/-- A message takes notices away at most. -/
theorem mem_handle {m : Message} {n : Notice} (h : n ∈ (s.handle url m).noticeCh) :
    n ∈ s.noticeCh := by
  cases m with
  | command op now opens =>
    change n ∈ (s.controlFlow op now opens).noticeCh at h
    unfold App.controlFlow App.showNotice at h
    repeat' split at h
    · exact h
    · rwa [runDialog_noticeCh] at h
    · rwa [runDialog_noticeCh] at h
  | status now => exact h
  | dashboard ret opens =>
    change n ∈ (s.openDashboard url ret opens).noticeCh at h
    unfold App.openDashboard App.showNotice at h
    repeat' split at h
    · rwa [runDialog_noticeCh] at h
    · rwa [runDialog_noticeCh] at h
    · exact h
  | edited text saved =>
    change n ∈ (s.onAddressEdited url text saved).noticeCh at h
    unfold App.onAddressEdited App.adoptServerURL at h
    repeat' split at h
    all_goals exact h
  | focusLost text saved =>
    change n ∈ (s.onAddressFocusLost url text saved).noticeCh at h
    unfold App.onAddressFocusLost App.adoptServerURL at h
    repeat' split at h
    all_goals exact h
  | notice opens =>
    change n ∈ (s.takeNotice opens).noticeCh at h
    unfold App.takeNotice App.showNotice at h
    split at h
    · rwa [runDialog_noticeCh] at h
    · next n' ns hns =>
      rw [runDialog_noticeCh] at h
      rw [hns]
      exact List.mem_cons_of_mem n' h
  | foreground => exact h
  | click depth button typed =>
    change n ∈ (s.click depth button typed).noticeCh at h
    unfold App.click at h
    split at h <;> exact h
  | close depth => exact h
  | exit => exact h

/-- Without a session an operation begins with its sign-in. -/
theorem App.Barred.proceed (h : s.Barred) (d : Dialog) (opens : Bool) :
    (s.proceed d false opens).Barred := by
  unfold App.proceed App.promptPassword
  cases d.flow with
  | notice => exact h
  | confirm op =>
    dsimp only
    split
    · refine h.congr (controls_of_work (runDialog_work s opens _ _ _)) fun n hn => ?_
      rwa [← runDialog_noticeCh opens]
    · exact h
  | signIn op srv =>
    dsimp only
    split
    · next hok =>
      refine ⟨fun c hc => ?_, h.notices⟩
      rcases List.mem_append.mp hc with hold | hnew
      · exact h.controls c hold
      · rw [List.mem_singleton.mp hnew, if_neg hok.2]
        trivial
    · exact h

theorem App.Barred.step (hanswers : ∀ e ∈ answers, e.2 = e.1.answer) (h : s.Barred) {x : Input}
    (hx : Heard answers x) : (Launcher.step url s x).Barred := by
  cases x with
  | poll tick =>
    show (s.startPoll tick).Barred
    unfold App.startPoll
    split
    · exact h
    · exact h.congr rfl fun _ hn => hn
  | polled reply =>
    show (s.endPoll reply).Barred
    unfold App.endPoll
    repeat' split
    · exact h
    · exact h.congr rfl fun _ hn => hn
    · exact h.congr rfl fun _ hn => hn
  | control i e =>
    show (s.turn url i e).Barred
    unfold App.turn
    cases ho : s.controls[i]? with
    | none => exact h
    | some o => exact h.advance hanswers i (h.controls o (List.mem_of_getElem? ho)) hx
  | message m =>
    unfold Launcher.step
    dsimp only
    split
    · exact h.congr (controls_of_work (handled_handle url s m).work) fun n hn => mem_handle hn
    · exact h
  | resume session opens =>
    obtain rfl : session = false := hx
    show (s.resume false opens).Barred
    unfold App.resume
    cases s.dialogs with
    | nil => exact h
    | cons d ds =>
      have hreturned : App.Barred { s with dialogs := ds, activeDlg := false } :=
        h.congr rfl fun _ hn => hn
      dsimp only
      split
      · exact h
      · exact hreturned.proceed d opens
  | shutDown =>
    show s.shutDown.Barred
    unfold App.shutDown
    split
    · exact h.congr rfl fun _ hn => hn
    · exact h

theorem reported_step (hanswers : ∀ e ∈ answers, e.2 = e.1.answer) (h : Reported s.result)
    {x : Input} (hx : Heard answers x) : Reported (Launcher.step url s x).result := by
  show Reported (Launcher.step url s x).toBoard.result
  rw [step_toBoard]
  refine reported_after h fun baseURL res source hstore => ?_
  cases stores_of_effect hstore with
  | command op now opens hready hadmits =>
    cases op with
    | restart => exact reported_of_state .starting rfl (by decide)
    | stop => exact reported_of_state .stopping rfl (by decide)
  | status now hready => exact reported_of_state .connecting rfl (by decide)
  | polled reply hpolling hstopped => exact reported_retry hanswers hx
  | checked now reply hc hphase hstopped => exact reported_check hanswers now hx

end

/-! ## All runs -/

section

variable {Body Text : Type} {sys : Go.Filepath.Sys} (codec : Codec Body) (json : Server.Json Text)
  (boot : World Text sys → Visit Body → Response × World Text sys) (cfg : Server.Config)
  (body : Ask → Body) (url : UrlLib)

/-- After visits of others the server is where they have taken it, and the launcher has got
nothing from it. -/
structure Apart (w : World Text sys) (s : Site Text sys) (visits : List (Visit Body)) : Prop where
  world : s.world = run (Server.serveStep codec json boot) w visits
  answers : ∀ e ∈ s.answers, e.2 = e.1.answer
  result : Reported s.app.result
  barred : s.app.Barred

variable {codec json boot}

theorem Apart.step (hcodec : codec.unescape [] = []) {w : World Text sys} {s : Site Text sys}
    {visits : List (Visit Body)} (h : Apart codec json boot w s visits) {e : Event Body}
    (he : e.Heard s) :
    Apart codec json boot w (s.step codec json boot cfg body url e)
      (visits ++ e.visit?.toList) := by
  cases e with
  | visit v =>
    refine ⟨?_, h.answers, h.result, h.barred⟩
    show Server.serveStep codec json boot s.world v = Machine.run _ w (visits ++ [v])
    rw [h.world, run_append]
    rfl
  | ask a v order =>
    refine ⟨?_, ?_, h.result, h.barred⟩
    · show Server.serveStep codec json boot s.world { v with toRequest := a.request body } = _
      rw [serveStep_ask hcodec, h.world]
      exact congrArg _ (List.append_nil visits).symm
    · intro e he
      rcases List.mem_cons.mp he with rfl | hold
      · exact rootAnswer_ask cfg order s.world a v
      · exact h.answers e hold
  | launcher x =>
    refine ⟨?_, h.answers, reported_step h.answers h.result he, h.barred.step h.answers he⟩
    rw [show visits ++ (Event.launcher x : Event Body).visit?.toList = visits from
      List.append_nil visits]
    exact h.world

theorem Apart.run (hcodec : codec.unescape [] = []) {w : World Text sys} {s : Site Text sys}
    {visits : List (Visit Body)} (h : Apart codec json boot w s visits) {es : List (Event Body)}
    (hes : Along (Site.step codec json boot cfg body url) (fun s e => e.Heard s) s es) :
    Apart codec json boot w (Machine.run (Site.step codec json boot cfg body url) s es)
      (visits ++ es.filterMap Event.visit?) := by
  induction es generalizing s visits with
  | nil =>
    rw [List.filterMap_nil, List.append_nil]
    exact h
  | cons e es ih =>
    have hrest := ih (h.step cfg body url hcodec hes.1) hes.2
    rw [List.append_assoc] at hrest
    have hvisits : e.visit?.toList ++ es.filterMap Event.visit? =
        (e :: es).filterMap Event.visit? := by
      cases hv : e.visit? with
      | none => rw [List.filterMap_cons_none hv]; rfl
      | some v => rw [List.filterMap_cons_some hv]; rfl
    rw [hvisits] at hrest
    exact hrest

end

/-- Whatever a launcher does at a Go server while others visit it, the others find the server
as if the launcher were not there.  The launcher shows that sign-in is required, a state of
its own or a failed request; no operation gets past its sign-in, and the only notices that
operations leave are of failed ones. -/
theorem stranger_shut_out {Body Text : Type} {sys : Go.Filepath.Sys} {codec : Codec Body}
    (hcodec : codec.unescape [] = []) (json : Server.Json Text)
    (boot : World Text sys → Visit Body → Response × World Text sys) (cfg : Server.Config)
    (body : Ask → Body) (url : UrlLib) (w : World Text sys) (baseURL : Str)
    {es : List (Event Body)}
    (hes : Along (Site.step codec json boot cfg body url) (fun s e => e.Heard s)
      (Site.start w baseURL) es) :
    let s := run (Site.step codec json boot cfg body url) (Site.start w baseURL) es
    s.world = run (Server.serveStep codec json boot) w (es.filterMap Event.visit?) ∧
      Reported s.app.result ∧ (∀ c ∈ s.app.controls, c.phase.Barred) ∧
      ∀ n ∈ s.app.noticeCh, n.title = signInFailed := by
  intro s
  have hstart : Apart codec json boot w (Site.start w baseURL) ([] : List (Visit Body)) :=
    { world := rfl
      answers := fun _ he => absurd he List.not_mem_nil
      result := reported_of_state .connecting rfl (by decide)
      barred := ⟨fun _ hc => absurd hc List.not_mem_nil, fun _ hn => absurd hn List.not_mem_nil⟩ }
  have h : Apart codec json boot w s (es.filterMap Event.visit?) :=
    hstart.run cfg body url hcodec hes
  exact ⟨h.world, h.result, h.barred.controls, h.barred.notices⟩

/-! The poll finds the server, a client sends its heartbeat, and the user tries to restart the
server with a password. -/

def restartTry : List (Event Str) :=
  [.ask .status (Server.post "/" []) (.sorted Str Server.Client),
    .launcher (.poll true),
    .launcher (.polled fun _ => (5, receiveStatus Ask.status.answer)),
    .visit (Server.post "/api/clients/heartbeat" (Server.token 'a').text),
    .launcher (.message (.command .restart 6 true)),
    .launcher (.message (.click 0 .yes [])),
    .launcher (.resume false true),
    .launcher (.message (.click 0 .ok "secret".toList)),
    .launcher (.resume false true),
    .ask (.login "secret".toList) (Server.post "/" []) (.sorted Str Server.Client),
    .launcher (.control 0 (.loggedIn (receiveLogin (Ask.login "secret".toList).answer)))]

theorem restart_try_shut_out :
    let step := Site.step Server.textCodec Server.plainJson Server.noBoot Server.defaultConfig
      (fun _ => []) .plain
    let start := Site.start Server.labServer "http://127.0.0.1:8888".toList
    Along step (fun s e => e.Heard s) start restartTry ∧
      ∀ c ∈ (run step start restartTry).app.controls, c.phase.Barred := by
  intro step start
  have hes : Along step (fun s e => e.Heard s) start restartTry :=
    ⟨trivial, trivial, fun _ => .answered (List.mem_cons_self), trivial, trivial, trivial, rfl,
      trivial, rfl, trivial, .answered (List.mem_cons_self), trivial⟩
  exact ⟨hes, (stranger_shut_out rfl _ _ _ _ _ _ _ hes).2.2.1⟩

/-! ## With a token -/

theorem names_serverFields : Json.Names foldName RawStatus.serverFields := by
  constructor <;> simp [RawStatus.serverFields, Json.Field.string, foldName]

theorem names_clientFields : Json.Names foldName RawStatus.clientFields := by
  constructor <;> simp [RawStatus.clientFields, RawStatus.totalField, RawStatus.onlineField,
    RawStatus.offlineField, Json.Field.int, foldName]

theorem names_serviceFields : Json.Names foldName RawStatus.serviceFields := by
  constructor <;> simp [RawStatus.serviceFields, Json.Field.bool, foldName]

section

variable {cfg : Server.Config} {views : List Server.ClientView}

theorem numeric_statusValue : (Server.statusValue cfg views).Numeric := by
  refine ⟨⟨?_, ?_, ?_, trivial⟩, ⟨trivial, trivial, trivial, trivial⟩,
    ⟨trivial, trivial, trivial, trivial⟩, trivial⟩
  · exact Json.isNumber_intText _
  · exact Json.isNumber_intText _
  · exact Json.isNumber_intText _

theorem decode_clients (r : RawStatus) (total online offline : ℤ)
    (ht : 0 ≤ total ∧ total < 2 ^ 63) (hn : 0 ≤ online ∧ online < 2 ^ 63)
    (hf : 0 ≤ offline ∧ offline < 2 ^ 63) :
    Json.decodeMembers foldName RawStatus.clientFields r
        [("offline".toList, .num (Json.intText offline)),
          ("online".toList, .num (Json.intText online)),
          ("total".toList, .num (Json.intText total))] =
      some { r with total := total, online := online, offline := offline } := by
  have hint {n : ℤ} (h : 0 ≤ n ∧ n < 2 ^ 63) : (Int64.ofInt n).toInt = n :=
    Int64.toInt_ofInt_of_le (by omega) (by omega)
  have hoffline (r : RawStatus) : RawStatus.offlineField.decode r (.num (Json.intText offline)) =
      some { r with offline := offline } := by
    rw [RawStatus.offlineField, Json.decode_int _ _ _ r (by omega) hf.2, hint hf]
  have honline (r : RawStatus) : RawStatus.onlineField.decode r (.num (Json.intText online)) =
      some { r with online := online } := by
    rw [RawStatus.onlineField, Json.decode_int _ _ _ r (by omega) hn.2, hint hn]
  have htotal (r : RawStatus) : RawStatus.totalField.decode r (.num (Json.intText total)) =
      some { r with total := total } := by
    rw [RawStatus.totalField, Json.decode_int _ _ _ r (by omega) ht.2, hint ht]
  exact (Json.decodeMembers_cons names_clientFields (by simp [RawStatus.clientFields])
      (hoffline r) _).trans <|
    (Json.decodeMembers_cons names_clientFields (by simp [RawStatus.clientFields])
      (honline _) _).trans <|
    Json.decodeMembers_cons names_clientFields (by simp [RawStatus.clientFields]) (htotal _) []

theorem decode_server (r : RawStatus) (ipv4 vendor version : Str) :
    Json.decodeMembers foldName RawStatus.serverFields r
        [("ipv4".toList, .str ipv4), ("vendor".toList, .str vendor),
          ("version".toList, .str version)] =
      some { r with ipv4 := ipv4, vendor := vendor, version := version } :=
  (Json.decodeMembers_cons names_serverFields (f := RawStatus.serverFields[0])
      (List.getElem_mem _) rfl _).trans <|
    (Json.decodeMembers_cons names_serverFields (f := RawStatus.serverFields[2])
      (List.getElem_mem _) rfl _).trans <|
    Json.decodeMembers_cons names_serverFields (f := RawStatus.serverFields[1])
      (List.getElem_mem _) rfl []

theorem decode_services (r : RawStatus) (dhcp iscsi tftp : Bool) :
    Json.decodeMembers foldName RawStatus.serviceFields r
        [("dhcp".toList, .bool dhcp), ("iscsi".toList, .bool iscsi), ("tftp".toList, .bool tftp)] =
      some { r with dhcp := dhcp, iscsi := iscsi, tftp := tftp } :=
  (Json.decodeMembers_cons names_serviceFields (f := RawStatus.serviceFields[0])
      (List.getElem_mem _) rfl _).trans <|
    (Json.decodeMembers_cons names_serviceFields (f := RawStatus.serviceFields[2])
      (List.getElem_mem _) rfl _).trans <|
    Json.decodeMembers_cons names_serviceFields (f := RawStatus.serviceFields[1])
      (List.getElem_mem _) rfl []

/-- The status as it was meant. -/
def statusOf (cfg : Server.Config) (views : List Server.ClientView) : RawStatus where
  ipv4 := cfg.bindAddress
  version := Server.serverVersion
  vendor := "MKYBOOT".toList
  total := views.length
  online := views.countP (·.online)
  offline := (views.length : ℤ) - views.countP (·.online)
  dhcp := false
  tftp := false
  iscsi := false
  error := []

theorem unmarshalStatus_statusValue (hlen : views.length < 2 ^ 63) :
    unmarshalStatus (Server.writeJSON 200 (Server.statusValue cfg views)).2 =
      some (statusOf cfg views) := by
  have hcount : views.countP (·.online) ≤ views.length := List.countP_le_length
  have hclients (r : RawStatus) := decode_clients r views.length (views.countP (·.online))
    ((views.length : ℤ) - views.countP (·.online)) (by omega) (by omega) (by omega)
  rw [unmarshalStatus, Json.unmarshalStruct, Server.writeJSON,
    Json.decode_write .compact numeric_statusValue]
  exact (Json.decodeMembers_cons names_fields
    (f := RawStatus.group "clients" RawStatus.clientFields)
      (by simp [RawStatus.fields]) (Json.decode_struct _ _ (hclients RawStatus.zero)) _).trans <|
    (Json.decodeMembers_cons names_fields (f := RawStatus.group "server" RawStatus.serverFields)
      (by simp [RawStatus.fields]) (Json.decode_struct _ _ (decode_server _ _ _ _)) _).trans <|
    Json.decodeMembers_cons names_fields (f := RawStatus.group "services" RawStatus.serviceFields)
      (by simp [RawStatus.fields]) (Json.decode_struct _ _ (decode_services _ _ _ _)) []

theorem bound_obj (k₁ k₂ k₃ : Str) (v₁ v₂ v₃ : Json.Value) :
    (Json.Value.obj [(k₁, v₁), (k₂, v₂), (k₃, v₃)]).bound =
      6 * (k₁.length + k₂.length + k₃.length) + (v₁.bound + v₂.bound + v₃.bound) + 14 := by
  rw [Json.Value.bound, Json.boundMembers, Json.boundMembers, Json.boundMembers, Json.boundMembers]
  omega

theorem length_statusValue (haddress : cfg.bindAddress.length ≤ 253)
    (hlen : views.length < 2 ^ 63) :
    (Server.writeJSON 200 (Server.statusValue cfg views)).2.length ≤ maxResponseBody := by
  have hcount : views.countP (·.online) ≤ views.length := List.countP_le_length
  have htotal := Json.length_intText_le (n := (views.length : ℤ)) (by omega) (by omega)
  have honline := Json.length_intText_le (n := (views.countP (·.online) : ℤ)) (by omega) (by omega)
  have hoffline := Json.length_intText_le (n := (views.length : ℤ) - views.countP (·.online))
    (by omega) (by omega)
  have hbound := Json.length_write_le (Server.statusValue cfg views) 0
  rw [Server.statusValue, bound_obj, bound_obj, bound_obj, bound_obj] at hbound
  simp only [Json.Value.bound] at hbound
  have hkeys : "clients".toList.length + "server".toList.length + "services".toList.length +
      ("offline".toList.length + "online".toList.length + "total".toList.length) +
      ("ipv4".toList.length + "vendor".toList.length + "version".toList.length) +
      ("dhcp".toList.length + "iscsi".toList.length + "tftp".toList.length) +
      ("MKYBOOT".toList.length + Server.serverVersion.length) ≤ 100 := by decide
  rw [Server.writeJSON, Server.statusValue, List.length_append, List.length_singleton,
    maxResponseBody]
  omega

end

/-- The clients that have been heard from within the limit. -/
def onlineCount (s : Server.State) (now : Time) : ℕ :=
  s.clients.toList.countP fun e => Server.onlineLocked e.2 now

/-- The launcher would read the status that the server gives to the administrator as it was
meant, with all clients counted and the services that the server does not have. -/
theorem status_read {Body Text : Type} {sys : Go.Filepath.Sys} (codec : Codec Body)
    {cfg : Server.Config} {host : Server.Host} (hcfg : cfg.Accepted host)
    (order : Go.Order Str Server.Client) (w : World Text sys) {v : Visit Body}
    (hmethod : v.method = .get) (hpath : v.path = ['/']) (hapi : v.api = "status".toList)
    (hadmin : Server.requireAdmin codec w v.toRequest = true)
    (hlen : w.process.memory.clients.size < 2 ^ 63) (now : Time) :
    let total := w.process.memory.clients.size
    let online := onlineCount w.process.memory v.now
    let down := ["DHCP".toList, "TFTP".toList, "iSCSI".toList]
    checkStatusContext now (receiveStatus (rootAnswer codec cfg order w v)) =
      { state := .degraded
        detail := "MKYBOOT ".toList ++ Server.serverVersion ++ " at ".toList ++ cfg.bindAddress ++
          " - not running: ".toList ++ List.intercalate ", ".toList down
        authRequired := false
        status := some ⟨cfg.bindAddress, Server.serverVersion, "MKYBOOT".toList, total, online,
          (total : ℤ) - online, false, down⟩
        checkedAt := now } := by
  intro total online down
  have hperm := Server.list_perm (s := w.process.memory) order v.now
  have htotal : (Server.list order w.process.memory v.now).length = total := by
    rw [hperm.length_eq, List.length_map, Std.ExtTreeMap.length_toList]
  have honline : (Server.list order w.process.memory v.now).countP (·.online) = online := by
    rw [hperm.countP_eq, List.countP_map]
    rfl
  have haddress : cfg.bindAddress.length ≤ 253 :=
    Nat.le_trans (length_le_byteLength cfg.bindAddress) hcfg.length
  have hanswer : rootAnswer codec cfg order w v =
      Server.writeJSON 200 (Server.statusValue cfg (Server.list order w.process.memory v.now)) := by
    rw [rootAnswer, if_neg (not_not.mpr hpath), if_pos hapi, Server.compatAnswer,
      if_neg (not_not.mpr hmethod), hadmin]
    rfl
  have hviews : (Server.list order w.process.memory v.now).length < 2 ^ 63 :=
    htotal.trans_lt hlen
  have hsmall := length_statusValue haddress hviews
  rw [hanswer, receiveStatus, if_neg (Nat.not_lt.mpr hsmall), unmarshalStatus_statusValue hviews]
  show classifyPayload now (statusOf cfg _) = _
  have hdash : orDash cfg.bindAddress = cfg.bindAddress := if_neg hcfg.nonempty
  have hmarker : ¬(cfg.bindAddress = [] ∧ Server.serverVersion = [] ∧ (total : ℤ) = 0) :=
    fun h => hcfg.nonempty h.1
  unfold classifyPayload statusOf
  dsimp only
  rw [htotal, honline, if_neg (not_not.mpr rfl), if_neg hmarker, hdash]
  rfl

/-! The status of a server with one client. -/

def adminVisit : Visit Str :=
  { Server.post "/" [] with
    method := .get, api := "status".toList, authorization := "Bearer a3f0".toList }

theorem lab_status_read : ∃ status,
    (checkStatusContext 0 (receiveStatus (rootAnswer Server.textCodec Server.defaultConfig
      (.sorted Str Server.Client) Server.labServer adminVisit))).status = some status ∧
      status.clientsTotal = 1 := by
  have hcfg := Server.accepted_defaultConfig
    ⟨fun _ => true, fun _ => false, id, [], fun _ => [], rfl⟩
  have hread := status_read Server.textCodec hcfg (.sorted Str Server.Client)
    Server.labServer (v := adminVisit) rfl rfl rfl (by decide +kernel) (by decide +kernel) 0
  rw [hread]
  exact ⟨_, rfl, by decide +kernel⟩

end Launcher
end MkyBoot
