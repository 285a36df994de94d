import MkyBoot.Launcher.Server
import MkyBoot.Machine.Run

/-!
# The launcher as a machine

Three kinds of threads share the fields that `App.mu` guards: the UI thread, the
goroutine that polls the server, and one goroutine for each control operation.  The UI
thread handles one message after the other, but a handler that opens a dialog handles
further messages until the dialog's window is gone, so dialogs form a stack.  Every step
below is what one thread does between two points at which another thread can come in,
or another message can be handled.  Windows may deliver any message at any time.
-/

namespace MkyBoot
namespace Launcher

open Server (Str Time)

/-! ## The shared fields -/

/-- `MKYBootServer`.  Two clients of one address differ in their ids, as pointers do. -/
structure Client where
  id : ℕ
  baseURL : Str
  deriving DecidableEq

/-- Where a result comes from. -/
inductive Origin where
  | launcher
  | poll (srv : Client)
  | verify (srv : Client) (op : ControlOp)
  deriving DecidableEq

/-- The fields that are read and written under the mutex.  The source does not record
where a result comes from, nor how many clients were made. -/
structure Board where
  server : Client
  result : CheckResult
  lastGood : Time
  busy : Bool
  resultFrom : Origin
  lastGoodFrom : Origin
  made : ℕ

/-- `applyResult` -/
def Board.applyResult (b : Board) (baseURL : Str) (res : CheckResult) (source : Origin) : Board :=
  if b.server.baseURL ≠ baseURL then b
  else if res.state = .online then
    { b with result := res, resultFrom := source,
             lastGood := res.checkedAt, lastGoodFrom := source }
  else { b with result := res, resultFrom := source }

/-- The part of `adoptServerURL` under the mutex. -/
def Board.adopt (b : Board) (baseURL : Str) : Board :=
  { b with server := ⟨b.made, baseURL⟩, made := b.made + 1,
           result := .plain .connecting "Connecting to new address...".toList Time.zero,
           lastGood := Time.zero, resultFrom := .launcher, lastGoodFrom := .launcher }

def Board.setBusy (b : Board) (v : Bool) : Board := { b with busy := v }

/-! ## Dialogs -/

inductive Button where
  | ok
  | cancel
  | yes
  | no
  deriving DecidableEq

inductive DialogKind where
  | ok
  | yesNo
  | password

/-- The code that waits for a dialog. -/
inductive Flow where
  | notice
  | confirm (op : ControlOp)
  | signIn (op : ControlOp) (srv : Client)
  deriving DecidableEq

def Flow.kind : Flow → DialogKind
  | .notice => .ok
  | .confirm _ => .yesNo
  | .signIn _ _ => .password

/-- `dialogCtx`, and whether its window still exists. -/
structure Dialog where
  flow : Flow
  title : Str
  text : Str
  result : Option Button
  password : Str
  shown : Bool

/-- `dialogWndProc` for a button, on the active dialog. -/
def Dialog.press (d : Dialog) (button : Button) (typed : Str) : Dialog :=
  match button, d.flow.kind with
  | .ok, .password => { d with password := typed, result := some .ok }
  | .ok, .yesNo => { d with result := some .yes }
  | button, _ => { d with result := some button }

/-- `dialogWndProc` for the close message, on the active dialog. -/
def Dialog.dismiss (d : Dialog) : Dialog :=
  match d.result with
  | none => { d with result := some .cancel }
  | some _ => d

/-! ## Control operations -/

structure Notice where
  title : Str
  text : Str
  deriving DecidableEq

/-- Where the goroutine of a control operation is. -/
inductive Phase where
  | login (password : Str)
  | request
  /-- `err` is the error of the request, if it had one. -/
  | verifying (err : Option Str)
  | verified (ok : Bool) (err : Option Str)
  /-- Before `setBusy(false)`; `recheck` says whether a check is requested afterwards. -/
  | clearing (notice : Notice) (recheck : Bool)
  | posting (notice : Notice) (recheck : Bool)
  | done

/-- The outcome of the operation is not decided. -/
def Phase.running : Phase → Bool
  | .posting _ _ | .done => false
  | _ => true

structure Control where
  op : ControlOp
  srv : Client
  phase : Phase

inductive ControlEvent where
  | loggedIn (reply : LoginReply)
  | answered (reply : ControlReply)
  /-- A check of `verifyControl` has come back. -/
  | checked (now : Time) (reply : StatusReply)
  /-- The time of the verification is over, or the launcher stops. -/
  | gaveUp
  /-- `lastObserved`, in the branch that calls it. -/
  | observed (now : Time) (reply : StatusReply)
  | clear
  | post

/-- The state that `verifyControl` waits for. -/
def confirms : ControlOp → ServerState → Bool
  | .restart, .online | .restart, .degraded => true
  | .stop, .offline | .stop, .timeout => true
  | _, _ => false

def opEffect : ControlOp → Str
  | .restart => "the server is online".toList
  | .stop => "the server is offline".toList

/-- The notice at the end of an operation.  A request whose error is a missing session ends
earlier, so every error that comes here counts as an interruption and the last case of
the source is never taken. -/
def outcome (op : ControlOp) (err : Option Str) (verified : Bool) (observed : ServerState) :
    Notice :=
  match err, verified, op with
  | none, true, .restart =>
    ⟨"Restart complete".toList,
      "The restart request completed and the server responds online again.".toList⟩
  | none, true, .stop =>
    ⟨"Stop complete".toList,
      "The stop request completed and the server is now offline.".toList⟩
  | none, false, _ =>
    ⟨"Operation sent".toList,
      "The server accepted the request, but the resulting state could not be confirmed ".toList ++
        "within the verification window.".toList⟩
  | some _, true, op =>
    ⟨"Operation completed".toList,
      "The connection closed during the request (typical while the web service ".toList ++
        "restarts). Observed result: ".toList ++
        opEffect op ++ ".".toList⟩
  | some _, false, _ =>
    ⟨"Operation not confirmed".toList,
      "The connection closed during the request and the server state could not be ".toList ++
        "confirmed. Last observed state: ".toList ++
        observed.label ++ ".".toList⟩

/-! ## The whole state -/

structure App extends Board where
  notice : Str
  /-- The main window exists. -/
  hwnd : Bool
  /-- The innermost dialog comes first. -/
  dialogs : List Dialog
  /-- `activeDlg` is not nil; it is then the innermost dialog. -/
  activeDlg : Bool
  checkNow : Bool
  noticeCh : List Notice
  stopped : Bool
  /-- The client of the check that the poll goroutine is waiting for. -/
  polling : Option Client
  controls : List Control

def start (baseURL : Str) : App where
  server := ⟨0, baseURL⟩
  result := .plain .connecting "Checking server...".toList Time.zero
  lastGood := Time.zero
  busy := false
  resultFrom := .launcher
  lastGoodFrom := .launcher
  made := 1
  notice := []
  hwnd := true
  dialogs := []
  activeDlg := false
  checkNow := true
  noticeCh := []
  stopped := false
  polling := none
  controls := []

def defaultServerURL : Str := "http://127.0.0.1:8888".toList

/-- `NewApp` and the start of `Run`, for the configured address. -/
def newApp (url : UrlLib) (serverURL : Str) : Except Str App :=
  match normalizeServerURL url serverURL with
  | .ok norm => .ok (start norm)
  | .error _ => (normalizeServerURL url defaultServerURL).map start

/-- The launcher starts in the same way for every address, whatever was configured. -/
theorem newApp_ok {url : UrlLib} {serverURL : Str} {s : App}
    (h : newApp url serverURL = .ok s) : ∃ baseURL, s = start baseURL := by
  unfold newApp at h
  cases hnorm : normalizeServerURL url serverURL with
  | ok norm =>
    rw [hnorm] at h
    exact ⟨norm, (Except.ok.inj h).symm⟩
  | error e =>
    rw [hnorm] at h
    cases hdefault : normalizeServerURL url defaultServerURL with
    | ok norm =>
      rw [hdefault] at h
      exact ⟨norm, (Except.ok.inj h).symm⟩
    | error e' =>
      rw [hdefault] at h
      cases h

def App.applyResult (s : App) (baseURL : Str) (res : CheckResult) (source : Origin) : App :=
  { s with toBoard := s.toBoard.applyResult baseURL res source }

def App.setBusy (s : App) (v : Bool) : App := { s with toBoard := s.toBoard.setBusy v }

def App.requestCheck (s : App) : App := { s with checkNow := true }

/-- The channel has room for eight notices; what does not fit is dropped. -/
def App.postNotice (s : App) (n : Notice) : App :=
  if s.noticeCh.length < 8 then { s with noticeCh := s.noticeCh ++ [n] } else s

/-! ## The poll goroutine -/

/-- The loop wakes up, by the ticker or by a request, and starts a check. -/
def App.startPoll (s : App) (tick : Bool) : App :=
  if s.stopped || s.polling.isSome || !(tick || s.checkNow) then s
  else { s with polling := some s.server, checkNow := s.checkNow && tick }

def App.endPoll (s : App) (reply : ℕ → Time × StatusReply) : App :=
  match s.polling with
  | none => s
  | some srv =>
    if s.stopped then { s with polling := none }
    else App.applyResult { s with polling := none } srv.baseURL (checkStatusRetry reply) (.poll srv)

/-! ## The goroutine of a control operation -/

def App.setPhase (s : App) (i : ℕ) (c : Control) (phase : Phase) : App :=
  { s with controls := s.controls.set i { c with phase := phase } }

def afterLogin (reply : LoginReply) : Phase :=
  match login reply with
  | some err => .clearing ⟨"Sign-in failed".toList, sanitizeDetail err⟩ false
  | none => .request

def afterControl (url : UrlLib) (srv : Client) (reply : ControlReply) : Phase :=
  match control url srv.baseURL reply with
  | .ok _ => .verifying none
  | .error (.notAuthenticated _) =>
    .clearing ⟨"Sign-in required".toList,
      "The server session expired. Run the operation again; the launcher will ask for ".toList ++
        "the administrator password.".toList⟩
      false
  | .error (.other text) => .verifying (some text)

/-- The next step of an operation, by where it is. -/
def App.advance (url : UrlLib) (s : App) (i : ℕ) (c : Control) : Phase → ControlEvent → App
  | .login _, .loggedIn reply => s.setPhase i c (afterLogin reply)
  | .request, .answered reply => s.setPhase i c (afterControl url c.srv reply)
  | .verifying err, .checked now reply =>
    let res := checkStatusContext now reply
    if s.stopped then s.setPhase i c (.verified false err)
    else (s.applyResult c.srv.baseURL res (.verify c.srv c.op)).setPhase i c
      (if confirms c.op res.state then .verified true err else .verifying err)
  | .verifying err, .gaveUp => s.setPhase i c (.verified false err)
  | .verified ok err, .observed now reply =>
    s.setPhase i c (.clearing (outcome c.op err ok (checkStatusContext now reply).state) true)
  | .clearing n recheck, .clear => (s.setBusy false).setPhase i c (.posting n recheck)
  | .posting n recheck, .post =>
    App.setPhase ((if recheck then s.requestCheck else s).postNotice n) i c .done
  | _, _ => s

def App.turn (url : UrlLib) (s : App) (i : ℕ) (e : ControlEvent) : App :=
  match s.controls[i]? with
  | none => s
  | some c => s.advance url i c c.phase e

/-! ## The UI thread -/

/-- A dialog that cannot be opened is as good as cancelled, and then no caller does anything
more. -/
def App.runDialog (s : App) (opens : Bool) (flow : Flow) (title text : Str) : App :=
  if !s.hwnd then s
  else if opens then
    { s with dialogs := ⟨flow, title, text, none, [], true⟩ :: s.dialogs, activeDlg := true }
  else { s with activeDlg := false }

def App.showNotice (s : App) (opens : Bool) (title text : Str) : App :=
  s.runDialog opens .notice title text

def canControlServer : ServerState → Bool
  | .online | .degraded | .unauthorized => true
  | _ => false

/-- The result that stands for an operation under way. -/
def transient (op : ControlOp) (now : Time) : CheckResult :=
  match op with
  | .restart =>
    .plain .starting "Restart requested - waiting for the service to answer...".toList now
  | .stop => .plain .stopping "Stop requested - waiting for the service to go down...".toList now

def App.setTransientState (s : App) (op : ControlOp) (now : Time) : App :=
  s.applyResult s.server.baseURL (transient op now) .launcher

/-- Why an operation is refused. -/
def refusal (res : CheckResult) : Str :=
  let reason := if res.detail = [] then res.state.label else res.detail
  let current := "Current state: ".toList ++ res.state.label ++ " - ".toList ++ reason
  if res.state.reachable then
    "Restart/Stop needs the server to finish its current transition.\r\n".toList ++ current ++
      ".".toList
  else
    "Restart/Stop needs a reachable MKYBOOT server.\r\n".toList ++ current ++
      ".\r\n\r\nThe control API is served by the same nginx process it controls, so it ".toList ++
        "cannot be used while nginx is down. Start nginx on the MKYBOOT server (for ".toList ++
        "example: sudo systemctl start nginx), then press Server Status to re-check.".toList

def confirmTitle : ControlOp → Str
  | .restart => "Restart Server".toList
  | .stop => "Stop Server".toList

def confirmText (op : ControlOp) (baseURL : Str) : Str :=
  match op with
  | .restart => "Restart the MKYBOOT web service on ".toList ++ baseURL ++
      "?\r\n\r\nConnected clients may be briefly interrupted while the service restarts.".toList
  | .stop => "Stop the MKYBOOT web service on ".toList ++ baseURL ++
      "?\r\n\r\nThe dashboard and launcher status checks will be unavailable until the ".toList ++
        "service is started again on the server.".toList

/-- `controlFlow` gets past its tests. -/
def App.admits (s : App) : Bool := !s.busy && canControlServer s.result.state

/-- `controlFlow` up to its first dialog. -/
def App.controlFlow (s : App) (op : ControlOp) (now : Time) (opens : Bool) : App :=
  if s.busy then s
  else if !canControlServer s.result.state then
    s.showNotice opens "Server control unavailable".toList (refusal s.result)
  else
    (s.setTransientState op now).runDialog opens (.confirm op) (confirmTitle op)
      (confirmText op s.server.baseURL)

def App.promptPassword (s : App) (opens : Bool) (op : ControlOp) (srv : Client) : App :=
  s.runDialog opens (.signIn op srv) "Administrator sign-in required".toList
    ("Enter the MKYBOOT administrator password to authorize this operation. The password ".toList ++
      "stays in memory only and is never saved by the launcher.".toList)

/-- `controlFlow` from `setBusy` on. -/
def App.launch (s : App) (op : ControlOp) (srv : Client) (password : Str) : App :=
  { s.setBusy true with
    controls := s.controls ++ [⟨op, srv, if password = [] then .request else .login password⟩] }

/-- What follows when a dialog returns.  `session` says whether the jar of the current client
holds a session cookie. -/
def App.proceed (s : App) (d : Dialog) (session opens : Bool) : App :=
  match d.flow with
  | .notice => s
  | .confirm op =>
    if d.result = some .yes then
      if session then s.launch op s.server [] else s.promptPassword opens op s.server
    else s
  | .signIn op srv =>
    if d.result = some .ok ∧ d.password ≠ [] then s.launch op srv d.password else s

/-- The window of the innermost dialog is gone, and its loop ends. -/
def App.returning (s : App) : Bool := s.dialogs.head?.any fun d => !d.shown

/-- The UI thread handles messages. -/
def App.ready (s : App) : Bool := s.hwnd && !s.returning

def App.resume (s : App) (session opens : Bool) : App :=
  match s.dialogs with
  | [] => s
  | d :: ds =>
    if d.shown then s
    else App.proceed { s with dialogs := ds, activeDlg := false } d session opens

/-- A window of a dialog is destroyed, after the active dialog has been dealt with. -/
def App.destroy (s : App) (depth : ℕ) (act : Dialog → Dialog) : App :=
  { s with dialogs := (if s.activeDlg then s.dialogs.modify 0 act else s.dialogs).modify depth
             fun d => { d with shown := false } }

/-- A button does nothing when no dialog is active. -/
def App.click (s : App) (depth : ℕ) (button : Button) (typed : Str) : App :=
  if s.activeDlg then s.destroy depth fun d => d.press button typed else s

def App.manualCheck (s : App) (now : Time) : App :=
  (s.applyResult s.server.baseURL (.plain .connecting "Checking...".toList now)
    .launcher).requestCheck

/-- `saved` is the error of `Config.Save`, if there is one. -/
def App.adoptServerURL (url : UrlLib) (s : App) (norm : Str) (saved : Option Str) : App :=
  match normalizeServerURL url norm with
  | .error _ => { s with notice := "Invalid server address".toList }
  | .ok baseURL =>
    App.requestCheck { s with
      toBoard := s.toBoard.adopt baseURL
      notice := match saved with
        | some e => "Config save failed: ".toList ++ sanitizeDetail e
        | none => [] }

def App.onAddressEdited (url : UrlLib) (s : App) (text : Str) (saved : Option Str) : App :=
  match normalizeServerURL url text with
  | .error _ => s
  | .ok norm => if norm = s.server.baseURL then s else s.adoptServerURL url norm saved

/-- A field that does not hold an address gets the current one back, which is another
edit. -/
def App.onAddressFocusLost (url : UrlLib) (s : App) (text : Str) (saved : Option Str) : App :=
  match normalizeServerURL url text with
  | .error _ => { s with notice := "Invalid server address - previous value kept".toList }
  | .ok norm => if norm = s.server.baseURL then s else s.adoptServerURL url norm saved

def App.openDashboard (url : UrlLib) (s : App) (ret : ℕ) (opens : Bool) : App :=
  match normalizeServerURL url s.server.baseURL with
  | .error _ =>
    s.showNotice opens "Invalid server address".toList
      "The configured server address is not valid.".toList
  | .ok _ =>
    if ret ≤ 32 then
      s.showNotice opens "Browser error".toList
        ("Could not open the default browser (Windows code ".toList ++ Nat.toDigits 10 ret ++
          ").".toList)
    else s

/-- The handler of `wmAppNotice` and `wmAppControl`. -/
def App.takeNotice (s : App) (opens : Bool) : App :=
  match s.noticeCh with
  | [] => s.showNotice opens "MKYBOOT Launcher".toList "No details available.".toList
  | n :: ns => App.showNotice { s with noticeCh := ns } opens n.title n.text

/-- The main window is destroyed, and with it the dialogs that it owns. -/
def App.exit (s : App) : App :=
  { s with hwnd := false, dialogs := s.dialogs.map fun d => { d with shown := false } }

/-- The message loop of `Run` has ended. -/
def App.shutDown (s : App) : App :=
  if !s.hwnd && s.dialogs.isEmpty then { s with stopped := true } else s

/-! ## Steps -/

/-- What the UI thread handles. -/
inductive Message where
  | command (op : ControlOp) (now : Time) (opens : Bool)
  | status (now : Time)
  | dashboard (ret : ℕ) (opens : Bool)
  | edited (text : Str) (saved : Option Str)
  | focusLost (text : Str) (saved : Option Str)
  | notice (opens : Bool)
  | foreground
  /-- A button of the dialog at a depth in the stack, and the text in the active one's field. -/
  | click (depth : ℕ) (button : Button) (typed : Str)
  | close (depth : ℕ)
  | exit

inductive Input where
  | poll (tick : Bool)
  | polled (reply : ℕ → Time × StatusReply)
  | control (i : ℕ) (e : ControlEvent)
  | message (m : Message)
  | resume (session opens : Bool)
  | shutDown

def App.handle (url : UrlLib) (s : App) : Message → App
  | .command op now opens => s.controlFlow op now opens
  | .status now => s.manualCheck now
  | .dashboard ret opens => s.openDashboard url ret opens
  | .edited text saved => s.onAddressEdited url text saved
  | .focusLost text saved => s.onAddressFocusLost url text saved
  | .notice opens => s.takeNotice opens
  | .foreground => s.requestCheck
  | .click depth button typed => s.click depth button typed
  | .close depth => s.destroy depth Dialog.dismiss
  | .exit => s.exit

def step (url : UrlLib) (s : App) : Input → App
  | .poll tick => s.startPoll tick
  | .polled reply => s.endPoll reply
  | .control i e => s.turn url i e
  | .message m => if s.ready then s.handle url m else s
  | .resume session opens => s.resume session opens
  | .shutDown => s.shutDown

end Launcher
end MkyBoot
