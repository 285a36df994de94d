import MkyBoot.Launcher.App

/-!
# What a step does to the shared fields

Whatever a step does besides, it touches the fields under the mutex at most once: it
stores a result, adopts an address, or sets or clears the busy flag.  `effect` says which,
from the state before the step.  An operation runs from the step that sets the flag for
it to the step that clears the flag for it.
-/

namespace MkyBoot
namespace Launcher

open Server (Str Time)

inductive Effect where
  | none
  | store (baseURL : Str) (res : CheckResult) (source : Origin)
  | adopt (baseURL : Str)
  | launch (op : ControlOp) (srv : Client) (password : Str)
  | finish (i : ℕ)

def Board.after (b : Board) : Effect → Board
  | .none => b
  | .store baseURL res source => b.applyResult baseURL res source
  | .adopt baseURL => b.adopt baseURL
  | .launch _ _ _ => b.setBusy true
  | .finish _ => b.setBusy false

def pollEffect (s : App) (reply : ℕ → Time × StatusReply) : Effect :=
  match s.polling with
  | none => .none
  | some srv =>
    if s.stopped then .none else .store srv.baseURL (checkStatusRetry reply) (.poll srv)

def controlEffect (s : App) (i : ℕ) (c : Control) : Phase → ControlEvent → Effect
  | .verifying _, .checked now reply =>
    if s.stopped then .none
    else .store c.srv.baseURL (checkStatusContext now reply) (.verify c.srv c.op)
  | .clearing _ _, .clear => .finish i
  | _, _ => .none

def turnEffect (s : App) (i : ℕ) (e : ControlEvent) : Effect :=
  match s.controls[i]? with
  | none => .none
  | some c => controlEffect s i c c.phase e

/-- The address that a text in the address field makes the launcher adopt. -/
def App.adoptable (url : UrlLib) (s : App) (text : Str) : Option Str :=
  match normalizeServerURL url text with
  | .error _ => none
  | .ok norm =>
    if norm = s.server.baseURL then none else (normalizeServerURL url norm).toOption

def addressEffect (url : UrlLib) (s : App) (text : Str) : Effect :=
  match s.adoptable url text with
  | none => .none
  | some baseURL => .adopt baseURL

def messageEffect (url : UrlLib) (s : App) : Message → Effect
  | .command op now _ =>
    if s.admits then .store s.server.baseURL (transient op now) .launcher else .none
  | .status now => .store s.server.baseURL (.plain .connecting "Checking...".toList now) .launcher
  | .edited text _ => addressEffect url s text
  | .focusLost text _ => addressEffect url s text
  | _ => .none

/-- The effect of what follows when a dialog returns. -/
def Dialog.effect (d : Dialog) (server : Client) (session : Bool) : Effect :=
  match d.flow with
  | .notice => .none
  | .confirm op => if d.result = some .yes then if session then .launch op server [] else .none
      else .none
  | .signIn op srv =>
    if d.result = some .ok ∧ d.password ≠ [] then .launch op srv d.password else .none

def resumeEffect (s : App) (session : Bool) : Effect :=
  match s.dialogs with
  | [] => .none
  | d :: _ => if d.shown then .none else d.effect s.server session

theorem resumeEffect_cases (s : App) (session : Bool) : resumeEffect s session = .none ∨
    ∃ op srv password, resumeEffect s session = .launch op srv password := by
  unfold resumeEffect Dialog.effect
  repeat' split
  all_goals simp

def effect (url : UrlLib) (s : App) : Input → Effect
  | .polled reply => pollEffect s reply
  | .control i e => turnEffect s i e
  | .message m => if s.ready then messageEffect url s m else .none
  | .resume session _ => resumeEffect s session
  | _ => .none

/-- The four ways in which a result comes to be stored. -/
inductive Stores (s : App) : Input → Str → CheckResult → Origin → Prop where
  | command (op : ControlOp) (now : Time) (opens : Bool) (hready : s.ready = true)
      (hadmits : s.admits = true) :
      Stores s (.message (.command op now opens)) s.server.baseURL (transient op now) .launcher
  | status (now : Time) (hready : s.ready = true) :
      Stores s (.message (.status now)) s.server.baseURL
        (.plain .connecting "Checking...".toList now) .launcher
  | polled {srv : Client} (reply : ℕ → Time × StatusReply) (hpolling : s.polling = some srv)
      (hstopped : s.stopped = false) :
      Stores s (.polled reply) srv.baseURL (checkStatusRetry reply) (.poll srv)
  | checked {i : ℕ} {c : Control} {err : Option Str} (now : Time) (reply : StatusReply)
      (hc : s.controls[i]? = some c) (hphase : c.phase = .verifying err)
      (hstopped : s.stopped = false) :
      Stores s (.control i (.checked now reply)) c.srv.baseURL (checkStatusContext now reply)
        (.verify c.srv c.op)

theorem stores_of_effect {url : UrlLib} {s : App} {x : Input} {baseURL : Str} {res : CheckResult}
    {source : Origin} (h : effect url s x = .store baseURL res source) :
    Stores s x baseURL res source := by
  cases x with
  | poll tick => cases h
  | polled reply =>
    change pollEffect s reply = _ at h
    unfold pollEffect at h
    repeat' split at h
    all_goals cases h
    next srv hpolling hstopped => exact .polled reply hpolling (Bool.eq_false_iff.mpr hstopped)
  | control i e =>
    change turnEffect s i e = _ at h
    unfold turnEffect controlEffect at h
    repeat' split at h
    all_goals cases h
    next c hc _ _ err now reply hphase hstopped =>
      exact .checked now reply hc hphase (Bool.eq_false_iff.mpr hstopped)
  | message m =>
    unfold effect messageEffect addressEffect at h
    dsimp only at h
    repeat' split at h
    all_goals cases h
    · next hready _ op now opens hadmits => exact .command op now opens hready hadmits
    · next hready _ now => exact .status now hready
  | resume session opens =>
    change resumeEffect s session = _ at h
    rcases resumeEffect_cases s session with hnone | ⟨op, srv, password, hlaunch⟩
    · exact absurd (hnone.symm.trans h) (by simp)
    · exact absurd (hlaunch.symm.trans h) (by simp)
  | shutDown => cases h

/-! ## The shared fields -/

section Board

variable (b : Board) (baseURL : Str) (res : CheckResult) (source : Origin)

theorem applyResult_result : (b.applyResult baseURL res source).result =
    if b.server.baseURL = baseURL then res else b.result := by
  unfold Board.applyResult
  by_cases h : b.server.baseURL = baseURL
  · rw [if_neg (not_not.mpr h), if_pos h]
    split <;> rfl
  · rw [if_pos h, if_neg h]

theorem applyResult_resultFrom : (b.applyResult baseURL res source).resultFrom =
    if b.server.baseURL = baseURL then source else b.resultFrom := by
  unfold Board.applyResult
  by_cases h : b.server.baseURL = baseURL
  · rw [if_neg (not_not.mpr h), if_pos h]
    split <;> rfl
  · rw [if_pos h, if_neg h]

theorem applyResult_busy : (b.applyResult baseURL res source).busy = b.busy := by
  unfold Board.applyResult
  repeat' split
  all_goals rfl

theorem applyResult_server : (b.applyResult baseURL res source).server = b.server := by
  unfold Board.applyResult
  repeat' split
  all_goals rfl

end Board

/-! ## Messages -/

/-- What the goroutines are at. -/
def App.work (s : App) : List Control × Option Client := (s.controls, s.polling)

theorem controls_of_work {s t : App} (h : t.work = s.work) : t.controls = s.controls :=
  congrArg Prod.fst h

theorem polling_of_work {s t : App} (h : t.work = s.work) : t.polling = s.polling :=
  congrArg Prod.snd h

/-- The client that waits for a dialog to return. -/
def Flow.client : Flow → Option Client
  | .signIn _ srv => some srv
  | _ => none

def App.flows (s : App) : List Flow := s.dialogs.map Dialog.flow

/-- A handler that has left `b` of the shared fields has done nothing to the goroutines, and
no client waits for a dialog that it has opened. -/
structure Handled (s : App) (b : Board) (t : App) : Prop where
  board : t.toBoard = b
  work : t.work = s.work
  flows : ∀ f ∈ t.flows, f.client = none ∨ f ∈ s.flows

theorem Handled.of_eq {s t : App} {b : Board} (hboard : t.toBoard = b) (hwork : t.work = s.work)
    (hdialogs : t.dialogs = s.dialogs) : Handled s b t where
  board := hboard
  work := hwork
  flows := by
    intro f hf
    rw [App.flows, hdialogs] at hf
    exact Or.inr hf

theorem runDialog_toBoard (s : App) (opens : Bool) (flow : Flow) (title text : Str) :
    (s.runDialog opens flow title text).toBoard = s.toBoard := by
  unfold App.runDialog
  repeat' split
  all_goals rfl

theorem runDialog_work (s : App) (opens : Bool) (flow : Flow) (title text : Str) :
    (s.runDialog opens flow title text).work = s.work := by
  unfold App.runDialog
  repeat' split
  all_goals rfl

/-- A dialog that is opened is the only new one. -/
theorem runDialog_flows (s : App) (opens : Bool) (flow : Flow) (title text : Str) {f : Flow}
    (h : f ∈ (s.runDialog opens flow title text).flows) : f = flow ∨ f ∈ s.flows := by
  unfold App.runDialog at h
  split at h
  · exact Or.inr h
  · split at h
    · exact List.mem_cons.mp h
    · exact Or.inr h

theorem Handled.runDialog {s t : App} {b : Board} (h : Handled s b t) (opens : Bool) (flow : Flow)
    (hflow : flow.client = none) (title text : Str) :
    Handled s b (t.runDialog opens flow title text) where
  board := (runDialog_toBoard t opens flow title text).trans h.board
  work := (runDialog_work t opens flow title text).trans h.work
  flows := by
    intro f hf
    rcases runDialog_flows t opens flow title text hf with rfl | hold
    · exact Or.inl hflow
    · exact h.flows f hold

theorem map_flow_modify {f : Dialog → Dialog} (hf : ∀ d, (f d).flow = d.flow) (n : ℕ)
    (ds : List Dialog) : (ds.modify n f).map Dialog.flow = ds.map Dialog.flow := by
  induction ds generalizing n with
  | nil => simp
  | cons d ds ih => cases n <;> simp [hf, ih]

theorem handled_destroy (s : App) (depth : ℕ) {act : Dialog → Dialog}
    (hact : ∀ d, (act d).flow = d.flow) : Handled s s.toBoard (s.destroy depth act) where
  board := rfl
  work := rfl
  flows := by
    intro f hf
    refine Or.inr ?_
    unfold App.destroy App.flows at hf
    dsimp only at hf
    rw [map_flow_modify (f := fun d => { d with shown := false }) (fun _ => rfl)] at hf
    split at hf
    · rwa [map_flow_modify hact] at hf
    · exact hf

theorem press_flow (d : Dialog) (button : Button) (typed : Str) :
    (d.press button typed).flow = d.flow := by
  unfold Dialog.press
  split <;> rfl

theorem dismiss_flow (d : Dialog) : d.dismiss.flow = d.flow := by
  unfold Dialog.dismiss
  split <;> rfl

section Handlers

variable (url : UrlLib) (s : App)

theorem handled_refl : Handled s s.toBoard s := .of_eq rfl rfl rfl

theorem handled_controlFlow (op : ControlOp) (now : Time) (opens : Bool) :
    Handled s (s.toBoard.after (messageEffect url s (.command op now opens)))
      (s.controlFlow op now opens) := by
  unfold App.controlFlow messageEffect App.admits
  cases s.busy with
  | true => exact handled_refl s
  | false =>
    cases canControlServer s.result.state with
    | true =>
      have hstored : Handled s (s.toBoard.applyResult s.server.baseURL (transient op now) .launcher)
          (s.setTransientState op now) := .of_eq rfl rfl rfl
      exact hstored.runDialog opens (.confirm op) rfl _ _
    | false => exact (handled_refl s).runDialog opens .notice rfl _ _

theorem handled_adoptServerURL (norm : Str) (saved : Option Str) :
    Handled s (match (normalizeServerURL url norm).toOption with
      | none => s.toBoard
      | some baseURL => s.toBoard.adopt baseURL) (s.adoptServerURL url norm saved) := by
  unfold App.adoptServerURL
  cases normalizeServerURL url norm <;> exact .of_eq rfl rfl rfl

theorem handled_onAddressEdited (text : Str) (saved : Option Str) :
    Handled s (s.toBoard.after (addressEffect url s text))
      (s.onAddressEdited url text saved) := by
  unfold App.onAddressEdited addressEffect App.adoptable
  cases normalizeServerURL url text with
  | error e => exact handled_refl s
  | ok norm =>
    dsimp only
    by_cases hsame : norm = s.server.baseURL
    · rw [if_pos hsame, if_pos hsame]
      exact handled_refl s
    · rw [if_neg hsame, if_neg hsame]
      have hadopt := handled_adoptServerURL url s norm saved
      cases h : (normalizeServerURL url norm).toOption with
      | none | some baseURL => rwa [h] at hadopt

/-- Leaving the address field does what editing it does, and may leave a message. -/
theorem handled_onAddressFocusLost (text : Str) (saved : Option Str) :
    Handled s (s.toBoard.after (addressEffect url s text))
      (s.onAddressFocusLost url text saved) := by
  have hedited := handled_onAddressEdited url s text saved
  unfold App.onAddressFocusLost
  unfold App.onAddressEdited at hedited
  cases h : normalizeServerURL url text with
  | error e =>
    rw [h] at hedited
    exact ⟨hedited.board, rfl, hedited.flows⟩
  | ok norm =>
    rw [h] at hedited
    exact hedited

theorem handled_openDashboard (ret : ℕ) (opens : Bool) :
    Handled s s.toBoard (s.openDashboard url ret opens) := by
  unfold App.openDashboard
  repeat' split
  · exact (handled_refl s).runDialog opens .notice rfl _ _
  · exact (handled_refl s).runDialog opens .notice rfl _ _
  · exact handled_refl s

theorem handled_takeNotice (opens : Bool) : Handled s s.toBoard (s.takeNotice opens) := by
  unfold App.takeNotice
  split
  · exact (handled_refl s).runDialog opens .notice rfl _ _
  · next ns _ =>
    have htaken : Handled s s.toBoard { s with noticeCh := ns } := .of_eq rfl rfl rfl
    exact htaken.runDialog opens .notice rfl _ _

theorem handled_click (depth : ℕ) (button : Button) (typed : Str) :
    Handled s s.toBoard (s.click depth button typed) := by
  unfold App.click
  split
  · exact handled_destroy s depth fun d => press_flow d button typed
  · exact handled_refl s

theorem handled_exit : Handled s s.toBoard s.exit where
  board := rfl
  work := rfl
  flows := by
    intro f hf
    simpa [App.exit, App.flows] using Or.inr hf

theorem handled_handle (m : Message) :
    Handled s (s.toBoard.after (messageEffect url s m)) (s.handle url m) := by
  cases m with
  | command op now opens => exact handled_controlFlow url s op now opens
  | status now => exact .of_eq rfl rfl rfl
  | dashboard ret opens => exact handled_openDashboard url s ret opens
  | edited text saved => exact handled_onAddressEdited url s text saved
  | focusLost text saved => exact handled_onAddressFocusLost url s text saved
  | notice opens => exact handled_takeNotice s opens
  | foreground => exact .of_eq rfl rfl rfl
  | click depth button typed => exact handled_click s depth button typed
  | close depth => exact handled_destroy s depth dismiss_flow
  | exit => exact handled_exit s

end Handlers

/-! ## Steps -/

section Step

variable (url : UrlLib) (s : App)

theorem startPoll_toBoard (tick : Bool) : (s.startPoll tick).toBoard = s.toBoard := by
  unfold App.startPoll
  split <;> rfl

theorem endPoll_toBoard (reply : ℕ → Time × StatusReply) :
    (s.endPoll reply).toBoard = s.toBoard.after (pollEffect s reply) := by
  unfold App.endPoll pollEffect
  cases s.polling with
  | none => rfl
  | some srv =>
    dsimp only
    split <;> rfl

theorem postNotice_toBoard (n : Notice) : (s.postNotice n).toBoard = s.toBoard := by
  unfold App.postNotice
  split <;> rfl

theorem turn_toBoard (i : ℕ) (e : ControlEvent) :
    (s.turn url i e).toBoard = s.toBoard.after (turnEffect s i e) := by
  unfold App.turn turnEffect
  cases s.controls[i]? with
  | none => rfl
  | some c =>
    show (s.advance url i c c.phase e).toBoard = s.toBoard.after (controlEffect s i c c.phase e)
    cases c.phase <;> cases e <;> try rfl
    · -- a check of the verification
      unfold App.advance controlEffect
      dsimp only
      split <;> rfl
    · -- the notice is posted
      next n recheck =>
      show (App.postNotice _ n).toBoard = s.toBoard
      rw [postNotice_toBoard]
      split <;> rfl

theorem proceed_toBoard (d : Dialog) (session opens : Bool) :
    (s.proceed d session opens).toBoard = s.toBoard.after (d.effect s.server session) := by
  unfold App.proceed Dialog.effect
  cases d.flow with
  | notice => rfl
  | confirm op =>
    dsimp only
    split
    · cases session with
      | true => rfl
      | false => exact runDialog_toBoard s opens _ _ _
    · rfl
  | signIn op srv =>
    dsimp only
    split <;> rfl

theorem resume_toBoard (session opens : Bool) :
    (s.resume session opens).toBoard = s.toBoard.after (resumeEffect s session) := by
  unfold App.resume resumeEffect
  cases s.dialogs with
  | nil => rfl
  | cons d ds =>
    dsimp only
    split
    · rfl
    · exact proceed_toBoard _ d session opens

theorem step_toBoard (x : Input) :
    (step url s x).toBoard = s.toBoard.after (effect url s x) := by
  cases x with
  | poll tick => exact startPoll_toBoard s tick
  | polled reply => exact endPoll_toBoard s reply
  | control i e => exact turn_toBoard url s i e
  | message m =>
    unfold step effect
    dsimp only
    split
    · exact (handled_handle url s m).board
    · rfl
  | resume session opens => exact resume_toBoard s session opens
  | shutDown =>
    show s.shutDown.toBoard = s.toBoard
    unfold App.shutDown
    split <;> rfl

end Step

/-! ## The operations that run -/

/-- The outcome of an operation is not decided. -/
def App.runs (s : App) (i : ℕ) : Bool := s.controls[i]?.any fun c => c.phase.running

/-- Whether an operation runs after a step, by the effect of the step. -/
def App.runsAfter (s : App) (i : ℕ) : Effect → Bool
  | .launch _ _ _ => s.runs i || i == s.controls.length
  | .finish j => s.runs i && i != j
  | _ => s.runs i

theorem runs_congr {s t : App} (h : t.controls = s.controls) (i : ℕ) : t.runs i = s.runs i := by
  rw [App.runs, App.runs, h]

theorem runs_setPhase {s : App} {i : ℕ} {c : Control} (hc : s.controls[i]? = some c)
    (phase : Phase) (j : ℕ) :
    (s.setPhase i c phase).runs j = if j = i then phase.running else s.runs j := by
  have hlt : i < s.controls.length := (List.getElem?_eq_some_iff.mp hc).1
  unfold App.runs App.setPhase
  dsimp only
  rw [List.getElem?_set]
  by_cases hj : j = i
  · rw [if_pos hj.symm, if_pos (hj ▸ hlt), if_pos hj]
    rfl
  · rw [if_neg (Ne.symm hj), if_neg hj]

theorem afterLogin_running (reply : LoginReply) : (afterLogin reply).running = true := by
  unfold afterLogin
  split <;> rfl

theorem afterControl_running (url : UrlLib) (srv : Client) (reply : ControlReply) :
    (afterControl url srv reply).running = true := by
  unfold afterControl
  split <;> rfl

/-- What a step of an operation leaves, by its effect: the phase of the operation changes, and
the operation runs on unless the flag was cleared for it. -/
inductive Moved (s : App) (i : ℕ) (c : Control) : Effect → App → Prop where
  | idle : Moved s i c .none s
  | on {e : Effect} {t : App} {phase : Phase} (hwork : t.work = s.work)
      (hdialogs : t.dialogs = s.dialogs) (hrunning : phase.running = c.phase.running)
      (heffect : ∀ j, s.runsAfter j e = s.runs j) : Moved s i c e (t.setPhase i c phase)
  | off {t : App} {phase : Phase} (hwork : t.work = s.work) (hdialogs : t.dialogs = s.dialogs)
      (hrunning : phase.running = false) : Moved s i c (.finish i) (t.setPhase i c phase)

theorem postNotice_work (s : App) (n : Notice) : (s.postNotice n).work = s.work := by
  unfold App.postNotice
  split <;> rfl

theorem postNotice_dialogs (s : App) (n : Notice) : (s.postNotice n).dialogs = s.dialogs := by
  unfold App.postNotice
  split <;> rfl

theorem moved_advance (url : UrlLib) (s : App) (i : ℕ) (c : Control) (e : ControlEvent) :
    Moved s i c (controlEffect s i c c.phase e) (s.advance url i c c.phase e) := by
  have hon {phase : Phase} (h : phase.running = c.phase.running) :
      Moved s i c .none (s.setPhase i c phase) := .on rfl rfl h fun _ => rfl
  cases hphase : c.phase with
  | login password =>
    cases e <;> try exact .idle
    exact hon ((afterLogin_running _).trans (by rw [hphase]; rfl))
  | request =>
    cases e <;> try exact .idle
    exact hon ((afterControl_running url c.srv _).trans (by rw [hphase]; rfl))
  | verifying err =>
    cases e <;> try exact .idle
    · unfold App.advance controlEffect
      dsimp only
      split
      · exact hon (by rw [hphase]; rfl)
      · refine .on (t := s.applyResult _ _ _) rfl rfl ?_ fun _ => rfl
        rw [hphase]
        split <;> rfl
    · exact hon (by rw [hphase]; rfl)
  | verified ok err =>
    cases e <;> try exact .idle
    exact hon (by rw [hphase]; rfl)
  | clearing n recheck =>
    cases e <;> try exact .idle
    exact .off (t := s.setBusy false) rfl rfl rfl
  | posting n recheck =>
    cases e <;> try exact .idle
    refine .on ((postNotice_work _ n).trans ?_) ((postNotice_dialogs _ n).trans ?_)
      (by rw [hphase]; rfl) fun _ => rfl
    · split <;> rfl
    · split <;> rfl
  | done => cases e <;> exact .idle

theorem Moved.runs {s t : App} {i : ℕ} {c : Control} {e : Effect} (h : Moved s i c e t)
    (hc : s.controls[i]? = some c) (j : ℕ) : t.runs j = s.runsAfter j e := by
  have hself : s.runs i = c.phase.running := by
    rw [App.runs, hc]
    rfl
  cases h with
  | idle => rfl
  | on hwork hdialogs hrunning heffect =>
    rw [runs_setPhase (controls_of_work hwork ▸ hc), runs_congr (controls_of_work hwork), heffect,
      hrunning, ← hself]
    split
    · next hj => rw [hj]
    · rfl
  | off hwork hdialogs hrunning =>
    rw [runs_setPhase (controls_of_work hwork ▸ hc), runs_congr (controls_of_work hwork), hrunning]
    show _ = (s.runs j && j != i)
    by_cases hj : j = i
    · simp [hj]
    · simp [hj]

theorem runs_launch (s : App) (op : ControlOp) (srv : Client) (password : Str) (j : ℕ) :
    (s.launch op srv password).runs j = (s.runs j || j == s.controls.length) := by
  unfold App.runs App.launch
  dsimp only
  rw [List.getElem?_append]
  rcases Nat.lt_trichotomy j s.controls.length with hj | hj | hj
  · rw [if_pos hj]
    simp [Nat.ne_of_lt hj]
  · rw [if_neg (by omega), hj]
    cases password <;> simp [Phase.running]
  · rw [if_neg (by omega), List.getElem?_eq_none (by simp; omega),
      List.getElem?_eq_none (by omega)]
    simp [Nat.ne_of_gt hj]

theorem runs_proceed (s : App) (d : Dialog) (session opens : Bool) (j : ℕ) :
    (s.proceed d session opens).runs j = s.runsAfter j (d.effect s.server session) := by
  unfold App.proceed Dialog.effect
  cases d.flow with
  | notice => rfl
  | confirm op =>
    dsimp only
    split
    · cases session with
      | true => exact runs_launch s op s.server [] j
      | false => exact runs_congr (controls_of_work (runDialog_work s opens _ _ _)) j
    · rfl
  | signIn op srv =>
    dsimp only
    split
    · exact runs_launch s op srv d.password j
    · rfl

theorem runs_endPoll (s : App) (reply : ℕ → Time × StatusReply) (j : ℕ) :
    (s.endPoll reply).runs j = s.runsAfter j (pollEffect s reply) := by
  unfold App.endPoll pollEffect
  cases s.polling with
  | none => rfl
  | some srv =>
    dsimp only
    split <;> rfl

theorem runs_turn (url : UrlLib) (s : App) (i : ℕ) (e : ControlEvent) (j : ℕ) :
    (s.turn url i e).runs j = s.runsAfter j (turnEffect s i e) := by
  unfold App.turn turnEffect
  cases hc : s.controls[i]? with
  | none => rfl
  | some c => exact (moved_advance url s i c e).runs hc j

/-- No message makes an operation run or end. -/
theorem runsAfter_message (url : UrlLib) (s : App) (m : Message) (j : ℕ) :
    s.runsAfter j (messageEffect url s m) = s.runs j := by
  unfold messageEffect addressEffect
  repeat' split
  all_goals rfl

theorem runs_resume (s : App) (session opens : Bool) (j : ℕ) :
    (s.resume session opens).runs j = s.runsAfter j (resumeEffect s session) := by
  unfold App.resume resumeEffect
  cases s.dialogs with
  | nil => rfl
  | cons d ds =>
    dsimp only
    split
    · rfl
    · exact runs_proceed _ d session opens j

theorem runs_step (url : UrlLib) (s : App) (x : Input) (j : ℕ) :
    (step url s x).runs j = s.runsAfter j (effect url s x) := by
  cases x with
  | poll tick =>
    show (s.startPoll tick).runs j = s.runs j
    unfold App.startPoll
    split <;> rfl
  | polled reply => exact runs_endPoll s reply j
  | control i e => exact runs_turn url s i e j
  | message m =>
    unfold step effect
    dsimp only
    split
    · rw [runsAfter_message]
      exact runs_congr (controls_of_work (handled_handle url s m).work) j
    · rfl
  | resume session opens => exact runs_resume s session opens j
  | shutDown =>
    show s.shutDown.runs j = s.runs j
    unfold App.shutDown
    split <;> rfl

end Launcher
end MkyBoot
