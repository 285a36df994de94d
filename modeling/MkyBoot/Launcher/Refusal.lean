import MkyBoot.Launcher.Effect

/-!
# Operations that the server refuses

The goroutine of an operation keeps the error of its request but not what kind of error
it was.  A refusal of the server is followed by the same checks as a broken connection,
and what the checks see decides what the user is told.  `refused_never_failure` says that
no refused operation is reported as a failure, and when one is reported as done.

The phases of one operation are a machine of their own, whose inputs are what the other
threads leave for it: the events of the operation, and whether the launcher stops.
-/

namespace MkyBoot
namespace Launcher

open Server (Str Time)
open Machine

/-! ## The phases of one operation -/

section Phases

variable (url : UrlLib) (op : ControlOp) (srv : Client)

/-- The phase after an event. -/
def Phase.next (stopped : Bool) : Phase → ControlEvent → Phase
  | .login _, .loggedIn reply => afterLogin reply
  | .request, .answered reply => afterControl url srv reply
  | .verifying err, .checked now reply =>
    if stopped then .verified false err
    else if confirms op (checkStatusContext now reply).state then .verified true err
    else .verifying err
  | .verifying err, .gaveUp => .verified false err
  | .verified ok err, .observed now reply =>
    .clearing (outcome op err ok (checkStatusContext now reply).state) true
  | .clearing n recheck, .clear => .posting n recheck
  | .posting _ _, .post => .done
  | phase, _ => phase

/-- A step of the launcher, as one operation sees it. -/
def glimpse (i : ℕ) (s : App) : Input → Bool × Option ControlEvent
  | .control j e => (s.stopped, if j = i then some e else none)
  | _ => (s.stopped, none)

def Phase.see (phase : Phase) (g : Bool × Option ControlEvent) : Phase :=
  match g.2 with
  | none => phase
  | some e => phase.next url op srv g.1 e

variable {op srv}

/-- The operation at a place is in a phase. -/
def At (i : ℕ) (op : ControlOp) (srv : Client) (s : App) (phase : Phase) : Prop :=
  s.controls[i]? = some ⟨op, srv, phase⟩

theorem At.congr {i : ℕ} {s t : App} {phase : Phase} (h : At i op srv s phase)
    (hcontrols : t.controls = s.controls) : At i op srv t phase := by
  rw [At, hcontrols]
  exact h

theorem at_setPhase {i : ℕ} {s t : App} {phase : Phase} (h : At i op srv s phase)
    (hcontrols : t.controls = s.controls) (phase' : Phase) :
    At i op srv (t.setPhase i ⟨op, srv, phase⟩ phase') phase' := by
  have hlt : i < t.controls.length := by
    rw [hcontrols]
    exact (List.getElem?_eq_some_iff.mp h).1
  exact List.getElem?_set_self hlt

theorem at_advance {i : ℕ} {s : App} {phase : Phase} (h : At i op srv s phase) (e : ControlEvent) :
    At i op srv (s.advance url i ⟨op, srv, phase⟩ phase e)
      (phase.next url op srv s.stopped e) := by
  cases phase with
  | login password =>
    cases e with
    | loggedIn reply => exact at_setPhase h rfl _
    | _ => exact h
  | request =>
    cases e with
    | answered reply => exact at_setPhase h rfl _
    | _ => exact h
  | verifying err =>
    cases e with
    | checked now reply =>
      unfold App.advance Phase.next
      dsimp only
      cases s.stopped with
      | true | false => exact at_setPhase h rfl _
    | gaveUp => exact at_setPhase h rfl _
    | _ => exact h
  | verified ok err =>
    cases e with
    | observed now reply => exact at_setPhase h rfl _
    | _ => exact h
  | clearing n recheck =>
    cases e with
    | clear => exact at_setPhase h rfl _
    | _ => exact h
  | posting n recheck =>
    cases e with
    | post =>
      refine at_setPhase h ?_ _
      rw [controls_of_work (postNotice_work _ n)]
      cases recheck with
      | true => rfl
      | false => rfl
    | _ => exact h
  | done => exact h

theorem At.moved {i j : ℕ} (hij : j ≠ i) {s t : App} {phase : Phase} {c : Control} {e : Effect}
    (hmoved : Moved s j c e t) (h : At i op srv s phase) : At i op srv t phase := by
  cases hmoved with
  | idle => exact h
  | on hwork hdialogs hrunning heffect =>
    rw [At, App.setPhase, List.getElem?_set_ne hij, controls_of_work hwork]
    exact h
  | off hwork hdialogs hrunning =>
    rw [At, App.setPhase, List.getElem?_set_ne hij, controls_of_work hwork]
    exact h

/-- The turn of another operation. -/
theorem at_turn_of_ne {i j : ℕ} (hij : j ≠ i) {s : App} {phase : Phase} (h : At i op srv s phase)
    (e : ControlEvent) : At i op srv (s.turn url j e) phase := by
  unfold App.turn
  cases s.controls[j]? with
  | none => exact h
  | some c => exact h.moved hij (moved_advance url s j c e)

theorem at_launch {i : ℕ} {s : App} {phase : Phase} (h : At i op srv s phase) (op' : ControlOp)
    (srv' : Client) (password : Str) : At i op srv (s.launch op' srv' password) phase := by
  have hlt : i < s.controls.length := (List.getElem?_eq_some_iff.mp h).1
  unfold At App.launch
  dsimp only
  rw [List.getElem?_append_left hlt]
  exact h

theorem at_proceed {i : ℕ} {s : App} {phase : Phase} (h : At i op srv s phase) (d : Dialog)
    (session opens : Bool) : At i op srv (s.proceed d session opens) phase := by
  unfold App.proceed
  cases d.flow with
  | notice => exact h
  | confirm op' =>
    dsimp only
    split
    · cases session with
      | true => exact at_launch h op' _ _
      | false => exact h.congr (controls_of_work (runDialog_work s opens _ _ _))
    · exact h
  | signIn op' srv' =>
    dsimp only
    split
    · exact at_launch h op' srv' _
    · exact h

/-- A step of the launcher is a step of the operation's machine. -/
theorem at_step {i : ℕ} (s : App) (phase : Phase) (x : Input) (h : At i op srv s phase) :
    At i op srv (step url s x) (phase.see url op srv (glimpse i s x)) := by
  cases x with
  | poll tick =>
    show At i op srv (s.startPoll tick) phase
    unfold App.startPoll
    split
    · exact h
    · exact h
  | polled reply =>
    show At i op srv (s.endPoll reply) phase
    unfold App.endPoll
    cases s.polling with
    | none => exact h
    | some srv' =>
      dsimp only
      split
      · exact h
      · exact h
  | control j e =>
    by_cases hj : j = i
    · subst hj
      have hsee : phase.see url op srv (glimpse j s (.control j e)) =
          phase.next url op srv s.stopped e := by
        rw [glimpse, if_pos rfl]
        rfl
      rw [hsee]
      show At j op srv (s.turn url j e) _
      rw [App.turn, h]
      exact at_advance url h e
    · have hsee : phase.see url op srv (glimpse i s (.control j e)) = phase := by
        rw [glimpse, if_neg hj]
        rfl
      rw [hsee]
      exact at_turn_of_ne url hj h e
  | message m =>
    show At i op srv (if s.ready then s.handle url m else s) phase
    split
    · exact h.congr (controls_of_work (handled_handle url s m).work)
    · exact h
  | resume session opens =>
    show At i op srv (s.resume session opens) phase
    unfold App.resume
    cases s.dialogs with
    | nil => exact h
    | cons d ds =>
      dsimp only
      split
      · exact h
      · refine at_proceed ?_ d session opens
        exact h
  | shutDown =>
    show At i op srv s.shutDown phase
    unfold App.shutDown
    split
    · exact h
    · exact h

end Phases

/-! ## What the verification sees -/

/-- `verifyControl` returns true: a check shows the state that the operation leads to before
its time is over and before the launcher stops. -/
def confirmed (op : ControlOp) : List (Bool × Option ControlEvent) → Bool
  | [] => false
  | (stopped, some (.checked now reply)) :: rest =>
    !stopped && (confirms op (checkStatusContext now reply).state || confirmed op rest)
  | (_, some .gaveUp) :: _ => false
  | _ :: rest => confirmed op rest

/-- The notice that has been decided on and not been posted. -/
def Phase.notice : Phase → Option Notice
  | .clearing n _ | .posting n _ => some n
  | _ => none

/-- An operation whose notice has been decided on, or posted. -/
inductive Closed (n : Notice) : Phase → Prop where
  | clearing (recheck : Bool) : Closed n (.clearing n recheck)
  | posting (recheck : Bool) : Closed n (.posting n recheck)
  | done : Closed n .done

section Verification

variable {url : UrlLib} {op : ControlOp} {srv : Client} {n : Notice} {phase : Phase}

theorem Closed.see (h : Closed n phase) (g : Bool × Option ControlEvent) :
    Closed n (phase.see url op srv g) := by
  obtain ⟨stopped, e⟩ := g
  cases e with
  | none => exact h
  | some e =>
    cases h with
    | clearing recheck =>
      cases e with
      | clear => exact .posting recheck
      | _ => exact .clearing recheck
    | posting recheck =>
      cases e with
      | post => exact .done
      | _ => exact .posting recheck
    | done => exact .done

theorem Closed.run (h : Closed n phase) (gs : List (Bool × Option ControlEvent)) :
    Closed n (run (Phase.see url op srv) phase gs) := by
  induction gs generalizing phase with
  | nil => exact h
  | cons g gs ih => exact ih (h.see g)

theorem Closed.notice_eq (h : Closed n phase) {n' : Notice} (hn : phase.notice = some n') :
    n' = n := by
  cases h with
  | clearing recheck | posting recheck => exact (Option.some.inj hn).symm
  | done => cases hn

/-- Once the verification is over its result decides the notice. -/
theorem notice_of_verified {ok : Bool} {err : Option Str}
    {gs : List (Bool × Option ControlEvent)}
    (h : (run (Phase.see url op srv) (.verified ok err) gs).notice = some n) :
    ∃ observed, n = outcome op err ok observed := by
  induction gs with
  | nil => cases h
  | cons g gs ih =>
    obtain ⟨stopped, e⟩ := g
    rw [run_cons] at h
    cases e with
    | none => exact ih h
    | some e =>
      cases e with
      | observed now reply =>
        have hclosed : Closed (outcome op err ok (checkStatusContext now reply).state)
            (Phase.see url op srv (.verified ok err) (stopped, some (.observed now reply))) :=
          .clearing true
        exact ⟨_, (hclosed.run gs).notice_eq h⟩
      | _ => exact ih h

/-- From the start of the verification on, the notice says what the verification saw. -/
theorem notice_of_verifying {err : Option Str} {gs : List (Bool × Option ControlEvent)}
    (h : (run (Phase.see url op srv) (.verifying err) gs).notice = some n) :
    ∃ observed, n = outcome op err (confirmed op gs) observed := by
  induction gs with
  | nil => cases h
  | cons g gs ih =>
    obtain ⟨stopped, e⟩ := g
    rw [run_cons] at h
    cases e with
    | none => exact ih h
    | some e =>
      cases e with
      | checked now reply =>
        cases stopped with
        | true => exact notice_of_verified h
        | false =>
          have hsee : Phase.see url op srv (.verifying err) (false, some (.checked now reply)) =
              if confirms op (checkStatusContext now reply).state then .verified true err
              else .verifying err := rfl
          rw [hsee] at h
          rw [confirmed, Bool.not_false, Bool.true_and]
          cases hconfirms : confirms op (checkStatusContext now reply).state with
          | true =>
            rw [hconfirms, if_pos rfl] at h
            exact notice_of_verified h
          | false =>
            rw [hconfirms, if_neg Bool.false_ne_true] at h
            exact ih h
      | gaveUp => exact notice_of_verified h
      | _ => exact ih h

end Verification

/-! ## Refusals -/

/-- The server has answered that it does not do the operation. -/
def Refuses (p : ControlPayload) : Prop :=
  p.success = some false ∨ (p.error ≠ [] ∧ isNotAuthenticated p.error = false)

/-- The answer asks for a sign-in. -/
def wantsSignIn (code : ℕ) (p : ControlPayload) : Bool :=
  code == 401 || code == 403 || isNotAuthenticated p.error

/-- `stringCapital(op) + " failed"` -/
def failureTitle : ControlOp → Str
  | .restart => "Restart failed".toList
  | .stop => "Stop failed".toList

/-- The titles of the notices that call an operation done. -/
def doneTitles : List Str :=
  ["Restart complete".toList, "Stop complete".toList, "Operation completed".toList]

def signInTitle : Str := "Sign-in required".toList

theorem afterControl_signIn {url : UrlLib} {srv : Client} {base : Str}
    (hurl : normalizeServerURL url srv.baseURL = .ok base) {code : ℕ} {p : ControlPayload}
    (h : wantsSignIn code p = true) :
    ∃ text, afterControl url srv (.answered code (some p)) =
      .clearing ⟨signInTitle, text⟩ false := by
  rw [afterControl, control, hurl]
  dsimp only
  by_cases hcode : code = 401 ∨ code = 403
  · rw [if_pos hcode]
    exact ⟨_, rfl⟩
  · rw [if_neg hcode]
    have hauth : isNotAuthenticated p.error = true := by
      rw [not_or] at hcode
      simpa [wantsSignIn, hcode.1, hcode.2] using h
    have herror : p.error ≠ [] := by
      intro hnil
      rw [hnil] at hauth
      exact absurd hauth (by decide)
    rw [acknowledge, if_pos herror, if_pos hauth]
    exact ⟨_, rfl⟩

/-- Any other refusal goes on to the verification, as an interruption does. -/
theorem afterControl_refused {url : UrlLib} {srv : Client} {base : Str}
    (hurl : normalizeServerURL url srv.baseURL = .ok base) {code : ℕ} {p : ControlPayload}
    (hrefuses : Refuses p) (h : wantsSignIn code p = false) :
    ∃ text, afterControl url srv (.answered code (some p)) = .verifying (some text) := by
  simp only [wantsSignIn, Bool.or_eq_false_iff, beq_eq_false_iff_ne, ne_eq] at h
  obtain ⟨⟨h401, h403⟩, hauth⟩ := h
  rw [afterControl, control, hurl]
  dsimp only
  rw [if_neg (not_or.mpr ⟨h401, h403⟩), acknowledge, hauth]
  by_cases herror : p.error = []
  · rw [if_neg (not_not_intro herror)]
    have hsuccess : p.success = some false := hrefuses.resolve_right fun hr => hr.1 herror
    rw [hsuccess]
    exact ⟨_, rfl⟩
  · rw [if_pos herror, if_neg Bool.false_ne_true]
    exact ⟨_, rfl⟩

/-- The titles at the end of an operation whose request had an error. -/
theorem outcome_title (op : ControlOp) (text : Str) (ok : Bool) (observed : ServerState) :
    (outcome op (some text) ok observed).title =
      if ok then "Operation completed".toList else "Operation not confirmed".toList := by
  cases ok with
  | true => rfl
  | false => rfl

/-- None of the titles that are left is that of a failure. -/
theorem ne_failureTitle (op : ControlOp) : ∀ title ∈ [signInTitle, "Operation completed".toList,
    "Operation not confirmed".toList], title ≠ failureTitle op := by
  cases op with
  | restart => decide
  | stop => decide

/-- The notice that an operation is about to post. -/
def posted (s : App) (i : ℕ) : Option Notice :=
  match s.controls[i]?.map Control.phase with
  | some (.posting n _) => some n
  | _ => none

theorem notice_of_posted {i : ℕ} {op : ControlOp} {srv : Client} {s : App} {phase : Phase}
    {n : Notice} (h : At i op srv s phase) (hposted : posted s i = some n) :
    phase.notice = some n := by
  rw [posted, h] at hposted
  cases phase with
  | posting n' recheck => exact hposted
  | _ => cases hposted

/-- Whatever happens after the answer: the notice of a refused operation is never the one
of a failure.  It does not call the operation done exactly if the server wants a sign-in,
or no check of the verification shows the state that the operation leads to. -/
theorem refused_never_failure (url : UrlLib) (s : App) (i : ℕ) (op : ControlOp) (srv : Client)
    (hc : s.controls[i]? = some ⟨op, srv, .request⟩) (base : Str)
    (hurl : normalizeServerURL url srv.baseURL = .ok base) (code : ℕ) (p : ControlPayload)
    (hrefuses : Refuses p) (xs : List Input) (n : Notice)
    (hposted : posted (run (step url) s
      (.control i (.answered (.answered code (some p))) :: xs)) i = some n) :
    n.title ≠ failureTitle op ∧
      (n.title ∉ doneTitles ↔ wantsSignIn code p = true ∨
        confirmed op (trace (step url) (glimpse i)
          (step url s (.control i (.answered (.answered code (some p))))) xs) = false) := by
  have hanswered := at_step url s .request (.control i (.answered (.answered code (some p)))) hc
  rw [glimpse, if_pos rfl] at hanswered
  have hend := run_trace (fun s phase x h => at_step url s phase x h) xs hanswered
  have hnotice := notice_of_posted hend hposted
  change (run _ (afterControl url srv (.answered code (some p))) _).notice = some n at hnotice
  cases hsign : wantsSignIn code p with
  | true =>
    obtain ⟨text, hafter⟩ := afterControl_signIn hurl hsign
    rw [hafter] at hnotice
    have hclosed : Closed ⟨signInTitle, text⟩ (.clearing ⟨signInTitle, text⟩ false) :=
      .clearing false
    obtain rfl := (hclosed.run _).notice_eq hnotice
    have htitle : signInTitle ∉ doneTitles := by decide
    exact ⟨ne_failureTitle op signInTitle (by simp), iff_of_true htitle (Or.inl rfl)⟩
  | false =>
    obtain ⟨text, hafter⟩ := afterControl_refused hurl hrefuses hsign
    rw [hafter] at hnotice
    obtain ⟨observed, rfl⟩ := notice_of_verifying hnotice
    rw [outcome_title, or_iff_right Bool.false_ne_true]
    cases confirmed op _ with
    | true => exact ⟨ne_failureTitle op _ (by simp), iff_of_false (by decide) (by decide)⟩
    | false => exact ⟨ne_failureTitle op _ (by simp), iff_of_true (by decide) rfl⟩

/-! A restart that the user has confirmed and the server refuses, with the answer of
`?api=server`.  The server goes on serving. -/

def serving : StatusReply :=
  .answered 200 (some ⟨"192.168.0.2".toList, "1.0".toList, [], 1, 1, 0, true, true, true, []⟩)

def restartAsked : App :=
  run (step .plain) (start defaultServerURL)
    [.poll false, .polled fun _ => (1, serving), .message (.command .restart 2 true),
      .message (.click 0 .yes []), .resume true true]

def restartRefused : ControlPayload := ⟨some false, "restart".toList, "exit status 1".toList⟩

/-- The notice of the refused restart after some more steps. -/
def restartNotice (xs : List Input) : Option Notice :=
  posted (run (step .plain) restartAsked
    (.control 0 (.answered (.answered 200 (some restartRefused))) :: xs)) 0

/-- Nothing is seen of the server before the time is over. -/
def unseen : List Input :=
  [.control 0 .gaveUp, .control 0 (.observed 9 .unreadable), .control 0 .clear]

theorem unseen_refusal_unreported : ∃ n, restartNotice unseen = some n ∧
    n.title ≠ failureTitle .restart ∧ n.title ∉ doneTitles := by
  have hsome : (restartNotice unseen).isSome = true := by decide +kernel
  obtain ⟨n, hn⟩ := Option.isSome_iff_exists.mp hsome
  have hc : restartAsked.controls[0]? = some ⟨.restart, ⟨0, defaultServerURL⟩, .request⟩ := by rfl
  have hnotice := refused_never_failure .plain restartAsked 0 .restart ⟨0, defaultServerURL⟩ hc
    defaultServerURL (by rfl) 200 restartRefused (Or.inl rfl) unseen n hn
  exact ⟨n, hn, hnotice.1, hnotice.2.mpr (Or.inr (by rfl))⟩

/-- The first check finds the server online, as it has been all the time. -/
def unchanged : List Input :=
  [.control 0 (.checked 3 serving), .control 0 (.observed 3 serving), .control 0 .clear]

theorem refused_restart_completed : Refuses restartRefused ∧
    (restartNotice unchanged).map Notice.title = some "Operation completed".toList :=
  ⟨Or.inl rfl, by decide +kernel⟩

end Launcher
end MkyBoot
