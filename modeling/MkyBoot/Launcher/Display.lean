import MkyBoot.Launcher.Effect

/-!
# What the launcher shows during an operation

Two facts about the stored result.  It says Starting or Stopping only while an
operation runs; and while an operation runs it does not say Online, except where the
verification of a restart has just seen that.  Each of them holds along a run exactly
when every step of the run meets a condition, and neither condition is met by all runs:
the first result is stored before the user has confirmed anything, and the results of
the poll goroutine are stored whether an operation runs or not.
-/

namespace MkyBoot
namespace Launcher

open Server (Str Time)
open Machine

/-! ## Starting and Stopping -/

/-- A transition is shown only while an operation that the user has confirmed runs. -/
def Truthful (s : App) : Prop :=
  s.result.state.transitional = true → ∃ i, s.runs i = true

/-- `controlFlow` is called and gets past its tests. -/
def Starts (s : App) : Input → Prop
  | .message (.command _ _ _) => s.ready = true ∧ s.admits = true
  | _ => False

/-- An operation is asked for only while another one runs, and the last one that runs does
not end while a transition is shown. -/
def Warranted (url : UrlLib) (s : App) (x : Input) : Prop :=
  (Starts s x → ∃ i, s.runs i = true) ∧
    ∀ i, effect url s x = .finish i → s.result.state.transitional = true →
      ∃ j, j ≠ i ∧ s.runs j = true

theorem transient_transitional (op : ControlOp) (now : Time) :
    (transient op now).state.transitional = true := by
  cases op <;> rfl

theorem effect_of_starts (url : UrlLib) {s : App} {x : Input} (h : Starts s x) :
    ∃ op now, effect url s x = .store s.server.baseURL (transient op now) .launcher := by
  unfold Starts at h
  split at h
  · next op now opens =>
    refine ⟨op, now, ?_⟩
    unfold effect messageEffect
    dsimp only
    rw [if_pos h.1, if_pos h.2]
  · exact absurd h id

/-- Only `controlFlow` stores a transition. -/
theorem not_transitional_of_stores {s : App} {x : Input} {baseURL : Str} {res : CheckResult}
    {source : Origin} (h : Stores s x baseURL res source) (hstarts : ¬ Starts s x) :
    res.state.transitional = false := by
  cases h with
  | command op now opens hready hadmits => exact absurd ⟨hready, hadmits⟩ hstarts
  | status now hready => rfl
  | polled reply hpolling hstopped => exact checkStatusRetry_not_transitional reply
  | checked now reply hc hphase hstopped => exact checkStatusContext_not_transitional now reply

theorem truthful_step_iff (url : UrlLib) {s : App} (h : Truthful s) (x : Input) :
    Truthful (step url s x) ↔ Warranted url s x := by
  have hboard := step_toBoard url s x
  have hruns := runs_step url s x
  unfold Truthful
  rw [hboard]
  simp only [hruns]
  unfold Warranted
  -- a step that starts an operation is the only one that can store a transition
  by_cases hstarts : Starts s x
  · obtain ⟨op, now, heff⟩ := effect_of_starts url hstarts
    rw [heff]
    show ((s.toBoard.applyResult _ _ _).result.state.transitional = true → ∃ i, s.runs i = true) ↔ _
    rw [applyResult_result, if_pos rfl]
    simp [transient_transitional, hstarts]
  · cases heff : effect url s x with
    | none => exact iff_of_true h (by simp [hstarts])
    | store baseURL res source =>
      have hres := not_transitional_of_stores (stores_of_effect heff) hstarts
      refine iff_of_true ?_ (by simp [hstarts])
      show (s.toBoard.applyResult _ _ _).result.state.transitional = true → ∃ i, s.runs i = true
      rw [applyResult_result]
      split
      · rw [hres]
        exact fun hfalse => absurd hfalse Bool.false_ne_true
      · exact h
    | adopt baseURL =>
      refine iff_of_true (fun hfalse => absurd hfalse ?_) (by simp [hstarts])
      exact Bool.false_ne_true
    | launch op srv password =>
      refine iff_of_true (fun _ => ⟨s.controls.length, ?_⟩) (by simp [hstarts])
      simp [App.runsAfter]
    | finish i =>
      simp [hstarts, Board.after, Board.setBusy, App.runsAfter, and_comm]

theorem truthful_start (baseURL : Str) : Truthful (start baseURL) :=
  fun h => absurd h Bool.false_ne_true

/-- The launcher says Starting or Stopping only during an operation exactly in the runs in
which no operation is asked for unless another one runs, and none ends with a transition
shown unless another one runs. -/
theorem transitions_truthful_iff (url : UrlLib) (baseURL : Str) (xs : List Input) :
    Throughout (step url) Truthful (start baseURL) xs ↔
      Along (step url) (Warranted url) (start baseURL) xs :=
  throughout_iff_along (fun _ x hs => truthful_step_iff url hs x) (truthful_start baseURL)

/-- A server that is up and wants a sign-in. -/
def signInWanted : StatusReply :=
  .answered 200 (some ⟨[], [], [], 0, 0, 0, false, false, false, "Not authenticated".toList⟩)

/-- The user asks for a restart and then answers No. -/
def cancelledRestart : List Input :=
  [.poll false, .polled fun _ => (1, signInWanted), .message (.command .restart 2 true),
    .message (.click 0 .no []), .resume false true]

/-- After the answer the launcher goes on saying Starting. -/
theorem cancelled_restart_shown :
    ¬ Throughout (step .plain) Truthful (start defaultServerURL) cancelledRestart := by
  intro h
  obtain ⟨i, hi⟩ := h _ List.prefix_rfl (by decide +kernel)
  have hnone : (run (step .plain) (start defaultServerURL) cancelledRestart).controls = [] :=
    List.isEmpty_iff.mp (by decide +kernel)
  rw [App.runs, hnone] at hi
  exact absurd hi (by simp)

/-! ## Online -/

/-- While an operation runs, Online is not shown unless the verification of a restart has
just seen it. -/
def Unclaimed (b : Board) : Prop :=
  b.busy = true → b.result.state = .online → ∃ srv, b.resultFrom = .verify srv .restart

/-- While an operation runs, the poll goroutine does not find the server online, and the
verification of a stop does not either; and no operation is launched with Online shown.
Checks of another address, and those that come back after the end, do not count. -/
def Quiet (s : App) : Input → Prop
  | .polled reply =>
    s.busy = true → s.stopped = false → ∀ srv, s.polling = some srv →
      srv.baseURL = s.server.baseURL → (checkStatusRetry reply).state ≠ .online
  | .control i (.checked now reply) =>
    s.busy = true → s.stopped = false → ∀ c err, s.controls[i]? = some c →
      c.phase = .verifying err → c.srv.baseURL = s.server.baseURL → c.op = .stop →
        (checkStatusContext now reply).state ≠ .online
  | .resume session _ =>
    (∃ op srv password, resumeEffect s session = .launch op srv password) →
      s.result.state = .online → ∃ srv, s.resultFrom = .verify srv .restart
  | _ => True

theorem unclaimed_applyResult_iff {b : Board} (h : Unclaimed b) (baseURL : Str)
    (res : CheckResult) (source : Origin) :
    Unclaimed (b.applyResult baseURL res source) ↔
      (b.busy = true → b.server.baseURL = baseURL → res.state = .online →
        ∃ srv, source = .verify srv .restart) := by
  unfold Unclaimed
  rw [applyResult_busy, applyResult_result, applyResult_resultFrom]
  by_cases hurl : b.server.baseURL = baseURL
  · rw [if_pos hurl, if_pos hurl]
    exact forall_congr' fun _ => ⟨fun hstore _ => hstore, fun hstore => hstore hurl⟩
  · rw [if_neg hurl, if_neg hurl]
    exact iff_of_true h fun _ hfalse => absurd hfalse hurl

theorem quiet_polled_iff {s : App} (h : Unclaimed s.toBoard) (reply : ℕ → Time × StatusReply) :
    Unclaimed (s.toBoard.after (pollEffect s reply)) ↔ Quiet s (.polled reply) := by
  unfold pollEffect
  cases hpolling : s.polling with
  | none => exact iff_of_true h fun _ _ srv hsrv => absurd (hpolling.symm.trans hsrv) (by simp)
  | some srv =>
    dsimp only
    cases hstopped : s.stopped with
    | true => exact iff_of_true h fun _ hfalse => absurd (hstopped.symm.trans hfalse) (by simp)
    | false =>
      rw [if_neg Bool.false_ne_true]
      refine (unclaimed_applyResult_iff h _ _ _).trans ⟨?_, ?_⟩
      · intro hstore hbusy _ srv' hsrv' hurl honline
        obtain rfl : srv = srv' := Option.some.inj (hpolling.symm.trans hsrv')
        obtain ⟨_, hverify⟩ := hstore hbusy hurl.symm honline
        exact absurd hverify (by simp)
      · intro hquiet hbusy hurl honline
        exact absurd honline (hquiet hbusy hstopped srv hpolling hurl.symm)

theorem quiet_checked_iff {s : App} (h : Unclaimed s.toBoard) (i : ℕ) (now : Time)
    (reply : StatusReply) :
    Unclaimed (s.toBoard.after (turnEffect s i (.checked now reply))) ↔
      Quiet s (.control i (.checked now reply)) := by
  unfold turnEffect
  cases hc : s.controls[i]? with
  | none =>
    exact iff_of_true h fun _ _ c err hsome => absurd (hc.symm.trans hsome) (by simp)
  | some c =>
    have hother (hphase : ∀ err, c.phase ≠ .verifying err) :
        Quiet s (.control i (.checked now reply)) := by
      intro _ _ c' err hc' hverifying
      obtain rfl : c = c' := Option.some.inj (hc.symm.trans hc')
      exact absurd hverifying (hphase err)
    show Unclaimed (s.toBoard.after (controlEffect s i c c.phase (.checked now reply))) ↔ _
    cases hphase : c.phase with
    | verifying err =>
      unfold controlEffect
      dsimp only
      cases hstopped : s.stopped with
      | true => exact iff_of_true h fun _ hfalse => absurd (hstopped.symm.trans hfalse) (by simp)
      | false =>
        rw [if_neg Bool.false_ne_true]
        refine (unclaimed_applyResult_iff h _ _ _).trans ⟨?_, ?_⟩
        · intro hstore hbusy _ c' err' hc' _ hurl hop honline
          obtain rfl : c = c' := Option.some.inj (hc.symm.trans hc')
          obtain ⟨_, hverify⟩ := hstore hbusy hurl.symm honline
          exact absurd hverify (by simp [hop])
        · intro hquiet hbusy hurl honline
          cases hop : c.op with
          | restart => exact ⟨c.srv, rfl⟩
          | stop => exact absurd honline (hquiet hbusy hstopped c err hc hphase hurl.symm hop)
    | login _ | request | verified _ _ | clearing _ _ | posting _ _ | done =>
      exact iff_of_true h (hother (by simp [hphase]))

theorem unclaimed_message (url : UrlLib) {s : App} (h : Unclaimed s.toBoard) (m : Message) :
    Unclaimed (s.toBoard.after (effect url s (.message m))) := by
  cases heff : effect url s (.message m) with
  | none => exact h
  | store baseURL res source =>
    refine (unclaimed_applyResult_iff h _ _ _).mpr fun _ _ honline => absurd honline ?_
    cases stores_of_effect heff with
    | command op now opens hready hadmits => cases op <;> simp [transient, CheckResult.plain]
    | status now hready => simp [CheckResult.plain]
  | adopt baseURL =>
    refine fun _ honline => absurd honline ?_
    simp [Board.after, Board.adopt, CheckResult.plain]
  | launch op srv password =>
    unfold effect messageEffect addressEffect at heff
    dsimp only at heff
    repeat' split at heff
    all_goals cases heff
  | finish i => exact fun hbusy => absurd hbusy Bool.false_ne_true

theorem unclaimed_step_iff (url : UrlLib) {s : App} (h : Unclaimed s.toBoard) (x : Input) :
    Unclaimed (step url s x).toBoard ↔ Quiet s x := by
  rw [step_toBoard]
  cases x with
  | poll tick => exact iff_of_true h trivial
  | polled reply => exact quiet_polled_iff h reply
  | control i e =>
    cases e with
    | checked now reply => exact quiet_checked_iff h i now reply
    | loggedIn _ | answered _ | gaveUp | observed _ _ | clear | post =>
      refine iff_of_true ?_ trivial
      show Unclaimed (s.toBoard.after (turnEffect s i _))
      unfold turnEffect controlEffect
      repeat' split
      all_goals first
        | exact h
        | exact fun hbusy => absurd hbusy Bool.false_ne_true
        | contradiction
  | message m => exact iff_of_true (unclaimed_message url h m) trivial
  | resume session opens =>
    show Unclaimed (s.toBoard.after (resumeEffect s session)) ↔ _
    rcases resumeEffect_cases s session with hnone | ⟨op, srv, password, hlaunch⟩
    · rw [hnone]
      refine iff_of_true h fun hsome => ?_
      obtain ⟨op, srv, password, hlaunch⟩ := hsome
      exact absurd (hnone.symm.trans hlaunch) (by simp)
    · rw [hlaunch]
      exact ⟨fun hafter _ => hafter rfl, fun hquiet _ => hquiet ⟨op, srv, password, hlaunch⟩⟩
  | shutDown => exact iff_of_true h trivial

/-- While an operation runs Online is not shown, unless it is what the verification of a
restart has seen, exactly in the runs in which the polls and the verification of a stop do
not find the server online meanwhile and Online is not shown when an operation is
launched. -/
theorem online_unclaimed_iff (url : UrlLib) (baseURL : Str) (xs : List Input) :
    Throughout (step url) (fun s => Unclaimed s.toBoard) (start baseURL) xs ↔
      Along (step url) Quiet (start baseURL) xs :=
  throughout_iff_along (fun _ x hs => unclaimed_step_iff url hs x)
    fun hbusy => absurd hbusy Bool.false_ne_true

/-- A check that the poll goroutine has started before the user confirms a restart and signs
in comes back while the restart runs. -/
def restartDuringPoll : List Input :=
  [.poll false, .polled fun _ => (1, signInWanted), .message (.command .restart 2 true),
    .poll true, .message (.click 0 .yes []), .resume false true,
    .message (.click 0 .ok "secret".toList), .resume false true,
    .polled fun _ => (3, signInWanted)]

theorem online_during_restart :
    ¬ Throughout (step .plain) (fun s => Unclaimed s.toBoard) (start defaultServerURL)
      restartDuringPoll := by
  intro h
  obtain ⟨srv, hsrv⟩ := h _ List.prefix_rfl (by decide +kernel) (by decide +kernel)
  have hpoll : (run (step .plain) (start defaultServerURL) restartDuringPoll).resultFrom =
      .poll ⟨0, defaultServerURL⟩ := by
    decide +kernel
  exact absurd (hpoll.symm.trans hsrv) (by simp)

end Launcher
end MkyBoot
