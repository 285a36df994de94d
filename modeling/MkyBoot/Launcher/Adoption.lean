import MkyBoot.Launcher.Effect

/-!
# Results of a replaced server

A new address gets a new client, and what checks of the old client bring back must not
be shown any more.  `applyResult` tells old from new by the address, so a check is taken
for a new one when its address has become the current one again meanwhile.
-/

namespace MkyBoot
namespace Launcher

open Server (Str Time)
open Machine

/-- The client of the check that a result comes from. -/
def Origin.client : Origin → Option Client
  | .launcher => none
  | .poll srv => some srv
  | .verify srv _ => some srv

/-- What is shown, and the time of the last success, are from checks of the current client,
if they are from checks at all. -/
def Current (b : Board) : Prop :=
  (∀ c, b.resultFrom.client = some c → c = b.server) ∧
    ∀ c, b.lastGoodFrom.client = some c → c = b.server

/-- The clients that checks have been or will be started on: that of the poll goroutine's
check, those of the operations that run, and those of the operations that wait for a
password. -/
def App.inFlight (s : App) : List Client :=
  s.polling.toList ++ (s.controls.filter fun c => c.phase.running).map Control.srv ++
    s.flows.filterMap Flow.client

/-- An address is adopted only when no check is in flight for it. -/
def Fresh (url : UrlLib) (s : App) (x : Input) : Prop :=
  match effect url s x with
  | .adopt baseURL => ∀ c ∈ s.inFlight, c.baseURL ≠ baseURL
  | _ => True

instance (url : UrlLib) (s : App) (x : Input) : Decidable (Fresh url s x) := by
  unfold Fresh
  split <;> infer_instance

/-! ## The checks in flight -/

theorem mem_inFlight {s : App} {c : Client} : c ∈ s.inFlight ↔ s.polling = some c ∨
    (∃ o ∈ s.controls, o.phase.running = true ∧ o.srv = c) ∨
      ∃ f ∈ s.flows, f.client = some c := by
  simp only [App.inFlight, List.mem_append, Option.mem_toList, List.mem_map,
    List.mem_filter, List.mem_filterMap, and_assoc, or_assoc]

/-- The handlers of messages start no check. -/
theorem Handled.inFlight {s t : App} {b : Board} (h : Handled s b t) {c : Client}
    (hc : c ∈ t.inFlight) : c ∈ s.inFlight := by
  rw [mem_inFlight, controls_of_work h.work, polling_of_work h.work] at hc
  rw [mem_inFlight]
  refine hc.imp_right (Or.imp_right fun hflow => ?_)
  obtain ⟨f, hf, hclient⟩ := hflow
  rcases h.flows f hf with hnone | hold
  · exact absurd (hnone.symm.trans hclient) (by simp)
  · exact ⟨f, hold, hclient⟩

theorem inFlight_setPhase {s t : App} {i : ℕ} {o : Control} (ho : s.controls[i]? = some o)
    (hwork : t.work = s.work) (hdialogs : t.dialogs = s.dialogs) {phase : Phase}
    (hrunning : phase.running = true → o.phase.running = true) {c : Client}
    (hc : c ∈ (t.setPhase i o phase).inFlight) : c ∈ s.inFlight := by
  rw [mem_inFlight] at hc ⊢
  rcases hc with hpolling | ⟨o', ho', hrun, hsrv⟩ | ⟨f, hf, hclient⟩
  · exact Or.inl ((polling_of_work hwork).symm.trans hpolling)
  · refine Or.inr (Or.inl ?_)
    rcases List.mem_or_eq_of_mem_set ho' with hold | rfl
    · exact ⟨o', controls_of_work hwork ▸ hold, hrun, hsrv⟩
    · exact ⟨o, List.mem_of_getElem? ho, hrunning hrun, hsrv⟩
  · change f ∈ t.dialogs.map Dialog.flow at hf
    rw [hdialogs] at hf
    exact Or.inr (Or.inr ⟨f, hf, hclient⟩)

/-- A step of an operation does not make it run again. -/
theorem Moved.inFlight {s t : App} {i : ℕ} {o : Control} {e : Effect} (h : Moved s i o e t)
    (ho : s.controls[i]? = some o) {c : Client} (hc : c ∈ t.inFlight) : c ∈ s.inFlight := by
  cases h with
  | idle => exact hc
  | on hwork hdialogs hrunning heffect =>
    exact inFlight_setPhase ho hwork hdialogs (fun hrun => hrunning.symm.trans hrun) hc
  | off hwork hdialogs hrunning =>
    exact inFlight_setPhase ho hwork hdialogs
      (fun hrun => absurd (hrunning.symm.trans hrun) Bool.false_ne_true) hc

theorem launch_inFlight (s : App) (op : ControlOp) (srv : Client) (password : Str) {c : Client}
    (hc : c ∈ (s.launch op srv password).inFlight) : c ∈ s.inFlight ∨ c = srv := by
  rw [mem_inFlight] at hc ⊢
  rcases hc with hpolling | ⟨o, ho, hrun, hsrv⟩ | hflow
  · exact Or.inl (Or.inl hpolling)
  · rcases List.mem_append.mp ho with hold | hnew
    · exact Or.inl (Or.inr (Or.inl ⟨o, hold, hrun, hsrv⟩))
    · obtain rfl := List.mem_singleton.mp hnew
      exact Or.inr hsrv.symm
  · exact Or.inl (Or.inr (Or.inr hflow))

theorem runDialog_inFlight (s : App) (opens : Bool) (flow : Flow) (title text : Str) {c : Client}
    (hc : c ∈ (s.runDialog opens flow title text).inFlight) :
    c ∈ s.inFlight ∨ flow.client = some c := by
  have hwork := runDialog_work s opens flow title text
  rw [mem_inFlight, controls_of_work hwork, polling_of_work hwork] at hc
  rw [mem_inFlight]
  rcases hc with hpolling | hcontrol | ⟨f, hf, hclient⟩
  · exact Or.inl (Or.inl hpolling)
  · exact Or.inl (Or.inr (Or.inl hcontrol))
  · rcases runDialog_flows s opens flow title text hf with rfl | hold
    · exact Or.inr hclient
    · exact Or.inl (Or.inr (Or.inr ⟨f, hold, hclient⟩))

/-- What follows a dialog starts checks on the current client or on the one that has waited
for the dialog. -/
theorem proceed_inFlight (s : App) (d : Dialog) (session opens : Bool) {c : Client}
    (hc : c ∈ (s.proceed d session opens).inFlight) :
    c ∈ s.inFlight ∨ d.flow.client = some c ∨ c = s.server := by
  unfold App.proceed at hc
  cases hflow : d.flow with
  | notice =>
    rw [hflow] at hc
    exact Or.inl hc
  | confirm op =>
    rw [hflow] at hc
    dsimp only at hc
    repeat' split at hc
    · exact (launch_inFlight s op s.server [] hc).imp_right Or.inr
    · refine (runDialog_inFlight s opens _ _ _ hc).imp_right fun hclient => Or.inr ?_
      exact (Option.some.inj hclient).symm
    · exact Or.inl hc
  | signIn op srv =>
    rw [hflow] at hc
    dsimp only at hc
    split at hc
    · exact (launch_inFlight s op srv d.password hc).imp_right fun hsrv =>
        Or.inl (congrArg some hsrv.symm)
    · exact Or.inl hc

theorem resume_inFlight (s : App) (session opens : Bool) {c : Client}
    (hc : c ∈ (s.resume session opens).inFlight) : c ∈ s.inFlight ∨ c = s.server := by
  unfold App.resume at hc
  cases hdialogs : s.dialogs with
  | nil =>
    rw [hdialogs] at hc
    exact Or.inl hc
  | cons d ds =>
    rw [hdialogs] at hc
    dsimp only at hc
    have hflows : s.flows = d.flow :: ds.map Dialog.flow := by
      rw [App.flows, hdialogs]
      rfl
    split at hc
    · exact Or.inl hc
    · rcases proceed_inFlight _ d session opens hc with hold | hclient | hserver
      · refine Or.inl (mem_inFlight.mpr ((mem_inFlight.mp hold).imp_right (Or.imp_right ?_)))
        intro hflow
        obtain ⟨f, hf, hclient⟩ := hflow
        exact ⟨f, hflows ▸ List.mem_cons_of_mem _ hf, hclient⟩
      · exact Or.inl (mem_inFlight.mpr
          (Or.inr (Or.inr ⟨d.flow, hflows ▸ List.mem_cons_self, hclient⟩)))
      · exact Or.inr hserver

theorem startPoll_inFlight (s : App) (tick : Bool) {c : Client}
    (hc : c ∈ (s.startPoll tick).inFlight) : c ∈ s.inFlight ∨ c = s.server := by
  unfold App.startPoll at hc
  split at hc
  · exact Or.inl hc
  · rcases mem_inFlight.mp hc with hpolling | hrest
    · exact Or.inr (Option.some.inj hpolling).symm
    · exact Or.inl (mem_inFlight.mpr (Or.inr hrest))

theorem endPoll_inFlight (s : App) (reply : ℕ → Time × StatusReply) {c : Client}
    (hc : c ∈ (s.endPoll reply).inFlight) : c ∈ s.inFlight := by
  unfold App.endPoll at hc
  repeat' split at hc
  · exact hc
  all_goals
    rcases mem_inFlight.mp hc with hpolling | hrest
    · exact absurd hpolling (by simp [App.applyResult])
    · exact mem_inFlight.mpr (Or.inr hrest)

/-- New checks are started on the current client. -/
theorem inFlight_step (url : UrlLib) (s : App) (x : Input) {c : Client}
    (hc : c ∈ (step url s x).inFlight) :
    c ∈ s.inFlight ∨ c = s.server ∧ ∀ baseURL, effect url s x ≠ .adopt baseURL := by
  cases x with
  | poll tick => exact (startPoll_inFlight s tick hc).imp_right fun h => ⟨h, by simp [effect]⟩
  | polled reply => exact Or.inl (endPoll_inFlight s reply hc)
  | control i e =>
    change c ∈ (s.turn url i e).inFlight at hc
    unfold App.turn at hc
    cases ho : s.controls[i]? with
    | none =>
      rw [ho] at hc
      exact Or.inl hc
    | some o =>
      rw [ho] at hc
      exact Or.inl ((moved_advance url s i o e).inFlight ho hc)
  | message m =>
    unfold step at hc
    dsimp only at hc
    split at hc
    · exact Or.inl ((handled_handle url s m).inFlight hc)
    · exact Or.inl hc
  | resume session opens =>
    refine (resume_inFlight s session opens hc).imp_right fun h => ⟨h, fun baseURL heff => ?_⟩
    change resumeEffect s session = _ at heff
    rcases resumeEffect_cases s session with hnone | ⟨op, srv, password, hlaunch⟩
    · exact absurd (hnone.symm.trans heff) (by simp)
    · exact absurd (hlaunch.symm.trans heff) (by simp)
  | shutDown =>
    change c ∈ s.shutDown.inFlight at hc
    unfold App.shutDown at hc
    split at hc
    · exact Or.inl hc
    · exact Or.inl hc

/-! ## The current client -/

theorem Current.applyResult {b : Board} (h : Current b) {baseURL : Str} (res : CheckResult)
    {source : Origin}
    (hsource : b.server.baseURL = baseURL → ∀ c, source.client = some c → c = b.server) :
    Current (b.applyResult baseURL res source) := by
  unfold Board.applyResult
  split
  · exact h
  · next hurl =>
    have hcurrent := hsource (not_not.mp hurl)
    split
    · exact ⟨hcurrent, hcurrent⟩
    · exact ⟨hcurrent, h.2⟩

/-- A result that is stored comes from a check in flight, if it comes from a check. -/
theorem Stores.client {s : App} {x : Input} {baseURL : Str} {res : CheckResult} {source : Origin}
    (h : Stores s x baseURL res source) {c : Client} (hc : source.client = some c) :
    c ∈ s.inFlight ∧ c.baseURL = baseURL := by
  cases h with
  | command op now opens hready hadmits | status now hready =>
    exact absurd hc (by simp [Origin.client])
  | polled reply hpolling hstopped =>
    obtain rfl := Option.some.inj hc
    exact ⟨mem_inFlight.mpr (Or.inl hpolling), rfl⟩
  | checked now reply ho hphase hstopped =>
    obtain rfl := Option.some.inj hc
    refine ⟨mem_inFlight.mpr (Or.inr (Or.inl ⟨_, List.mem_of_getElem? ho, ?_, rfl⟩)), rfl⟩
    rw [hphase]
    rfl

/-- A check in flight for the current address is one of the current client. -/
structure Settled (s : App) : Prop where
  current : Current s.toBoard
  others : ∀ c ∈ s.inFlight, c.baseURL = s.server.baseURL → c = s.server

theorem settled_start (baseURL : Str) : Settled (start baseURL) where
  current := ⟨fun _ hc => absurd hc (by simp [start, Origin.client]),
    fun _ hc => absurd hc (by simp [start, Origin.client])⟩
  others := fun c hc => absurd hc (by simp [App.inFlight, App.flows, start])

theorem Settled.step (url : UrlLib) {s : App} (h : Settled s) {x : Input} (hx : Fresh url s x) :
    Settled (step url s x) := by
  have hboard := step_toBoard url s x
  -- a step that does not adopt an address keeps the client
  have hkeep (hadopt : ∀ baseURL, effect url s x ≠ .adopt baseURL)
      (hcurrent : Current (s.toBoard.after (effect url s x)))
      (hserver : (s.toBoard.after (effect url s x)).server = s.server) :
      Settled (Launcher.step url s x) := by
    refine ⟨hboard ▸ hcurrent, fun c hc hurl => ?_⟩
    rw [hboard, hserver] at hurl ⊢
    rcases inFlight_step url s x hc with hold | ⟨hnew, _⟩
    · exact h.others c hold hurl
    · exact hnew
  unfold Fresh at hx
  cases heff : effect url s x with
  | none => exact hkeep (by simp [heff]) (heff ▸ h.current) (by rw [heff]; rfl)
  | store baseURL res source =>
    refine hkeep (by simp [heff]) ?_ (by rw [heff]; exact applyResult_server _ _ _ _)
    rw [heff]
    refine h.current.applyResult res fun hurl c hc => ?_
    obtain ⟨hflight, hcurl⟩ := (stores_of_effect heff).client hc
    exact h.others c hflight (hcurl.trans hurl.symm)
  | adopt baseURL =>
    rw [heff] at hx hboard
    refine ⟨?_, fun c hc hurl => ?_⟩
    · rw [hboard]
      exact ⟨fun _ hc => absurd hc (by simp [Board.after, Board.adopt, Origin.client]),
        fun _ hc => absurd hc (by simp [Board.after, Board.adopt, Origin.client])⟩
    · rw [hboard] at hurl
      rcases inFlight_step url s x hc with hold | ⟨_, hadopt⟩
      · exact absurd hurl (hx c hold)
      · exact absurd heff (hadopt baseURL)
  | launch op srv password | finish i =>
    exact hkeep (by simp [heff]) (heff ▸ h.current) (by rw [heff]; rfl)

/-- As long as no address is adopted for which a check of an earlier client is in flight, what
is shown is from checks of the current client. -/
theorem results_current (url : UrlLib) (baseURL : Str) {xs : List Input}
    (hx : Along (step url) (Fresh url) (start baseURL) xs) :
    Throughout (step url) (fun s => Current s.toBoard) (start baseURL) xs :=
  (throughout_of_along (fun _ _ hs hx => hs.step url hx) (settled_start baseURL) hx).mono
    fun _ hs => hs.current

/-- The address is changed to another server and back, with a check of each of them. -/
def awayAndBack : List Input :=
  [.poll false, .polled fun _ => (1, .answered 500 none),
    .message (.edited "http://10.0.0.2:8888".toList none), .poll false,
    .polled fun _ => (2, .answered 500 none),
    .message (.edited "http://10.0.0.1:8888/".toList none), .poll false,
    .polled fun _ => (3, .answered 403 none)]

theorem away_and_back_current :
    (run (step .plain) (start "http://10.0.0.1:8888".toList) awayAndBack).resultFrom =
        .poll ⟨2, "http://10.0.0.1:8888".toList⟩ ∧
      Throughout (step .plain) (fun s => Current s.toBoard) (start "http://10.0.0.1:8888".toList)
        awayAndBack :=
  ⟨by decide +kernel, results_current .plain _ (by decide +kernel)⟩

/-- A slow check of the first client comes back when its address is the current one again. -/
def slowCheck : List Input :=
  [.poll false, .message (.edited "http://10.0.0.2:8888".toList none),
    .message (.edited "http://10.0.0.1:8888".toList none),
    .polled fun _ => (1, .answered 200
      (some ⟨[], [], [], 0, 0, 0, false, false, false, "Not authenticated".toList⟩))]

theorem earlier_result_shown :
    ¬ Throughout (step .plain) (fun s => Current s.toBoard) (start "http://10.0.0.1:8888".toList)
      slowCheck := by
  intro h
  have hfrom : (run (step .plain) (start "http://10.0.0.1:8888".toList) slowCheck).lastGoodFrom =
      .poll ⟨0, "http://10.0.0.1:8888".toList⟩ := by
    decide +kernel
  have hserver := (h _ List.prefix_rfl).2 ⟨0, "http://10.0.0.1:8888".toList⟩ (by rw [hfrom]; rfl)
  exact absurd hserver (by decide +kernel)

end Launcher
end MkyBoot
