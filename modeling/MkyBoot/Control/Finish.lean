import MkyBoot.Control.Artefact

/-!
# Boots that finish

Six loops of the boot branch wait for the system.  Those of `nbdConnect` are not
entered, and a child's users are gone after one round.  The loop of `zfsmount` looks
for the client's snapshot in `/etc/mtab`, taking its name for a pattern, and the one
of `LunAdd` waits for a target that only `tgtstart` creates, for an enabled
workstation and under a number that is free.  `boot_halts_iff` says for every
configuration and every state when both are left.
-/

namespace MkyBoot
namespace Control
namespace Station

open Lua Command Lua.Prog

def SameTargets (s t : World) : Prop := t.targets = s.targets

theorem SameTargets.refl (s : World) : SameTargets s s := rfl

theorem SameTargets.trans (s t u : World) (h : SameTargets s t) (h' : SameTargets t u) :
    SameTargets s u := Eq.trans h' h

theorem sameTargets_call {c : Command.Call} (h : onTargets c = false) (s : World) :
    SameTargets s (call c s) := call_targets c s h

/-! ## `mkChild` -/

section

variable (env : Env) (cfg : Config) (w : Workstation)

theorem imgUsed_lsofkill (c : Val) (s : World) : imgUsed (lsofkill c s) c = false := by
  unfold imgUsed
  by_cases haccepts : accepts (.imageUsed c) = true
  · rw [haccepts, Bool.true_and]
    rw [accepts, Bool.and_eq_true] at haccepts
    cases c with
    | str n =>
      rw [lsofkill, if_pos haccepts.2]
      simp [World.uses, World.release, tostring]
    | nil | bool _ | num _ | other =>
      exact absurd haccepts.2 (by simp [Valid.safePath, Valid.onStr])
  · rw [Bool.not_eq_true _ |>.mp haccepts, Bool.false_and]

theorem sameTargets_lsofkill (c : Val) (s : World) : SameTargets s (lsofkill c s) := by
  unfold lsofkill
  split
  · split <;> rfl
  · rfl

theorem sameTargets_imgDelete (c : Val) (s : World) : SameTargets s (imgDelete c s) := by
  unfold imgDelete
  split
  · split <;> rfl
  · rfl

theorem returns_skip : Returns SameTargets (skip : Prog World) := Returns.set SameTargets.refl

theorem returns_freeChild (c : Val) : Returns SameTargets (freeChild c) :=
  Returns.seq SameTargets.trans
    (Returns.poll_once SameTargets.refl (sameTargets_lsofkill c) (imgUsed_lsofkill c))
    (Returns.set (sameTargets_imgDelete c))

theorem returns_createChild (i : ℕ) (v : Image) {vars : Vars}
    (hparent : vars.parent ≠ .nil → ∀ s, isFile env s vars.parent = true) :
    Returns SameTargets (createChild env cfg w i v vars) := by
  have hmake (s : World) : SameTargets s (call (.imageChild vars.parent vars.child) s) :=
    sameTargets_call rfl s
  refine Returns.cond (Returns.seq SameTargets.trans (returns_freeChild _) ?_) <|
    Returns.cond ?_ <| Returns.cond ?_ <| Returns.seq SameTargets.trans
      (Returns.cond (Returns.seq SameTargets.trans (returns_freeChild _) ?_) returns_skip) ?_
  · exact Returns.set hmake
  · exact Returns.set fun s => hmake _
  · exact Returns.set fun s => rfl
  · refine Returns.set fun s => ?_
    split <;> rfl
  · split
    · rename_i hset
      refine Returns.seq SameTargets.trans (Returns.poll_false SameTargets.refl fun s => ?_)
        (Returns.set hmake)
      rw [hparent hset.1 s, Bool.not_true]
    · exact returns_skip

theorem returns_mkChild
    (hparents : ∀ v ∈ w.img, ∀ p, IsParent cfg w v p →
      findParent cfg w .unset v = ⟨.str p, .str (child cfg w v)⟩ → env.present p = true) :
    Returns SameTargets (mkChild env cfg w) := by
  unfold mkChild
  split
  · refine Returns.each SameTargets.refl SameTargets.trans fun e he => ?_
    unfold mkImage
    split
    · rw [varsAt_eq]
      refine returns_createChild env cfg w e.2 e.1 fun hne s => ?_
      obtain h | ⟨p, hp, h⟩ := findParent_cases cfg w e.1
      · rw [h] at hne
        exact absurd rfl hne
      · have hmem : e.1 ∈ w.img := List.fst_mem_of_mem_zipIdx he
        rw [h, isFile, hparents e.1 hmem p hp h, Bool.true_or]
    · exact returns_skip
  · exact returns_skip

/-! ## `nbdConnect` -/

theorem returns_nbdConnect : Returns SameTargets (nbdConnect env cfg w) := by
  intro s
  refine ⟨_, (ends_nbdConnect env cfg w s _).mpr rfl,
    foldl_within SameTargets.refl SameTargets.trans (fun s e _ => ?_) s⟩
  unfold connectImage
  dsimp only
  split
  · exact sameTargets_call rfl (setNbd _ _ s)
  · rfl

/-! ## Targets

`tgtstop` deletes the target with the workstation's number when it finds one with the
workstation's name, which may be another one. -/

theorem tgtUsed_congr {s t : World} (h : t.targets = s.targets) (name : Str) :
    tgtUsed env t name = tgtUsed env s name := by
  rw [tgtUsed, tgtUsed, h]

theorem call_refused {c : Command.Call} (h : ¬ accepts c = true) (s : World) :
    SameTargets s (call c s) := by
  rw [call, if_neg h]
  rfl

theorem tonumber_of_tid {tid : Val} (h : Valid.tid tid = true) : ∃ q, tonumber tid = some q := by
  cases hq : tonumber tid with
  | none =>
    rw [Valid.tid, Valid.inRange, hq] at h
    exact absurd h Bool.false_ne_true
  | some q => exact ⟨q, rfl⟩

theorem mem_tgtKill {tid : Val} {s : World} {x : ℚ × Str} : x ∈ (call (.tgtKill tid) s).targets ↔
    x ∈ s.targets ∧ ¬ (Valid.tid tid = true ∧ tonumber tid = some x.1) := by
  by_cases htid : Valid.tid tid = true
  · obtain ⟨q, hq⟩ := tonumber_of_tid htid
    rw [call, if_pos (show accepts (.tgtKill tid) = true from htid), effect, hq]
    show x ∈ s.targets.filter (·.1 != q) ↔ _
    rw [List.mem_filter, bne_iff_ne, Option.some.injEq, and_iff_right htid, ne_comm]
  · rw [call_refused (c := .tgtKill tid) htid]
    exact ⟨fun h => ⟨h, fun h' => htid h'.1⟩, And.left⟩

theorem tgtKill_eq_self {tid : Val} {s : World}
    (h : ∀ x ∈ s.targets, ¬ (Valid.tid tid = true ∧ tonumber tid = some x.1)) :
    (call (.tgtKill tid) s).targets = s.targets := by
  by_cases htid : Valid.tid tid = true
  · obtain ⟨q, hq⟩ := tonumber_of_tid htid
    rw [call, if_pos (show accepts (.tgtKill tid) = true from htid), effect, hq]
    show s.targets.filter (·.1 != q) = s.targets
    rw [List.filter_eq_self]
    intro x hx
    rw [bne_iff_ne]
    exact fun hxq => h x hx ⟨htid, hxq ▸ hq⟩
  · exact call_refused (c := .tgtKill tid) htid s

theorem tgtUsed_iff {s : World} {name : Str} : tgtUsed env s name = true ↔
    accepts (.tgtUsed (.str name)) = true ∧ ∃ t ∈ s.targets, env.grep name t.2 = true := by
  rw [tgtUsed, Bool.and_eq_true, List.any_eq_true]

theorem tgtstop_of_used (hserved : scCheck env cfg = true) {s : World}
    (h : tgtUsed env s (target cfg w) = true) : tgtstop env cfg w s = call (.tgtKill w.tid) s := by
  rw [tgtstop, hserved, h]
  rfl

theorem tgtstop_of_not_used {s : World} (h : ¬ tgtUsed env s (target cfg w) = true) :
    tgtstop env cfg w s = s := by
  rw [tgtstop, Bool.not_eq_true _ |>.mp h, Bool.and_false]
  rfl

/-- Stopping the target changes nothing. -/
def Stopped (s : World) : Prop := (tgtstop env cfg w s).targets = s.targets

theorem call_targets_congr (c : Command.Call) {s t : World} (h : t.targets = s.targets) :
    (call c t).targets = (call c s).targets := by
  have hrecord (e : Event) : (t.record e).targets = (s.record e).targets := h
  by_cases hon : onTargets c = true
  · unfold call
    split
    · cases c with
      | tgtNew opt tid => simp only [effect, World.newTarget, hrecord]
      | tgtKill tid => simp only [effect, World.killTarget, hrecord]
      | _ => exact absurd hon (by simp [onTargets])
    · exact h
  · have hoff := Bool.not_eq_true _ |>.mp hon
    rw [call_targets c t hoff, call_targets c s hoff, h]

theorem tgtstop_congr {s t : World} (h : t.targets = s.targets) :
    (tgtstop env cfg w t).targets = (tgtstop env cfg w s).targets := by
  unfold tgtstop
  rw [tgtUsed_congr env h]
  split
  · exact call_targets_congr _ h
  · exact h

theorem stopped_tgtstop (s : World) : Stopped env cfg w (tgtstop env cfg w s) := by
  unfold Stopped
  by_cases hused : (scCheck env cfg && tgtUsed env (tgtstop env cfg w s) (target cfg w)) = true
  · rw [tgtstop, if_pos hused]
    refine tgtKill_eq_self fun x hx => ?_
    unfold tgtstop at hx
    split at hx
    · exact (mem_tgtKill.mp hx).2
    · rename_i h
      rw [tgtstop, if_neg h] at hused
      exact absurd hused h
  · rw [tgtstop, if_neg hused]

/-- A stopped workstation's targets stay. -/
def KeepsStopped (s t : World) : Prop := Stopped env cfg w s → SameTargets s t

theorem KeepsStopped.refl (s : World) : KeepsStopped env cfg w s s := fun _ => rfl

theorem KeepsStopped.trans (s t u : World) (h : KeepsStopped env cfg w s t)
    (h' : KeepsStopped env cfg w t u) : KeepsStopped env cfg w s u := by
  intro hs
  have hst := h hs
  refine SameTargets.trans s t u hst (h' ?_)
  show (tgtstop env cfg w t).targets = t.targets
  rw [tgtstop_congr env cfg w hst, hs, hst]

theorem keepsStopped_nbdFree (s : World) : KeepsStopped env cfg w s (nbdFree env cfg w s) := by
  refine foldl_within (KeepsStopped.refl env cfg w) (KeepsStopped.trans env cfg w)
    (fun s e _ hs => ?_) s
  unfold nbdFreeImage
  split
  · show (call _ _).targets = s.targets
    rw [call_targets _ _ rfl, ← hs]
    exact tgtstop_congr env cfg w rfl
  · rfl

theorem acts_keepsStopped_zfsmount :
    (zfsmount env cfg w).Acts (Within (KeepsStopped env cfg w)) := by
  have hcall {c : Command.Call} (h : onTargets c = false) (s : World) :
      KeepsStopped env cfg w s (call c s) := fun _ => sameTargets_call h s
  have htrans {s t u : World} := KeepsStopped.trans env cfg w s t u
  refine ⟨within_set fun s => ?_, within_set fun s => ?_, within_set fun s => ?_⟩
  · exact htrans (keepsStopped_nbdFree env cfg w s) (htrans (hcall rfl _) (hcall rfl _))
  · exact htrans (hcall rfl s) (hcall rfl _)
  · refine foldl_within (KeepsStopped.refl env cfg w) (KeepsStopped.trans env cfg w)
      (fun s v _ => ?_) s
    unfold snapVolume
    split
    · exact htrans (hcall rfl s) (hcall rfl _)
    · exact KeepsStopped.refl env cfg w s

/-! ## `LunAdd` -/

/-- What `tgtstart` makes of a state when it does anything. -/
def started (s : World) : World :=
  call (.tgtRules w.tid (.str w.ipv4)) (call (.tgtNew (.str (target cfg w)) w.tid) s)

/-- `tgtadm` creates the target: its wrapper accepts it, and its number is free. -/
def Creates (s : World) : Prop :=
  accepts (.tgtNew (.str (target cfg w)) w.tid) = true ∧ ∀ x ∈ s.targets, tonumber w.tid ≠ some x.1

theorem started_of_not_creates {s : World} (h : ¬ Creates cfg w s) :
    (started cfg w s).targets = s.targets := by
  rw [started, call_targets _ _ rfl]
  by_cases haccepts : accepts (.tgtNew (.str (target cfg w)) w.tid) = true
  · have htaken : ∃ x ∈ s.targets, tonumber w.tid = some x.1 := by
      by_contra hfree
      exact h ⟨haccepts, fun x hx hq => hfree ⟨x, hx, hq⟩⟩
    obtain ⟨x, hx, hq⟩ := htaken
    rw [call, if_pos haccepts, effect, World.newTarget, hq]
    have hany : s.targets.any (·.1 == x.1) = true :=
      List.any_eq_true.mpr ⟨x, hx, beq_self_eq_true _⟩
    show (if s.targets.any (·.1 == x.1) = true then s.targets else _) = s.targets
    rw [if_pos hany]
  · exact call_refused haccepts s

theorem started_of_creates {s : World} (h : Creates cfg w s) :
    ∃ q, tonumber w.tid = some q ∧
      (started cfg w s).targets = s.targets ++ [(q, target cfg w)] := by
  obtain ⟨haccepts, hfree⟩ := h
  obtain ⟨q, hq⟩ := tonumber_of_tid (Bool.and_eq_true_iff.mp haccepts).1
  refine ⟨q, hq, ?_⟩
  have hany : ¬ s.targets.any (·.1 == q) = true := by
    rw [List.any_eq_true]
    rintro ⟨x, hx, hxq⟩
    exact hfree x hx (by rw [hq, beq_iff_eq.mp hxq])
  rw [started, call_targets _ _ rfl, call, if_pos haccepts, effect, World.newTarget, hq]
  show (if s.targets.any (·.1 == q) = true then s.targets else _) = _
  rw [if_neg hany]
  rfl

/-- A second attempt changes no targets. -/
theorem started_started (s : World) :
    SameTargets (started cfg w s) (started cfg w (started cfg w s)) := by
  refine started_of_not_creates cfg w fun h => ?_
  by_cases hcreates : Creates cfg w s
  · obtain ⟨q, hq, htargets⟩ := started_of_creates cfg w hcreates
    exact h.2 (q, target cfg w) (htargets ▸ List.mem_append_right _ (List.mem_singleton_self _)) hq
  · refine hcreates ⟨h.1, fun x hx => h.2 x ?_⟩
    rw [started_of_not_creates cfg w hcreates]
    exact hx

theorem started_congr {s t : World} (h : SameTargets s t) :
    SameTargets (started cfg w s) (started cfg w t) :=
  call_targets_congr _ (call_targets_congr _ h)

theorem tgtstart_returned (hserved : scCheck env cfg = true) (hon : Boot.on w.enable = true)
    (hconcat : concatenates w.tid = true) (s : World)
    (hused : tgtUsed env s (target cfg w) = false) :
    tgtstart env cfg w s = .returned (started cfg w s) := by
  rw [tgtstart, hserved, hused, hon, hconcat]
  rfl

/-- The test of the loop. -/
def targetMissing (s : World) : Lua.Call Bool := .returned !tgtUsed env s (target cfg w)

theorem halts_lunAdd_iff (hserved : scCheck env cfg = true) (s : World) :
    Halts (lunAdd env cfg w) s ↔ tgtUsed env s (target cfg w) = true ∨ Boot.on w.enable = true ∧
      (concatenates w.tid = false ∨ tgtUsed env (started cfg w s) (target cfg w) = true) := by
  have hluns (t : World) : Halts (.cond (fun s => tgtUsed env s (target cfg w))
      (.each (w.img.zipIdx 1) fun e => .act (lunImage env cfg w e)) .skip) t := by
    by_cases hused : tgtUsed env t (target cfg w) = true
    · obtain ⟨o, ho⟩ := halts_each (w.img.zipIdx 1)
        (fun e _ => halts_act (lunImage env cfg w e)) t
      exact ⟨o, ends_cond.mpr (by rwa [if_pos hused])⟩
    · exact ⟨_, ends_cond.mpr (by rw [if_neg hused]; exact ends_skip.mpr rfl)⟩
  rw [lunAdd, halts_seq_left hluns]
  show Halts (.poll (targetMissing env cfg w) (.act (tgtstart env cfg w))) s ↔ _
  by_cases hused : tgtUsed env s (target cfg w) = true
  · exact ⟨fun _ => Or.inl hused, fun _ => halts_poll_of_ne (by simp [targetMissing, hused])⟩
  · rw [Bool.not_eq_true] at hused
    have hmissing : targetMissing env cfg w s = .returned true := by
      rw [targetMissing, hused]
      rfl
    simp only [hused, Bool.false_eq_true, false_or]
    cases hon : Boot.on w.enable with
    | false =>
      have hnothing : tgtstart env cfg w s = .returned s := by
        rw [tgtstart, hon, Bool.and_false]
        rfl
      rw [halts_poll_settled (I := fun t => t = s) hmissing
        (fun t ht _ => (Lua.Call.returned.inj (hnothing.symm.trans ht)).symm)
        (fun t ht => ⟨ht ▸ hmissing, s, ht ▸ hnothing, rfl⟩)]
      simp [hnothing, hmissing]
    | true =>
      cases hconcat : concatenates w.tid with
      | false =>
        have hraised : tgtstart env cfg w s = .raised := by
          rw [tgtstart, hserved, hused, hon, hconcat]
          rfl
        rw [halts_poll_settled (I := fun _ => False) hmissing
          (fun t ht => absurd (hraised.symm.trans ht) (by simp)) (fun t ht => ht.elim)]
        simp [hraised]
      | true =>
        have hstart := tgtstart_returned env cfg w hserved hon hconcat
        have hfirst := hstart s hused
        -- a first attempt without success is repeated without success
        rw [halts_poll_settled (I := fun t => SameTargets (started cfg w s) t ∧
          tgtUsed env t (target cfg w) = false) hmissing ?_ ?_]
        · simp [hfirst, targetMissing]
        · intro t ht hc
          rw [← Lua.Call.returned.inj (hfirst.symm.trans ht)] at hc ⊢
          exact ⟨rfl, by simpa [targetMissing] using hc⟩
        · intro t ht
          have hnext : SameTargets (started cfg w s) (started cfg w t) :=
            SameTargets.trans _ _ _ (started_started cfg w s) (started_congr cfg w ht.1)
          refine ⟨by rw [targetMissing, ht.2]; rfl, started cfg w t, hstart t ht.2, hnext, ?_⟩
          rw [tgtUsed_congr env hnext, ← tgtUsed_congr env ht.1, ht.2]

/-! ## `zfsmount` -/

/-- The mounts once the client's snapshot is unmounted and destroyed. -/
def unmounted (m : List Mount) : List Mount :=
  let left := if Valid.safePath (.str (zpoint cfg w)) then
    (m.reverse.eraseP (·.point == zpoint cfg w)).reverse else m
  if Valid.safePath (.str (zdest cfg w)) then left.filter (·.source != zdest cfg w) else left

/-- The mounts once the client's snapshot is mounted. -/
def mounted (m : List Mount) : List Mount :=
  if Valid.safePath (.str (zdest cfg w)) && Valid.safePath (.str (zpoint cfg w)) then
    if ⟨zdest cfg w, zpoint cfg w⟩ ∈ m then m else m ++ [⟨zdest cfg w, zpoint cfg w⟩]
  else m

theorem mounted_mounted (m : List Mount) : mounted cfg w (mounted cfg w m) = mounted cfg w m := by
  unfold mounted
  split
  · by_cases hmem : ⟨zdest cfg w, zpoint cfg w⟩ ∈ m
    · rw [if_pos hmem, if_pos hmem]
    · rw [if_neg hmem, if_pos (List.mem_append_right _ (List.mem_singleton_self _))]
  · rfl

theorem remount_mtab (s : World) : (remount cfg w s).mtab = mounted cfg w s.mtab := by
  have hsnap : (call (.zfsSnap (.str (zdest cfg w))) s).mtab = s.mtab := call_mtab _ _ rfl
  rw [remount, call_eq _ _ World.mtab fun _ => rfl, ← hsnap]
  rfl

theorem tgtstop_mtab (s : World) : (tgtstop env cfg w s).mtab = s.mtab :=
  tgtstop_part env cfg w World.mtab (fun s => call_mtab _ s rfl) s

theorem nbdFree_mtab (s : World) : (nbdFree env cfg w s).mtab = s.mtab :=
  nbdFree_part env cfg w World.mtab (fun _ _ _ => rfl) (fun s => call_mtab _ s rfl)
    (fun _ s => call_mtab _ s rfl) s

theorem unmounted_mtab (s : World) :
    (call (.zfsUnsnap (.str (zdest cfg w))) (call (.zfsUnmount (.str (zpoint cfg w))) s)).mtab =
      unmounted cfg w s.mtab := by
  have hpoint : (call (.zfsUnmount (.str (zpoint cfg w))) s).mtab =
      if Valid.safePath (.str (zpoint cfg w)) then
        (s.mtab.reverse.eraseP (·.point == zpoint cfg w)).reverse else s.mtab :=
    call_eq _ _ World.mtab fun _ => rfl
  rw [call_eq _ _ World.mtab fun _ => rfl, unmounted, ← hpoint]
  rfl

/-! The test of the loop, with the mounts first unmounted and then mounted. -/

theorem mountMissing_congr {s t : World} (h : t.mtab = s.mtab) :
    mountMissing env cfg w t = mountMissing env cfg w s := by
  rw [mountMissing, mountMissing, zfsMtab, zfsMtab, h]

/-- The mounts that the loop tests first, and those after a round of it. -/
def cleared (s : World) : World := { s with mtab := unmounted cfg w s.mtab }

def restored (s : World) : World := { s with mtab := mounted cfg w (unmounted cfg w s.mtab) }

/-- The loop comes to an outcome of its test. -/
def MountTest (s : World) (r : Lua.Call Bool) : Prop :=
  mountMissing env cfg w (cleared cfg w s) = r ∨
    mountMissing env cfg w (cleared cfg w s) = .returned true ∧
      mountMissing env cfg w (restored cfg w s) = r

theorem ends_mountLoop {s t : World} (h : t.mtab = unmounted cfg w s.mtab) :
    (Ends (.poll (mountMissing env cfg w) (.set (remount cfg w))) t .raised ↔
      MountTest env cfg w s .raised) ∧
    ((∃ u, Ends (.poll (mountMissing env cfg w) (.set (remount cfg w))) t (.returned u)) ↔
      MountTest env cfg w s (.returned false)) := by
  have hcleared : mountMissing env cfg w t = mountMissing env cfg w (cleared cfg w s) :=
    mountMissing_congr env cfg w h
  have hrestored {u : World} (hu : u.mtab = mounted cfg w t.mtab) :
      mountMissing env cfg w u = mountMissing env cfg w (restored cfg w s) :=
    mountMissing_congr env cfg w (by rw [hu, h]; rfl)
  rw [MountTest, MountTest, ← hcleared, ← hrestored (remount_mtab cfg w t)]
  cases hfirst : mountMissing env cfg w t with
  | raised => simp [ends_poll_raised hfirst]
  | returned b =>
    cases b with
    | false => simp [ends_poll_false hfirst]
    | true =>
      have hstays {u : World} (hu : u.mtab = mounted cfg w t.mtab) :
          (remount cfg w u).mtab = mounted cfg w t.mtab := by
        rw [remount_mtab, hu, mounted_mounted]
      have hround (o : Lua.Call World) :
          Ends (.poll (mountMissing env cfg w) (.set (remount cfg w))) t o ↔
            mountMissing env cfg w (remount cfg w t) ≠ .returned true ∧
              Ends (.poll (mountMissing env cfg w) (.set (remount cfg w))) (remount cfg w t) o := by
        have hsettled := ends_poll_settled (o := o) (f := fun s => .returned (remount cfg w s))
          (I := fun u => u.mtab = mounted cfg w t.mtab ∧ mountMissing env cfg w u = .returned true)
          hfirst
          (fun u hu hmissing => ⟨Lua.Call.returned.inj hu ▸ remount_mtab cfg w t, hmissing⟩)
          (fun u hu => ⟨hu.2, _, rfl, hstays hu.1, by
            rw [hrestored (hstays hu.1), ← hrestored hu.1, hu.2]⟩)
        simpa [Prog.set] using hsettled
      simp only [hround, true_and, reduceCtorEq, false_or, Lua.Call.returned.injEq,
        Bool.true_eq_false, exists_and_left]
      cases hsecond : mountMissing env cfg w (remount cfg w t) with
      | raised => simp [ends_poll_raised hsecond]
      | returned b =>
        cases b with
        | false => simp [ends_poll_false hsecond]
        | true => simp

/-! ## The whole boot -/

theorem ends_zfsmount (s : World) :
    (Ends (zfsmount env cfg w) s .raised ↔ MountTest env cfg w s .raised) ∧
      ((∃ u, Ends (zfsmount env cfg w) s (.returned u)) ↔
        MountTest env cfg w s (.returned false)) := by
  have hloop := ends_mountLoop env cfg w (s := s) (t := call (.zfsUnsnap (.str (zdest cfg w)))
    (call (.zfsUnmount (.str (zpoint cfg w))) (nbdFree env cfg w s)))
    (by rw [unmounted_mtab, nbdFree_mtab])
  rw [← hloop.1, ← hloop.2]
  simp [zfsmount, ends_seq, ends_set]

theorem mountTest_congr {s t : World} (h : t.mtab = s.mtab) (r : Lua.Call Bool) :
    MountTest env cfg w t r ↔ MountTest env cfg w s r := by
  have hcleared : mountMissing env cfg w (cleared cfg w t) =
      mountMissing env cfg w (cleared cfg w s) :=
    mountMissing_congr env cfg w (by rw [cleared, cleared, h])
  have hrestored :
      mountMissing env cfg w (restored cfg w t) = mountMissing env cfg w (restored cfg w s) :=
    mountMissing_congr env cfg w (by rw [restored, restored, h])
  rw [MountTest, MountTest, hcleared, hrestored]

/-- The test on what `tgtstop` has left of the targets decides, if the mount is found. -/
theorem halts_boot (hserved : scCheck env cfg = true)
    (hparents : ∀ v ∈ w.img, ∀ p, IsParent cfg w v p → env.present p = true) (s : World) :
    Halts (boot env cfg w) s ↔ MountTest env cfg w s .raised ∨
      MountTest env cfg w s (.returned false) ∧
        (tgtUsed env (tgtstop env cfg w s) (target cfg w) = true ∨ Boot.on w.enable = true ∧
          (concatenates w.tid = false ∨
            tgtUsed env (started cfg w (tgtstop env cfg w s)) (target cfg w) = true)) := by
  have hrest {t : World} (ht : SameTargets (tgtstop env cfg w s) t) :
      Halts (.seq (mkChild env cfg w) (.seq (nbdConnect env cfg w) (lunAdd env cfg w))) t ↔ _ :=
    (returns_mkChild env cfg w fun v hv p hp _ => hparents v hv p hp).halts_seq_iff fun u hu =>
      (returns_nbdConnect env cfg w).halts_seq_iff fun v hv => by
        have hsame := SameTargets.trans _ _ _ ht (SameTargets.trans _ _ _ hu hv)
        rw [halts_lunAdd_iff env cfg w hserved, tgtUsed_congr env hsame,
          tgtUsed_congr env (started_congr cfg w hsame)]
  rw [boot]
  refine (Returns.set (R := fun s t => t = nbdFree env cfg w (tgtstop env cfg w s))
    fun _ => rfl).halts_seq_iff fun t ht => ?_
  have hstopped := stopped_tgtstop env cfg w s
  have htargets : SameTargets (tgtstop env cfg w s) t :=
    ht ▸ keepsStopped_nbdFree env cfg w _ hstopped
  have hmtab : t.mtab = s.mtab := by rw [ht, nbdFree_mtab, tgtstop_mtab]
  have hzfs {u : World} (hu : Ends (zfsmount env cfg w) t (.returned u)) :
      SameTargets (tgtstop env cfg w s) u := by
    refine SameTargets.trans _ _ _ htargets (Ends.within (KeepsStopped.refl env cfg w)
      (KeepsStopped.trans env cfg w) (acts_keepsStopped_zfsmount env cfg w) hu ?_)
    show (tgtstop env cfg w t).targets = t.targets
    rw [tgtstop_congr env cfg w htargets, hstopped, htargets]
  rw [halts_seq, (ends_zfsmount env cfg w t).1, ← mountTest_congr env cfg w hmtab,
    ← mountTest_congr env cfg w hmtab, ← (ends_zfsmount env cfg w t).2]
  refine or_congr_right ⟨?_, ?_⟩
  · rintro ⟨u, hu, h⟩
    exact ⟨⟨u, hu⟩, (hrest (hzfs hu)).mp h⟩
  · rintro ⟨⟨u, hu⟩, h⟩
    exact ⟨u, hu, (hrest (hzfs hu)).mpr h⟩

/-! ## The condition before the boot -/

/-- A target with the workstation's name is not deleted by `tgtstop`. -/
def Outlives (s : World) : Prop :=
  ∃ x ∈ s.targets, env.grep (target cfg w) x.2 = true ∧
    ¬ (Valid.tid w.tid = true ∧ tonumber w.tid = some x.1)

/-- The target can be created: a target that has its number is deleted before. -/
def Creatable (s : World) : Prop :=
  accepts (.tgtNew (.str (target cfg w)) w.tid) = true ∧
    ∀ x ∈ s.targets, tonumber w.tid = some x.1 → tgtUsed env s (target cfg w) = true

/-- `LunAdd` gets what it waits for, or an error. -/
def Awaited (s : World) : Prop :=
  accepts (.tgtUsed (.str (target cfg w))) = true ∧ Outlives env cfg w s ∨
    Boot.on w.enable = true ∧ (concatenates w.tid = false ∨
      accepts (.tgtUsed (.str (target cfg w))) = true ∧ Creatable env cfg w s)

theorem tgtUsed_tgtstop (hserved : scCheck env cfg = true) (s : World) :
    tgtUsed env (tgtstop env cfg w s) (target cfg w) = true ↔
      accepts (.tgtUsed (.str (target cfg w))) = true ∧ Outlives env cfg w s := by
  by_cases hused : tgtUsed env s (target cfg w) = true
  · rw [tgtstop_of_used env cfg w hserved hused, tgtUsed_iff]
    refine and_congr_right fun _ => exists_congr fun x => ?_
    rw [mem_tgtKill, and_assoc, and_comm (a := ¬ _)]
  · rw [tgtstop_of_not_used env cfg w hused]
    refine ⟨fun h => absurd h hused, fun ⟨haccepts, x, hx, hgrep, _⟩ => ?_⟩
    exact (tgtUsed_iff env).mpr ⟨haccepts, x, hx, hgrep⟩

theorem creates_tgtstop (hserved : scCheck env cfg = true) (s : World) :
    Creates cfg w (tgtstop env cfg w s) ↔ Creatable env cfg w s := by
  refine and_congr_right fun haccepts => ?_
  have htid : Valid.tid w.tid = true := (Bool.and_eq_true_iff.mp haccepts).1
  by_cases hused : tgtUsed env s (target cfg w) = true
  · rw [tgtstop_of_used env cfg w hserved hused]
    exact ⟨fun _ x _ _ => hused, fun _ x hx hq => (mem_tgtKill.mp hx).2 ⟨htid, hq⟩⟩
  · rw [tgtstop_of_not_used env cfg w hused]
    exact ⟨fun h x hx hq => absurd hq (h x hx), fun h x hx hq => hused (h x hx hq)⟩

theorem tgtUsed_started (s : World) : tgtUsed env (started cfg w s) (target cfg w) = true ↔
    tgtUsed env s (target cfg w) = true ∨
      accepts (.tgtUsed (.str (target cfg w))) = true ∧ Creates cfg w s := by
  by_cases hcreates : Creates cfg w s
  · obtain ⟨q, -, htargets⟩ := started_of_creates cfg w hcreates
    have hself := env.grep_self (target cfg w) (Bool.and_eq_true_iff.mp hcreates.1).2
    have hfound : (∃ x ∈ s.targets ++ [(q, target cfg w)], env.grep (target cfg w) x.2 = true) :=
      ⟨_, List.mem_append_right _ (List.mem_singleton_self _), hself⟩
    rw [tgtUsed_iff, tgtUsed_iff, htargets]
    exact ⟨fun h => Or.inr ⟨h.1, hcreates⟩, fun h => ⟨h.elim And.left And.left, hfound⟩⟩
  · rw [tgtUsed_congr env (started_of_not_creates cfg w hcreates)]
    simp [hcreates]

/-- A boot finishes exactly when the client's snapshot is found among the mounts, or its
name is no pattern, and the target is one that `LunAdd` gets. -/
theorem boot_halts_iff (hserved : scCheck env cfg = true)
    (hparents : ∀ v ∈ w.img, ∀ p, IsParent cfg w v p → env.present p = true) (s : World) :
    Halts (boot env cfg w) s ↔ MountTest env cfg w s .raised ∨
      MountTest env cfg w s (.returned false) ∧ Awaited env cfg w s := by
  rw [halts_boot env cfg w hserved hparents, tgtUsed_started, creates_tgtstop env cfg w hserved,
    tgtUsed_tgtstop env cfg w hserved, Awaited]
  tauto

end

/-! ## Boots of the shipped configuration -/

/-- The snapshot of the first image is there as well. -/
def office : Env :=
  { lab with
    present := fun n => lab.present n || n == diskSnapshot shipped (station [windows]) windows }

def disabled : Workstation := { station [windows] with enable := .num 0 }

theorem office_parents {w : Workstation} (himg : w.img = [windows])
    (hmac : w.mac = (station []).mac)
    (hsupper : w.supper = .num 0) :
    ∀ v ∈ w.img, ∀ p, IsParent shipped w v p → office.present p = true := by
  intro v hv p hp
  rw [himg, List.mem_singleton] at hv
  subst hv
  obtain ⟨hs, -⟩ | ⟨-, ⟨-, hdisk⟩ | ⟨hblock, -⟩⟩ := hp
  · rw [hsupper] at hs
    exact absurd hs (by decide +kernel)
  · rw [hdisk, diskSnapshot, vid, hmac]
    decide +kernel
  · exact absurd hblock (by decide +kernel)

theorem station_boots : Halts (boot office shipped (station [windows])) idle :=
  (boot_halts_iff office shipped (station [windows]) (by decide +kernel)
    (office_parents rfl rfl rfl) idle).mpr
    (Or.inr ⟨Or.inr ⟨by decide +kernel, by decide +kernel⟩,
      Or.inr ⟨by decide +kernel, Or.inr ⟨by decide +kernel, by decide +kernel, by decide +kernel⟩⟩⟩)

/-- A disabled workstation waits for a target that nobody creates. -/
theorem disabled_not_halts : scCheck office shipped = true ∧
    (∀ v ∈ disabled.img, ∀ p, IsParent shipped disabled v p → office.present p = true) ∧
    ¬ Halts (boot office shipped disabled) idle := by
  have hparents := office_parents (w := disabled) rfl rfl rfl
  have hserved : scCheck office shipped = true := by decide +kernel
  refine ⟨hserved, hparents, fun h => ?_⟩
  obtain (h | ⟨-, h⟩) | ⟨-, h | ⟨h, -⟩⟩ :=
    (halts_boot office shipped disabled hserved hparents idle).mp h
  · exact absurd h (by decide +kernel)
  · exact absurd h (by decide +kernel)
  · exact absurd h (by decide +kernel)
  · exact absurd h (by decide +kernel)

end Station
end Control
end MkyBoot
