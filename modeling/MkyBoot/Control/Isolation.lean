import MkyBoot.Control.Boot

/-!
# Isolation of concurrent boots

A worker relies on a device from the moment its search finds it free until it is
done with the image, and from then on when the image is one it exports.  Nothing
reserves the device meanwhile.  Isolation fails in the runs where one worker
connects its child image to a device the other one relies on, and only there:
`boots_isolated` carries an invariant along every run without such a step.
-/

namespace MkyBoot
namespace Control
namespace Boot

open Lua Machine

/-- The image a worker is busy with, once its search is over. -/
def Pc.busy : Pc → Option ℕ
  | .test k | .tgtdPid k | .tgtdName k | .stopWait k | .stopServices k | .stopUsed k
  | .stopKill k | .qemuPid k | .qemuName k | .del k | .drain k | .last k | .add k => some k
  | _ => none

/-- The point is in `LunAdd`. -/
def Pc.exporting : Pc → Bool
  | .await | .startServices | .startUsed | .startNew | .confirm | .lun _ | .done | .raised => true
  | _ => false

/-- The point is in the loop around `tgtstop`. -/
def Pc.stopping : Pc → Bool
  | .stopWait _ | .stopServices _ | .stopUsed _ | .stopKill _ => true
  | _ => false

namespace Worker

def keeps (w : Workstation) (p : Worker) (d : Dev) : Bool :=
  (List.range w.img.length).any fun k =>
    (w.img[k]?).any Img.exported && p.nbd k == some d

def relies (w : Workstation) (p : Worker) (d : Dev) : Bool :=
  p.pc.busy.any (fun k => p.nbd k == some d) || keeps w p d

theorem keeps_iff {w : Workstation} {p : Worker} {d : Dev} :
    p.keeps w d = true ↔
      ∃ k v, w.img[k]? = some v ∧ v.exported = true ∧ p.nbd k = some d := by
  simp only [keeps, List.any_eq_true, List.mem_range, Bool.and_eq_true, Option.any_eq_true,
    beq_iff_eq]
  constructor
  · rintro ⟨k, -, ⟨v, hv, hexp⟩, hd⟩
    exact ⟨k, v, hv, hexp, hd⟩
  · rintro ⟨k, v, hv, hexp, hd⟩
    have hk : k < w.img.length := (List.getElem?_eq_some_iff.mp hv).1
    exact ⟨k, hk, ⟨v, hv, hexp⟩, hd⟩

theorem relies_iff {w : Workstation} {p : Worker} {d : Dev} :
    p.relies w d = true ↔
      (∃ k, p.pc.busy = some k ∧ p.nbd k = some d) ∨ p.keeps w d = true := by
  simp only [relies, Bool.or_eq_true, Option.any_eq_true, beq_iff_eq]

end Worker

/-! ## What a worker does in one step -/

section

variable (cfg : Config) (w : Workstation) (s : World) (ok : Bool) (p : Worker)

/-- The moves of a worker.  The loop around `tgtstop` is not entered, and `LunAdd`
comes to its first LUN past a test that the target exists. -/
inductive Moves : Pc → Pc → Prop where
  | seek (k : ℕ) (i : Dev) : Moves (.search k i) (.search k (i + 1))
  | found (k : ℕ) (i : Dev) : Moves (.search k i) (.test k)
  | within {pc pc' : Pc} (k : ℕ) (h : pc.busy = some k) (h' : pc'.busy = some k)
      (hstop : pc'.stopping = true → pc.stopping = true) : Moves pc pc'
  | leave {pc : Pc} (k j : ℕ) (h : pc.busy = some k) : Moves pc (image w j)
  | exports {pc pc' : Pc} (h : pc.exporting = true) (h' : pc'.exporting = true)
      (hlun : ∀ k, pc' = .lun k → s.used (cfg.target w) = true ∨ ∃ j, pc = .lun j) : Moves pc pc'

section Moves

variable {cfg w s} {pc pc' : Pc}

theorem Pc.busy_of_exporting (h : pc.exporting = true) : pc.busy = none := by
  cases pc <;> first | rfl | exact absurd h Bool.false_ne_true

theorem Pc.stopping_of_exporting (h : pc.exporting = true) : pc.stopping = false := by
  cases pc <;> first | rfl | exact absurd h Bool.false_ne_true

theorem image_busy (j : ℕ) : (image w j).busy = none := by
  unfold image
  split <;> rfl

theorem image_stopping (j : ℕ) : (image w j).stopping = false := by
  unfold image
  split <;> rfl

/-- Off its search, a worker stays with its image or is done with it. -/
theorem Moves.busy (h : Moves cfg w s pc pc') (hpc : ∀ k i, pc ≠ .search k i) {k : ℕ}
    (hk : pc'.busy = some k) : pc.busy = some k := by
  cases h with
  | seek k i | found k i => exact absurd rfl (hpc k i)
  | within j hj hj' hstop => rw [hj, ← hj', hk]
  | leave j i hj =>
    rw [image_busy] at hk
    exact absurd hk (by simp)
  | exports hexp hexp' hlun =>
    rw [Pc.busy_of_exporting hexp'] at hk
    exact absurd hk (by simp)

theorem Moves.exporting (h : Moves cfg w s pc pc') (hpc : pc.exporting = true) :
    pc'.exporting = true := by
  have hidle := Pc.busy_of_exporting hpc
  cases h with
  | seek k i | found k i => exact absurd hpc Bool.false_ne_true
  | within j hj hj' hstop | leave j i hj => exact absurd (hidle.symm.trans hj) (by simp)
  | exports hexp hexp' hlun => exact hexp'

theorem Moves.stopping (h : Moves cfg w s pc pc') (hpc : pc.stopping = false) :
    pc'.stopping = false := by
  cases h with
  | seek k i => rfl
  | found k i => rfl
  | within j hj hj' hstop =>
    by_contra hne
    rw [hstop (Bool.not_eq_false _ ▸ hne)] at hpc
    exact absurd hpc (by decide)
  | leave j i hj => exact image_stopping i
  | exports hexp hexp' hlun => exact Pc.stopping_of_exporting hexp'

theorem Moves.lun (h : Moves cfg w s pc pc') {k : ℕ} (hk : pc' = .lun k) :
    s.used (cfg.target w) = true ∨ ∃ j, pc = .lun j := by
  subst hk
  generalize hlun : Pc.lun k = pc' at h
  cases h with
  | seek k i | found k i => exact absurd hlun (by simp)
  | within j hj hj' hstop =>
    rw [← hlun] at hj'
    exact absurd hj' (by simp [Pc.busy])
  | leave j i hj =>
    exact absurd hlun (by unfold image; split <;> simp)
  | exports hexp hexp' hl => exact hl k hlun.symm

end Moves

theorem lsof_ne_tgtd (k : ℕ) : p.lsof s k ≠ some .tgtd := by
  unfold Worker.lsof World.lsof
  cases p.nbd k with
  | none => simp
  | some d => simp

theorem goto_moves : Moves cfg w s p.pc (goto cfg w s ok p) := by
  unfold goto
  cases hpc : p.pc with
  | search k i =>
    dsimp only
    split
    · split
      · exact .found k i
      · exact .seek k i
    · exact .found k i
  | tgtdName k =>
    dsimp only
    rw [if_neg (lsof_ne_tgtd s p k)]
    exact .within k rfl rfl id
  | last k =>
    dsimp only
    split
    · exact .within k rfl rfl id
    · exact .leave k _ rfl
  | add k => exact .leave k _ rfl
  | test k | tgtdPid k | stopWait k | stopServices k | stopUsed k | qemuPid k | qemuName k
  | drain k =>
    dsimp only
    split <;> exact .within k rfl rfl (by simp [Pc.stopping])
  | stopKill k | del k => exact .within k rfl rfl (by simp [Pc.stopping])
  | await | startServices | startUsed =>
    dsimp only
    split <;> exact .exports rfl rfl (by simp)
  | confirm =>
    dsimp only
    split
    · rename_i hused
      exact .exports rfl rfl fun _ _ => Or.inl hused
    · exact .exports rfl rfl (by simp)
  | lun k =>
    have hlun (pc : Pc) (h : pc.exporting = true) : Moves cfg w s (.lun k) pc :=
      .exports rfl h fun _ _ => Or.inr ⟨k, rfl⟩
    dsimp only
    split
    · exact hlun _ rfl
    · split
      · exact hlun _ rfl
      · split <;> exact hlun _ rfl
  | startNew | done | raised => exact .exports rfl rfl (by simp)

/-- A search goes on and leaves the memory alone, or it ends.  A device it ends with
is free. -/
theorem search_next {k i : ℕ} (hpc : p.pc = .search k i) :
    ((goto cfg w s ok p).busy = none ∧ remember cfg s p = p.nbd) ∨
      ∃ found : Option Dev, remember cfg s p = Function.update p.nbd k found ∧
        (goto cfg w s ok p).busy = some k ∧ ∀ d ∈ found, s.conn d = none := by
  rw [goto, remember, hpc]
  dsimp only
  by_cases hi : i ≤ cfg.nbdNbds
  · rw [if_pos hi, if_pos hi]
    by_cases hfree : s.lsof i = none
    · rw [if_pos hfree, if_pos hfree]
      refine Or.inr ⟨some i, rfl, rfl, fun d hd => ?_⟩
      rw [Option.mem_some_iff.mp hd] at hfree
      exact Option.map_eq_none_iff.mp hfree
    · rw [if_neg hfree, if_neg hfree]
      exact Or.inl ⟨rfl, rfl⟩
  · rw [if_neg hi, if_neg hi]
    exact Or.inr ⟨none, rfl, rfl, fun d hd => absurd hd (Option.not_mem_none d)⟩

theorem remember_of_ne (hpc : ∀ k i, p.pc ≠ .search k i) : remember cfg s p = p.nbd := by
  rw [remember]
  split
  · exact absurd (by assumption) (hpc _ _)
  · rfl

theorem next_moves : Moves cfg w s p.pc (next cfg w s ok p).pc := goto_moves cfg w s ok p

theorem next_nbd_of_exporting (h : p.pc.exporting = true) :
    (next cfg w s ok p).nbd = p.nbd := by
  refine remember_of_ne cfg s p fun k i hpc => ?_
  rw [hpc] at h
  exact Bool.false_ne_true h

theorem keeps_congr {p q : Worker} (h : p.nbd = q.nbd) (d : Dev) : p.keeps w d = q.keeps w d := by
  rw [Worker.keeps, Worker.keeps, h]

/-- A worker comes to rely on a device only while it is free. -/
theorem relies_next {d : Dev} (h : (next cfg w s ok p).relies w d = true) :
    p.relies w d = true ∨ s.conn d = none := by
  by_cases hsearch : ∃ k i, p.pc = .search k i
  · obtain ⟨k, i, hpc⟩ := hsearch
    obtain ⟨hidle, hnbd⟩ | ⟨found, hnbd, hbusy, hfree⟩ := search_next cfg w s ok p hpc
    · obtain ⟨j, hj, -⟩ | h := Worker.relies_iff.mp h
      · exact absurd (hidle.symm.trans hj) (by simp)
      · rw [keeps_congr w (q := p) hnbd] at h
        exact Or.inl (Worker.relies_iff.mpr (Or.inr h))
    · -- The device is the one just found, or it was kept for another image.
      have hnew : (next cfg w s ok p).nbd k = some d → s.conn d = none := by
        intro hd
        change remember cfg s p k = some d at hd
        rw [hnbd, Function.update_self] at hd
        exact hfree d hd
      obtain ⟨j, hj, hd⟩ | h := Worker.relies_iff.mp h
      · obtain rfl : k = j := Option.some.inj (hbusy.symm.trans hj)
        exact Or.inr (hnew hd)
      · obtain ⟨j, v, hv, hexp, hd⟩ := Worker.keeps_iff.mp h
        by_cases hjk : j = k
        · subst hjk
          exact Or.inr (hnew hd)
        · change remember cfg s p j = some d at hd
          rw [hnbd, Function.update_of_ne hjk] at hd
          exact Or.inl (Worker.relies_iff.mpr (Or.inr (Worker.keeps_iff.mpr ⟨j, v, hv, hexp, hd⟩)))
  · push Not at hsearch
    have hnbd : (next cfg w s ok p).nbd = p.nbd := remember_of_ne cfg s p hsearch
    refine Or.inl (Worker.relies_iff.mpr ?_)
    obtain ⟨k, hk, hd⟩ | h := Worker.relies_iff.mp h
    · rw [hnbd] at hd
      exact Or.inl ⟨k, (next_moves cfg w s ok p).busy hsearch hk, hd⟩
    · rw [keeps_congr w hnbd] at h
      exact Or.inr h

/-- What a worker asks the system for, and where. -/
def Asks : Command → Prop
  | .skip => True
  | .connect _ image => ∃ path, image = cfg.child w path
  | .disconnect d => ∃ k, p.pc.busy = some k ∧ p.nbd k = some d
  | .newTarget t name => w.tid = some t ∧ name = cfg.target w ∧ p.pc.exporting = true
  | .killTarget _ => p.pc.stopping = true
  | .newLun t _ d => w.tid = some t ∧ p.keeps w d = true ∧ ∃ k, p.pc = .lun k

theorem asks_guard {b : Bool} {c : Command} (h : Asks cfg w p c) :
    Asks cfg w p (if b then c else .skip) := by
  split
  · exact h
  · trivial

theorem asks_elim {α : Type} {o : Option α} {f : α → Command}
    (h : ∀ x, o = some x → Asks cfg w p (f x)) : Asks cfg w p (o.elim .skip f) := by
  cases o with
  | none => trivial
  | some x => exact h x rfl

theorem command_asks : Asks cfg w p (command cfg w p) := by
  unfold command
  split
  · rename_i k hpc
    refine asks_elim cfg w p fun d hd => asks_guard cfg w p ?_
    exact ⟨k, by rw [hpc]; rfl, hd⟩
  · split
    · exact asks_elim cfg w p fun path _ => asks_guard cfg w p ⟨path, rfl⟩
    · trivial
  · rename_i hpc
    refine asks_elim cfg w p fun t _ => asks_guard cfg w p ?_
    show p.pc.stopping = true
    rw [hpc]
    rfl
  · rename_i hpc
    refine asks_elim cfg w p fun t htid => asks_guard cfg w p ?_
    exact ⟨htid, rfl, by rw [hpc]; rfl⟩
  · rename_i k hpc
    split
    · rename_i t d v htid hd hv
      split
      · rename_i hexp
        refine asks_guard cfg w p ?_
        exact ⟨htid, Worker.keeps_iff.mpr ⟨k, v, hv, hexp, hd⟩, k, hpc⟩
      · trivial
    · trivial
  · trivial

end

/-! ## What a command changes -/

namespace World

variable (s : World) (c : Command)

theorem used_iff {name : Str} : s.used name = true ↔ ∃ t, s.targets.lookup t = some name := by
  rw [used, List.any_eq_true]
  constructor
  · rintro ⟨e, he, hname⟩
    exact ⟨e.1, AList.mem_lookup_iff.mpr (beq_iff_eq.mp hname ▸ he)⟩
  · rintro ⟨t, ht⟩
    exact ⟨⟨t, name⟩, AList.mem_lookup_iff.mp ht, beq_self_eq_true name⟩

theorem conn_apply {d : Dev} {image : Str} (h : (s.apply c).conn d = some image) :
    s.conn d = some image ∨ (c = .connect d image ∧ s.conn d = none) := by
  cases c with
  | skip => exact Or.inl h
  | connect e im =>
    rw [apply] at h
    by_cases hfree : s.conn e = none
    · rw [if_pos hfree] at h
      dsimp only at h
      by_cases hde : d = e
      · subst hde
        rw [Function.update_self] at h
        injection h with h
        exact Or.inr ⟨by rw [h], hfree⟩
      · rw [Function.update_of_ne hde] at h
        exact Or.inl h
    · rw [if_neg hfree] at h
      exact Or.inl h
  | disconnect e =>
    change Function.update s.conn e none d = some image at h
    by_cases hde : d = e
    · subst hde
      rw [Function.update_self] at h
      exact absurd h (by simp)
    · rw [Function.update_of_ne hde] at h
      exact Or.inl h
  | newTarget t name =>
    rw [apply] at h
    split at h <;> exact Or.inl h
  | killTarget t => exact Or.inl h
  | newLun t n e =>
    rw [apply] at h
    split at h <;> exact Or.inl h

/-- A target of a name was there, or has been created without a LUN. -/
theorem lookup_apply {t : ℕ} {name : Str} (h : (s.apply c).targets.lookup t = some name) :
    s.targets.lookup t = some name ∨
      (c = .newTarget t name ∧ ∀ n, (s.apply c).luns t n = none) := by
  cases c with
  | skip => exact Or.inl h
  | connect e im =>
    rw [apply] at h
    split at h <;> exact Or.inl h
  | disconnect e => exact Or.inl h
  | newTarget u name' =>
    rw [apply] at h ⊢
    split at h
    · rename_i hnew
      by_cases htu : t = u
      · subst htu
        rw [AList.lookup_insert] at h
        injection h with h
        refine Or.inr ⟨by rw [h], fun n => ?_⟩
        rw [if_pos hnew]
        exact congrFun (Function.update_self t _ s.luns) n
      · rw [AList.lookup_insert_ne htu] at h
        exact Or.inl h
    · exact Or.inl h
  | killTarget u =>
    change (s.targets.erase u).lookup t = some name at h
    by_cases htu : t = u
    · subst htu
      rw [AList.lookup_erase] at h
      exact absurd h (by simp)
    · rw [AList.lookup_erase_ne htu] at h
      exact Or.inl h
  | newLun u n e =>
    rw [apply] at h
    split at h <;> exact Or.inl h

theorem update_none_eq_some {f : ℕ → ℕ → Option Dev} {t u n : ℕ} {d : Dev}
    (h : Function.update f u (fun _ => none) t n = some d) : f t n = some d := by
  by_cases htu : t = u
  · subst htu
    rw [Function.update_self] at h
    exact absurd h (by simp)
  · rwa [Function.update_of_ne htu] at h

theorem luns_apply {t n : ℕ} {d : Dev} (h : (s.apply c).luns t n = some d) :
    s.luns t n = some d ∨ c = .newLun t n d := by
  cases c with
  | skip => exact Or.inl h
  | connect e im =>
    rw [apply] at h
    split at h <;> exact Or.inl h
  | disconnect e => exact Or.inl h
  | newTarget u name =>
    rw [apply] at h
    split at h
    · refine Or.inl (update_none_eq_some h)
    · exact Or.inl h
  | killTarget u => exact Or.inl (update_none_eq_some h)
  | newLun u m e =>
    rw [apply] at h
    split at h
    · dsimp only at h
      by_cases htu : t = u
      · subst htu
        rw [Function.update_self] at h
        by_cases hnm : n = m
        · subst hnm
          rw [Function.update_self] at h
          injection h with h
          exact Or.inr (by rw [h])
        · rw [Function.update_of_ne hnm] at h
          exact Or.inl h
      · rw [Function.update_of_ne htu] at h
        exact Or.inl h
    · exact Or.inl h

/-- Only a kill removes a target. -/
theorem lookup_apply_of_some (hc : ∀ t, c ≠ .killTarget t) {t : ℕ} {name : Str}
    (h : s.targets.lookup t = some name) : (s.apply c).targets.lookup t = some name := by
  cases c with
  | skip => exact h
  | connect e im =>
    rw [apply]
    split <;> exact h
  | disconnect e => exact h
  | newTarget u name' =>
    rw [apply]
    split
    · rename_i hnew
      have htu : t ≠ u := fun e => by rw [← e, h] at hnew; exact absurd hnew (by simp)
      exact (AList.lookup_insert_ne htu).trans h
    · exact h
  | killTarget u => exact absurd rfl (hc u)
  | newLun u m e =>
    rw [apply]
    split <;> exact h

end World

/-! ## Names of different workstations differ -/

theorem Mac.vid_length (m m' : Mac) : m.vid.length = m'.vid.length :=
  (Valid.ofClasses_filter Valid.macClasses_wordlike m.2 m'.2).1

theorem Mac.vid_inj {m m' : Mac} (h : m.vid = m'.vid) : m = m' :=
  Subtype.ext ((Valid.ofClasses_filter Valid.macClasses_wordlike m.2 m'.2).2 h)

theorem child_inj {cfg : Config} {w w' : Workstation} {path path' : Str}
    (h : cfg.child w path = cfg.child w' path') : w.mac = w'.mac := by
  have htail := List.append_cancel_left h
  injection htail with _ htail
  have hlen : (cfg.imagePrefix ++ w.mac.vid).length = (cfg.imagePrefix ++ w'.mac.vid).length := by
    rw [List.length_append, List.length_append, Mac.vid_length w.mac w'.mac]
  exact Mac.vid_inj (List.append_cancel_left (List.append_inj' htail hlen).2)

theorem target_inj {cfg : Config} {w w' : Workstation} (h : cfg.target w = cfg.target w') :
    w.mac = w'.mac := by
  have htail := List.append_cancel_left h
  injection htail with _ htail
  exact Mac.vid_inj htail

/-! ## The invariant of both workers -/

section

variable (cfg : Config) (ws : Who → Workstation)

/-- No device exported in a workstation's target is connected to a child image of
the other workstation. -/
def Isolated (st : State) : Prop :=
  ∀ who t n d, st.world.targets.lookup t = some (cfg.target (ws who)) →
    st.world.luns t n = some d → ∀ path, st.world.conn d ≠ some (cfg.child (ws who.other) path)

/-- The step does not disconnect a device with a child image of the other
workstation. -/
def Spares (st : State) (i : Turn) : Prop :=
  ∀ d, command cfg (ws i.who) (st.worker i.who) = .disconnect d →
    ∀ path, st.world.conn d ≠ some (cfg.child (ws i.who.other) path)

def Command.connects : Command → Option Dev
  | .connect d _ => some d
  | _ => none

/-- A step that connects a free device finds that the other worker does not rely
on it. -/
def Clear (st : State) (i : Turn) : Prop :=
  ∀ d ∈ (command cfg (ws i.who) (st.worker i.who)).connects, i.ok = true →
    st.world.conn d = none → (st.worker i.who.other).relies (ws i.who.other) d = false

/-- Both workers are at the start of `nbdConnect`, and `tgtstop` has left no target
of theirs. -/
def Starts (st : State) : Prop :=
  (∀ who, st.worker who = boot (ws who)) ∧ ∀ who, st.world.used (cfg.target (ws who)) = false

structure Inv (st : State) : Prop where
  running : ∀ who, (st.worker who).pc.stopping = false
  named : ∀ who t, st.world.targets.lookup t = some (cfg.target (ws who)) →
    (ws who).tid = some t ∧ (st.worker who).pc.exporting = true
  standing : ∀ who k, (st.worker who).pc = .lun k → st.world.used (cfg.target (ws who)) = true
  kept : ∀ who t n d, st.world.targets.lookup t = some (cfg.target (ws who)) →
    st.world.luns t n = some d → (st.worker who).keeps (ws who) d = true
  apart : ∀ who d path, (st.worker who).relies (ws who) d = true →
    st.world.conn d ≠ some (cfg.child (ws who.other) path)

theorem Who.eq_other_of_ne {x y : Who} (h : x ≠ y) : x = y.other := by
  cases x <;> cases y <;> first | rfl | exact absurd rfl h

variable {cfg ws}

theorem who_inj (hmac : (ws .a).mac ≠ (ws .b).mac) {x y : Who}
    (h : (ws x).mac = (ws y).mac) : x = y := by
  cases x <;> cases y
  · rfl
  · exact absurd h hmac
  · exact absurd h.symm hmac
  · rfl

theorem Inv.isolated {st : State} (h : Inv cfg ws st) : Isolated cfg ws st := by
  intro who t n d ht hn path
  exact h.apart who d path (Worker.relies_iff.mpr (Or.inr (h.kept who t n d ht hn)))

theorem Inv.spares {st : State} (h : Inv cfg ws st) (i : Turn) : Spares cfg ws st i := by
  intro d hd path
  have hasks := command_asks cfg (ws i.who) (st.worker i.who)
  rw [hd] at hasks
  exact h.apart i.who d path (Worker.relies_iff.mpr (Or.inl hasks))

theorem starts_inv {st : State} (h : Starts cfg ws st) : Inv cfg ws st := by
  obtain ⟨hboot, hnone⟩ := h
  have hno : ∀ who t, st.world.targets.lookup t ≠ some (cfg.target (ws who)) := by
    intro who t ht
    have hused := (World.used_iff st.world).mpr ⟨t, ht⟩
    rw [hnone who] at hused
    exact Bool.false_ne_true hused
  refine ⟨fun who => ?_, fun who t ht => absurd ht (hno who t), fun who k hk => ?_,
    fun who t n d ht => absurd ht (hno who t), fun who d path hr => ?_⟩
  · rw [hboot]
    exact image_stopping 0
  · rw [hboot] at hk
    exact absurd hk (by unfold boot image; split <;> simp)
  · -- A worker that has not searched yet remembers no device.
    rw [hboot] at hr
    obtain ⟨k, -, hd⟩ | hr := Worker.relies_iff.mp hr
    · exact absurd hd (by simp [boot])
    · obtain ⟨k, v, -, -, hd⟩ := Worker.keeps_iff.mp hr
      exact absurd hd (by simp [boot])

/-! ### One step of either worker -/

section

variable (cfg ws) (st : State) (i : Turn)

def issued : Command :=
  if i.ok then command cfg (ws i.who) (st.worker i.who) else .skip

theorem issued_asks : Asks cfg (ws i.who) (st.worker i.who) (issued cfg ws st i) :=
  asks_guard cfg _ _ (command_asks cfg _ _)

theorem step_world : (step cfg ws st i).world = st.world.apply (issued cfg ws st i) := by
  unfold step issued
  split <;> rfl

/-- A property that a move keeps is kept at both workers. -/
theorem step_worker {who : Who} {P : Worker → Worker → Prop} (hsame : ∀ p, P p p)
    (hnext : ∀ s ok p, P p (next cfg (ws who) s ok p)) :
    P (st.worker who) ((step cfg ws st i).worker who) := by
  unfold step
  by_cases hwho : who = i.who
  · subst hwho
    dsimp only
    rw [Function.update_self]
    exact hnext _ _ _
  · dsimp only
    rw [Function.update_of_ne hwho]
    exact hsame _

variable {st i}

theorem step_stopping {who : Who} (h : (st.worker who).pc.stopping = false) :
    ((step cfg ws st i).worker who).pc.stopping = false :=
  step_worker cfg ws st i (P := fun p q => p.pc.stopping = false → q.pc.stopping = false)
    (fun _ => id) (fun s ok p => (next_moves cfg _ s ok p).stopping) h

theorem step_exporting {who : Who} (h : (st.worker who).pc.exporting = true) :
    ((step cfg ws st i).worker who).pc.exporting = true :=
  step_worker cfg ws st i (P := fun p q => p.pc.exporting = true → q.pc.exporting = true)
    (fun _ => id) (fun s ok p => (next_moves cfg _ s ok p).exporting) h

theorem step_keeps {who : Who} (h : (st.worker who).pc.exporting = true) (d : Dev) :
    ((step cfg ws st i).worker who).keeps (ws who) d = (st.worker who).keeps (ws who) d :=
  step_worker cfg ws st i
    (P := fun p q => p.pc.exporting = true → q.keeps (ws who) d = p.keeps (ws who) d)
    (fun _ _ => rfl)
    (fun s ok p hp => keeps_congr (ws who) (next_nbd_of_exporting cfg _ s ok p hp) d) h

end

theorem Inv.issued_ne_kill {st : State} (h : Inv cfg ws st) (i : Turn) (t : ℕ) :
    issued cfg ws st i ≠ .killTarget t := by
  intro hkill
  have hasks := issued_asks cfg ws st i
  rw [hkill] at hasks
  exact absurd (hasks.symm.trans (h.running i.who)) (by decide)

theorem Inv.step_named (hmac : (ws .a).mac ≠ (ws .b).mac) {st : State} (h : Inv cfg ws st)
    (i : Turn) {who : Who} {t : ℕ}
    (ht : (step cfg ws st i).world.targets.lookup t = some (cfg.target (ws who))) :
    (ws who).tid = some t ∧ ((step cfg ws st i).worker who).pc.exporting = true := by
  rw [step_world] at ht
  obtain ht | ⟨hnew, -⟩ := World.lookup_apply _ _ ht
  · obtain ⟨htid, hexp⟩ := h.named who t ht
    exact ⟨htid, step_exporting cfg ws hexp⟩
  · have hasks := issued_asks cfg ws st i
    rw [hnew] at hasks
    obtain ⟨htid, hname, hexp⟩ := hasks
    obtain rfl : who = i.who := who_inj hmac (target_inj hname)
    exact ⟨htid, step_exporting cfg ws hexp⟩

theorem Inv.step_standing {st : State} (h : Inv cfg ws st) (i : Turn) {who : Who} {k : ℕ}
    (hk : ((step cfg ws st i).worker who).pc = .lun k) :
    (step cfg ws st i).world.used (cfg.target (ws who)) = true := by
  have hbefore : st.world.used (cfg.target (ws who)) = true := by
    by_cases hwho : who = i.who
    · subst hwho
      have hpc : (next cfg (ws i.who) st.world i.ok (st.worker i.who)).pc = .lun k := by
        rw [← hk, step]
        dsimp only
        rw [Function.update_self]
      obtain hused | ⟨j, hj⟩ := (next_moves cfg _ st.world i.ok _).lun hpc
      · exact hused
      · exact h.standing i.who j hj
    · rw [step] at hk
      dsimp only at hk
      rw [Function.update_of_ne hwho] at hk
      exact h.standing who k hk
  obtain ⟨t, ht⟩ := (World.used_iff _).mp hbefore
  refine (World.used_iff _).mpr ⟨t, ?_⟩
  rw [step_world]
  exact World.lookup_apply_of_some _ _ (h.issued_ne_kill i) ht

/-- A new LUN goes into the worker's own target, on a device it keeps. -/
theorem Inv.step_kept (hmac : (ws .a).mac ≠ (ws .b).mac) {st : State} (h : Inv cfg ws st)
    (i : Turn) {who : Who} {t n : ℕ} {d : Dev}
    (ht : (step cfg ws st i).world.targets.lookup t = some (cfg.target (ws who)))
    (hn : (step cfg ws st i).world.luns t n = some d) :
    ((step cfg ws st i).worker who).keeps (ws who) d = true := by
  rw [step_world] at ht hn
  obtain ht | ⟨-, hempty⟩ := World.lookup_apply _ _ ht
  · obtain ⟨htid, hexp⟩ := h.named who t ht
    rw [step_keeps cfg ws hexp]
    obtain hn | hnew := World.luns_apply _ _ hn
    · exact h.kept who t n d ht hn
    · have hasks := issued_asks cfg ws st i
      rw [hnew] at hasks
      obtain ⟨htid', hkeeps, k, hk⟩ := hasks
      -- The worker's own target stands, under the same id.
      obtain ⟨u, hu⟩ := (World.used_iff _).mp (h.standing i.who k hk)
      obtain rfl : t = u := Option.some.inj (htid'.symm.trans (h.named i.who u hu).1)
      obtain rfl : who = i.who := who_inj hmac (target_inj (Option.some.inj (ht.symm.trans hu)))
      exact hkeeps
  · rw [hempty n] at hn
    exact absurd hn (by simp)

theorem issued_connect {st : State} {i : Turn} {d : Dev} {image : Str}
    (h : issued cfg ws st i = .connect d image) :
    i.ok = true ∧ command cfg (ws i.who) (st.worker i.who) = .connect d image := by
  unfold issued at h
  split at h
  · exact ⟨by assumption, h⟩
  · exact absurd h (by simp)

theorem Who.other_ne (x : Who) : x.other ≠ x := by cases x <;> decide

theorem Inv.step_apart (hmac : (ws .a).mac ≠ (ws .b).mac) {st : State} (h : Inv cfg ws st)
    {i : Turn} (hclear : Clear cfg ws st i) {who : Who} {d : Dev} {path : Str}
    (hr : ((step cfg ws st i).worker who).relies (ws who) d = true) :
    (step cfg ws st i).world.conn d ≠ some (cfg.child (ws who.other) path) := by
  intro hconn
  rw [step_world] at hconn
  rw [step] at hr
  dsimp only at hr
  by_cases hwho : who = i.who
  · subst hwho
    rw [Function.update_self] at hr
    obtain hconn | ⟨hnew, -⟩ := World.conn_apply _ _ hconn
    · obtain hr | hnone := relies_next cfg _ _ _ _ hr
      · exact h.apart i.who d path hr hconn
      · exact absurd (hnone.symm.trans hconn) (by simp)
    · -- A worker connects its own child images.
      have hasks := issued_asks cfg ws st i
      rw [hnew] at hasks
      obtain ⟨path', hchild⟩ := hasks
      exact Who.other_ne i.who (who_inj hmac (child_inj hchild))
  · rw [Function.update_of_ne hwho] at hr
    obtain hconn | ⟨hnew, hfree⟩ := World.conn_apply _ _ hconn
    · exact h.apart who d path hr hconn
    · obtain ⟨hok, hcmd⟩ := issued_connect hnew
      obtain rfl := Who.eq_other_of_ne hwho
      have hnot := hclear d (by rw [hcmd]; rfl) hok hfree
      exact absurd (hnot.symm.trans hr) (by decide)

theorem Inv.step (hmac : (ws .a).mac ≠ (ws .b).mac) {st : State} {i : Turn}
    (h : Inv cfg ws st) (hclear : Clear cfg ws st i) : Inv cfg ws (step cfg ws st i) where
  running who := step_stopping cfg ws (h.running who)
  named _ _ ht := h.step_named hmac i ht
  standing _ _ hk := h.step_standing i hk
  kept _ _ _ _ ht hn := h.step_kept hmac i ht hn
  apart _ _ _ hr := h.step_apart hmac hclear hr

/-- In every run of the two boots in which no step connects a device the other worker
relies on, no target exports a device with the other workstation's image, and no
step disconnects one. -/
theorem boots_isolated (hmac : (ws .a).mac ≠ (ws .b).mac) {st : State}
    (hstart : Starts cfg ws st) {turns : List Turn}
    (hclear : Along (Boot.step cfg ws) (Clear cfg ws) st turns) :
    Throughout (Boot.step cfg ws) (Isolated cfg ws) st turns ∧
      Along (Boot.step cfg ws) (Spares cfg ws) st turns := by
  have hstep : ∀ st i, Inv cfg ws st → Clear cfg ws st i → Inv cfg ws (Boot.step cfg ws st i) :=
    fun st i h hc => h.step hmac hc
  have hinv := starts_inv hstart
  exact ⟨(throughout_of_along hstep hinv hclear).mono fun _ h => h.isolated,
    along_of_along hstep (fun st i h _ => h.spares i) hinv hclear⟩

/-! ### Two workstations with one disk each -/

section Lab

def labConfig : Config where
  imgbackdir := "/images/back".toList
  imagePrefix := "_".toList
  iqn := "iqn.2024-01.lab".toList
  nbdNbds := 2

def labDisk : Img where
  path := some "win.img".toList
  enable := .num 1
  type := .str "dyndisk".toList
  cache := .str "writeback".toList

def lab : Who → Workstation
  | .a => ⟨⟨"aa:bb:cc:00:00:01".toList, by decide⟩, .num 1, some 1, [labDisk]⟩
  | .b => ⟨⟨"aa:bb:cc:00:00:02".toList, by decide⟩, .num 1, some 2, [labDisk]⟩

def labStart : State where
  world := { conn := fun _ => none, targets := ∅, luns := fun _ _ => none }
  worker := fun who => boot (lab who)

theorem labStart_starts : Starts labConfig lab labStart := ⟨fun _ => rfl, fun _ => rfl⟩

def turns (who : Who) (n : ℕ) : List Turn := List.replicate n ⟨who, true⟩

instance (cfg : Config) (ws : Who → Workstation) (st : State) (i : Turn) :
    Decidable (Clear cfg ws st i) :=
  inferInstanceAs (Decidable (∀ d ∈ Command.connects _, _ → _ → _))

/-- One boot after the other. -/
theorem boots_isolated_in_turn :
    Throughout (Boot.step labConfig lab) (Isolated labConfig lab) labStart
        (turns .a 12 ++ turns .b 13) ∧
      Along (Boot.step labConfig lab) (Spares labConfig lab) labStart
        (turns .a 12 ++ turns .b 13) :=
  boots_isolated (by decide) labStart_starts (by decide +kernel)

/-- Both searches come before both connects: the second worker's connect fails and it
exports the first one's disk.  When the second worker only tests the device after the
first has connected it, it disconnects it. -/
theorem overlapping_boots_not_isolated :
    Starts labConfig lab labStart ∧
      ¬ Throughout (Boot.step labConfig lab) (Isolated labConfig lab) labStart
        (turns .a 4 ++ turns .b 4 ++ turns .a 1 ++ turns .b 8) ∧
      ¬ Along (Boot.step labConfig lab) (Spares labConfig lab) labStart
        (turns .b 1 ++ turns .a 5 ++ turns .b 6) := by
  refine ⟨labStart_starts, fun h => ?_, fun h => ?_⟩
  · exact h _ List.prefix_rfl .b 2 1 1 (by decide +kernel) (by decide +kernel) "win.img".toList
      (by decide +kernel)
  · have hlast :=
      ((along_append _ _ (turns .b 1 ++ turns .a 5 ++ turns .b 5) (turns .b 1)).mp h).2.1
    exact hlast 1 (by decide +kernel) "win.img".toList (by decide +kernel)

end Lab

end

end Boot
end Control
end MkyBoot
