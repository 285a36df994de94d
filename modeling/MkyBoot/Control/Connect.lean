import MkyBoot.Control.Export

/-!
# LUNs whose connection failed

`nbdConnect` notes the device of an image before it connects it, and nobody looks at
what `nbd.add` has done.  If a connection fails, its device is still free when the next
image searches for one, and `LunAdd` exports both images on it.  Here every connection
may fail on its own, and `LunAdd` may come to an end after any number of rounds.
`luns_carry_own_iff` says when every LUN carries its own image.
-/

namespace MkyBoot
namespace Control
namespace Station

open Lua Command Lua.Prog

section

variable (env : Env) (cfg : Config) (w : Workstation) (ok : ℕ → Bool)

/-- A call of a wrapper whose command may fail. -/
def attempt (succeeds : Bool) (c : Command.Call) (s : World) : World :=
  if succeeds then call c s else s.record (.call c)

/-- `nbdConnect` when `ok` says which connections succeed, by the number of the image. -/
def nbdConnectWith : Prog World :=
  .each (w.img.zipIdx 1) fun e => nbdSearch env cfg w e fun s =>
    attempt (ok e.2) (.nbdAdd (s.nbd e.2) (.str (child cfg w e.1)) e.1.cache) s

theorem nbdConnectWith_true : nbdConnectWith env cfg w (fun _ => true) = nbdConnect env cfg w := rfl

def connectWith (s : World) (e : Image × ℕ) : World :=
  let s := setNbd e.2 (searchNbd s cfg) s
  if e.1.connects then
    attempt (ok e.2) (.nbdAdd (s.nbd e.2) (.str (child cfg w e.1)) e.1.cache) s
  else s

theorem ends_nbdConnectWith (s : World) (o : Lua.Call World) :
    Ends (nbdConnectWith env cfg w ok) s o ↔
      o = .returned ((w.img.zipIdx 1).foldl (connectWith cfg w ok) s) :=
  ends_each_iff (fun e s o => ends_nbdSearch env cfg w e _ s o) _ s o

/-! ## One connection -/

/-- The image takes the first free device. -/
def takesWith (e : Image × ℕ) : Bool := takes cfg w e.1 && ok e.2

variable {cfg w ok} {s : World} {e : Image × ℕ}

theorem connectWith_of_ok (h : ok e.2 = true) :
    connectWith cfg w ok s e = connectImage cfg w s e := by
  unfold connectWith attempt
  rw [h]
  rfl

/-- A connection that fails leaves everything but the log and the noted device. -/
theorem connectWith_of_not_ok {α : Type} (part : World → α)
    (hset : ∀ i v s, part (setNbd i v s) = part s) (hrecord : ∀ s e, part (s.record e) = part s)
    (h : ok e.2 = false) : part (connectWith cfg w ok s e) = part s := by
  unfold connectWith attempt
  dsimp only
  rw [h, if_neg Bool.false_ne_true]
  split
  · rw [hrecord, hset]
  · exact hset _ _ s

theorem free_connectWith : free cfg (connectWith cfg w ok s e) =
    (free cfg s).drop (if takesWith cfg w ok e then 1 else 0) := by
  rw [takesWith]
  cases hok : ok e.2 with
  | true => rw [connectWith_of_ok hok, free_connectImage, Bool.and_true]
  | false =>
    rw [connectWith_of_not_ok (free cfg) (fun _ _ _ => rfl) (fun _ _ => rfl) hok, Bool.and_false]
    rfl

theorem connectWith_nbd : (connectWith cfg w ok s e).nbd =
    Function.update s.nbd e.2 (device (free cfg s)) := by
  rw [← searchNbd_eq]
  unfold connectWith attempt
  dsimp only
  split
  · split
    · rw [call_nbd]
      rfl
    · rfl
  · rfl

theorem connectWith_files : (connectWith cfg w ok s e).files = s.files := by
  cases hok : ok e.2 with
  | true => rw [connectWith_of_ok hok, connectImage_files]
  | false =>
    rw [connectWith_of_not_ok World.files (fun _ _ _ => rfl) (fun _ _ => rfl) hok]

theorem connectWith_log : ∃ added : List Command.Call,
    (connectWith cfg w ok s e).log = s.log ++ added.map .call ∧
      ∀ c ∈ added, ∃ d p f, c = .nbdAdd d p f := by
  have hlog (c : Command.Call) (s : World) :
      (attempt (ok e.2) c s).log = s.log ++ [.call c] := by
    unfold attempt
    split
    · exact call_log c s
    · rfl
  unfold connectWith
  dsimp only
  split
  · refine ⟨[_], hlog _ _, fun c hc => ?_⟩
    exact ⟨_, _, _, List.mem_singleton.mp hc⟩
  · exact ⟨[], (List.append_nil _).symm, by simp⟩

/-- An image that takes a device is connected to it. -/
theorem connectWith_holders : (connectWith cfg w ok s e).holders =
    s.holders ++ if takesWith cfg w ok e then
      (free cfg s).head?.toList.map fun d => (Boot.devName d, .qemuNbd (child cfg w e.1))
    else [] := by
  rw [takesWith]
  cases hok : ok e.2 with
  | false =>
    rw [connectWith_of_not_ok World.holders (fun _ _ _ => rfl) (fun _ _ => rfl) hok, Bool.and_false]
    exact (List.append_nil _).symm
  | true =>
    rw [connectWith_of_ok hok, Bool.and_true]
    unfold connectImage
    dsimp only
    by_cases hcon : e.1.connects = true
    · rw [if_pos hcon, setNbd_self, searchNbd_eq]
      unfold call
      cases hfree : free cfg s with
      | nil =>
        rw [if_neg (by rw [device]; exact Bool.false_ne_true)]
        simp [World.record, setNbd]
      | cons d ds =>
        have haccepts := accepts_nbdAdd cfg w (d := d) hcon
        change accepts (.nbdAdd (device (d :: ds)) _ _) = _ at haccepts
        rw [haccepts]
        by_cases htakes : takes cfg w e.1 = true
        · rw [if_pos htakes, if_pos htakes]
          have hmem : d ∈ free cfg s := hfree ▸ List.mem_cons_self
          exact connect_holders cfg hmem _
        · rw [if_neg htakes, if_neg htakes]
          exact (List.append_nil _).symm
    · have htakes : takes cfg w e.1 = false := by
        rw [takes, Bool.not_eq_true _ |>.mp hcon]
        rfl
      rw [if_neg hcon, htakes]
      exact (List.append_nil _).symm

/-! ## The first images -/

section

variable (cfg w ok)

/-- The world after the first images. -/
def after (s : World) (k : ℕ) : World := ((w.img.zipIdx 1).take k).foldl (connectWith cfg w ok) s

/-- The images among the first that take a device. -/
def slot (k : ℕ) : ℕ := ((w.img.zipIdx 1).take k).countP (takesWith cfg w ok)

end

section

variable {k m : ℕ} {v : Image}

theorem take_zipIdx_succ (hv : w.img[k]? = some v) :
    (w.img.zipIdx 1).take (k + 1) = (w.img.zipIdx 1).take k ++ [(v, k + 1)] := by
  rw [List.take_add_one, List.getElem?_zipIdx, hv, Nat.add_comm 1 k]
  rfl

theorem after_succ (hv : w.img[k]? = some v) :
    after cfg w ok s (k + 1) = connectWith cfg w ok (after cfg w ok s k) (v, k + 1) := by
  rw [after, take_zipIdx_succ hv, List.foldl_append]
  rfl

theorem after_succ_none (hv : w.img[k]? = none) :
    after cfg w ok s (k + 1) = after cfg w ok s k := by
  rw [after, List.take_add_one, List.getElem?_zipIdx, hv]
  exact congrArg (List.foldl (connectWith cfg w ok) s) (List.append_nil _)

theorem after_length : after cfg w ok s w.img.length =
    (w.img.zipIdx 1).foldl (connectWith cfg w ok) s := by
  rw [after, List.take_of_length_le (List.length_zipIdx.le)]

theorem slot_succ (hv : w.img[k]? = some v) : slot cfg w ok (k + 1) =
    slot cfg w ok k + if takesWith cfg w ok (v, k + 1) then 1 else 0 := by
  rw [slot, take_zipIdx_succ hv, List.countP_append, List.countP_singleton]
  rfl

theorem slot_succ_none (hv : w.img[k]? = none) : slot cfg w ok (k + 1) = slot cfg w ok k := by
  rw [slot, List.take_add_one, List.getElem?_zipIdx, hv]
  exact congrArg (List.countP (takesWith cfg w ok)) (List.append_nil _)

theorem slot_mono : Monotone (slot cfg w ok) := by
  refine monotone_nat_of_le_succ fun k => ?_
  cases hv : w.img[k]? with
  | none => rw [slot_succ_none hv]
  | some v =>
    rw [slot_succ hv]
    exact Nat.le_add_right _ _

theorem slot_succ_eq_iff : slot cfg w ok (k + 1) = slot cfg w ok k ↔
    ∀ v, w.img[k]? = some v → takesWith cfg w ok (v, k + 1) = false := by
  cases hv : w.img[k]? with
  | none => exact iff_of_true (slot_succ_none hv) (by simp)
  | some v =>
    rw [slot_succ hv]
    simp

/-- Two numbers have one slot exactly if no image between them takes a device. -/
theorem slot_eq_iff (hkm : k ≤ m) : slot cfg w ok m = slot cfg w ok k ↔
    ∀ i v, k ≤ i → i < m → w.img[i]? = some v → takesWith cfg w ok (v, i + 1) = false := by
  induction m, hkm using Nat.le_induction with
  | base => exact ⟨fun _ i v hi hlt => absurd hi (Nat.not_le.mpr hlt), fun _ => rfl⟩
  | succ m hm ih =>
    have hle : slot cfg w ok k ≤ slot cfg w ok m := slot_mono hm
    have hstep : slot cfg w ok m ≤ slot cfg w ok (m + 1) := slot_mono (Nat.le_succ m)
    constructor
    · intro heq i v hi hlt hv
      obtain hlt | rfl := Nat.lt_succ_iff_lt_or_eq.mp hlt
      · exact ih.mp (by omega) i v hi hlt hv
      · exact slot_succ_eq_iff.mp (by omega) v hv
    · intro hall
      rw [slot_succ_eq_iff.mpr fun v => hall m v hm (Nat.lt_succ_self m)]
      exact ih.mpr fun i v hi hlt => hall i v hi (Nat.lt_succ_of_lt hlt)

theorem slot_lt (hkm : k < m) (hv : w.img[k]? = some v)
    (htakes : takesWith cfg w ok (v, k + 1) = true) : slot cfg w ok m ≠ slot cfg w ok k := by
  intro heq
  exact absurd ((slot_eq_iff hkm.le).mp heq k v le_rfl hkm hv) (by rw [htakes]; simp)

theorem free_after : free cfg (after cfg w ok s k) = (free cfg s).drop (slot cfg w ok k) := by
  induction k with
  | zero => rfl
  | succ k ih =>
    cases hv : w.img[k]? with
    | none => rw [after_succ_none hv, slot_succ_none hv, ih]
    | some v => rw [after_succ hv, slot_succ hv, free_connectWith, ih, List.drop_drop]

theorem after_nbd (hkm : k < m) (hv : w.img[k]? = some v) :
    (after cfg w ok s m).nbd (k + 1) = device ((free cfg s).drop (slot cfg w ok k)) := by
  induction m, hkm using Nat.le_induction with
  | base => rw [after_succ hv, connectWith_nbd, Function.update_self, free_after]
  | succ m hm ih =>
    cases hu : w.img[m]? with
    | none => rw [after_succ_none hu, ih]
    | some u => rw [after_succ hu, connectWith_nbd, Function.update_of_ne (by simp; omega), ih]

theorem after_files : (after cfg w ok s k).files = s.files := by
  induction k with
  | zero => rfl
  | succ k ih =>
    cases hv : w.img[k]? with
    | none => rw [after_succ_none hv, ih]
    | some v => rw [after_succ hv, connectWith_files, ih]

theorem after_log : ∃ added : List Command.Call,
    (after cfg w ok s k).log = s.log ++ added.map .call ∧
      ∀ c ∈ added, ∃ d p f, c = .nbdAdd d p f := by
  induction k with
  | zero => exact ⟨[], (List.append_nil _).symm, by simp⟩
  | succ k ih =>
    cases hv : w.img[k]? with
    | none => rwa [after_succ_none hv]
    | some v =>
      obtain ⟨added, hlog, hadded⟩ := ih
      obtain ⟨new, hnew, hnews⟩ := @connectWith_log cfg w ok (after cfg w ok s k) (v, k + 1)
      refine ⟨added ++ new, ?_, fun c hc => ?_⟩
      · rw [after_succ hv, hnew, hlog, List.map_append, List.append_assoc]
      · obtain hc | hc := List.mem_append.mp hc
        · exact hadded c hc
        · exact hnews c hc

/-- Who holds a device after the first images: who held it before, and the images that
took one. -/
theorem mem_after_holders {h : Str × Holder} : h ∈ (after cfg w ok s m).holders ↔
    h ∈ s.holders ∨ ∃ k v d, k < m ∧ w.img[k]? = some v ∧ takesWith cfg w ok (v, k + 1) = true ∧
      (free cfg s)[slot cfg w ok k]? = some d ∧
        h = (Boot.devName d, .qemuNbd (child cfg w v)) := by
  induction m with
  | zero => simp [after]
  | succ m ih =>
    cases hv : w.img[m]? with
    | none =>
      rw [after_succ_none hv, ih]
      refine or_congr_right (exists_congr fun k => exists_congr fun v => exists_congr fun d => ?_)
      constructor
      · exact fun ⟨hk, hrest⟩ => ⟨Nat.lt_succ_of_lt hk, hrest⟩
      · rintro ⟨hk, hkv, hrest⟩
        obtain hlt | rfl := Nat.lt_succ_iff_lt_or_eq.mp hk
        · exact ⟨hlt, hkv, hrest⟩
        · exact absurd (hv.symm.trans hkv) (by simp)
    | some v =>
      rw [after_succ hv, connectWith_holders, List.mem_append, ih, free_after, List.head?_drop,
        or_assoc]
      refine or_congr_right ?_
      constructor
      · rintro (⟨k, u, d, hk, hrest⟩ | hnew)
        · exact ⟨k, u, d, Nat.lt_succ_of_lt hk, hrest⟩
        · split at hnew
          · rename_i htakes
            obtain ⟨d, hd, rfl⟩ := List.mem_map.mp hnew
            exact ⟨m, v, d, Nat.lt_succ_self m, hv, htakes, Option.mem_toList.mp hd, rfl⟩
          · exact absurd hnew List.not_mem_nil
      · rintro ⟨k, u, d, hk, hu, htakes, hd, rfl⟩
        obtain hlt | rfl := Nat.lt_succ_iff_lt_or_eq.mp hk
        · exact Or.inl ⟨k, u, d, hlt, hu, htakes, hd, rfl⟩
        · obtain rfl : v = u := Option.some.inj (hv.symm.trans hu)
          refine Or.inr ?_
          rw [if_pos htakes, hd]
          exact List.mem_singleton_self _

end

/-! ## `LunAdd` -/

section

variable {env : Env} {t u : World}

/-- The connections stay as they are. -/
def SameServed (s t : World) : Prop :=
  ∀ d image, (d, .qemuNbd image) ∈ t.holders ↔ (d, .qemuNbd image) ∈ s.holders

theorem SameServed.refl (s : World) : SameServed s s := fun _ _ => Iff.rfl

theorem SameServed.trans (s t u : World) (h : SameServed s t) (h' : SameServed t u) :
    SameServed s u := fun d image => (h' d image).trans (h d image)

theorem sameServed_lunAdd (tid lun dev : Val) (s : World) :
    SameServed s (call (.lunAdd tid lun dev) s) := by
  intro d image
  unfold call
  split
  · rw [effect, World.newLun]
    cases tonumber tid with
    | none => rfl
    | some q =>
      rw [Option.elim_some]
      split
      · simp [World.record]
      · rfl
  · rfl

theorem sameServed_tgtstart : Within SameServed (tgtstart env cfg w) := by
  intro s t h
  have hcall {c : Command.Call} (hc : ∀ s, (effect s c).holders = s.holders) (s : World) :
      SameServed s (call c s) := fun d image => by
    rw [call_part c s World.holders (fun _ => rfl) hc]
  unfold tgtstart at h
  split at h
  · split at h
    · rw [← Lua.Call.returned.inj h]
      exact SameServed.trans _ _ _ (hcall (fun _ => rfl) s) (hcall (fun _ => rfl) _)
    · exact absurd h (by simp)
  · rw [← Lua.Call.returned.inj h]
    exact SameServed.refl s

theorem sameServed_lunImage (e : Image × ℕ) : Within SameServed (lunImage env cfg w e) := by
  intro s t h
  rw [lunImage_returned env cfg w h]
  cases hcall : lunCall env cfg w s e with
  | none => exact SameServed.refl s
  | some c =>
    obtain ⟨dev, rfl⟩ := lunCall_some env cfg w hcall
    exact sameServed_lunAdd _ _ dev s

theorem sameServed_lunRounds {l : List (Image × ℕ)}
    (h : Ends (lunRounds env cfg w l) s (.returned t)) : SameServed s t := by
  have hskip : Within SameServed (fun s : World => .returned s) := fun s t h =>
    Lua.Call.returned.inj h ▸ SameServed.refl s
  have hacts : (lunRounds env cfg w l).Acts (Within SameServed) :=
    ⟨sameServed_tgtstart, acts_each hskip fun e _ => sameServed_lunImage e, hskip⟩
  exact Ends.within SameServed.refl SameServed.trans hacts h

/-- The call of an image is let through if it is a disk with a device, and if target and
LUN number are in range. -/
theorem lunCall_accepted_iff {tid d : Val} {i : ℕ} :
    (lunCall env cfg w u e = some (.lunAdd tid (.num i) d) ∧
        accepts (.lunAdd tid (.num i) d) = true) ↔
      e.2 = i ∧ e.1.connects = true ∧ isFile env u d = true ∧ tid = w.tid ∧ d = u.nbd i ∧
        accepts (.lunAdd tid (.num i) d) = true := by
  constructor
  · rintro ⟨hcall, haccepts⟩
    obtain ⟨dev, hdev⟩ := lunCall_some env cfg w hcall
    injection hdev with htid hi _
    obtain rfl : e.2 = i := by exact_mod_cast (Val.num.inj hi).symm
    unfold lunCall at hcall
    split at hcall
    · rename_i hdisk
      rw [Bool.and_eq_true, Bool.and_eq_true] at hdisk
      split at hcall
      · rename_i hfile
        injection Option.some.inj hcall with _ _ hd
        exact ⟨rfl, connects_iff.mpr hdisk.1, hd ▸ hfile, htid, hd.symm, haccepts⟩
      · exact absurd hcall (by simp)
    · split at hcall
      · injection Option.some.inj hcall with _ _ hd
        rw [accepts, Bool.and_eq_true, ← hd, devPath_iso] at haccepts
        exact absurd haccepts.2 Bool.false_ne_true
      · exact absurd hcall (by simp)
  · rintro ⟨rfl, hcon, hfile, rfl, rfl, haccepts⟩
    obtain ⟨hon, hdisk⟩ := connects_iff.mp hcon
    have htid : w.tid ≠ .nil := by
      intro htid
      rw [htid] at haccepts
      exact absurd haccepts (by simp [accepts, Valid.tid, Valid.inRange, tonumber])
    refine ⟨?_, haccepts⟩
    rw [lunCall, hon, hdisk, if_pos (by simp [htid]), if_pos hfile]

end

end

/-! ## Own images -/

section

variable (env : Env) (cfg : Config) (w : Workstation) (ok : ℕ → Bool)

/-- A LUN is on a device that is connected to the child of its image, and no other LUN is
on that device. -/
structure CarryOwn (s t : World) : Prop where
  connected : ∀ k v tid d, w.img[k]? = some v →
    .lunAdd tid (.num (k + 1 : ℕ)) (.str d) ∈ issued s t → (d, .qemuNbd (child cfg w v)) ∈ t.holders
  apart : ∀ i k tid tid' d, i ≠ k → .lunAdd tid (.num (i + 1 : ℕ)) d ∈ issued s t →
    .lunAdd tid' (.num (k + 1 : ℕ)) d ∉ issued s t

/-- One of the first `n` images becomes a LUN: a device is free when its turn comes, and
target and LUN number are in range. -/
structure Exported (n : ℕ) (s : World) (k : ℕ) (v : Image) : Prop where
  round : k < n
  connects : v.connects = true
  tid : Valid.tid w.tid = true
  lun : k + 1 ≤ 255
  free : slot cfg w ok k < (free cfg s).length

/-- Before the next LUN, the device is connected for a later image with the same child. -/
def Rescued (n : ℕ) (s : World) (k : ℕ) (v : Image) : Prop :=
  ∃ j u, k < j ∧ w.img[j]? = some u ∧ takesWith cfg w ok (u, j + 1) = true ∧
    child cfg w u = child cfg w v ∧ ∀ i u, k < i → w.img[i]? = some u →
      (i < j → takesWith cfg w ok (u, i + 1) = false) ∧ (i ≤ j → ¬ Exported cfg w ok n s i u)

variable {env cfg w ok} {n k : ℕ} {s t : World}

theorem mem_take_zipIdx {e : Image × ℕ} (hi : e.2 = k + 1) :
    e ∈ (w.img.zipIdx 1).take n ↔ k < n ∧ w.img[k]? = some e.1 := by
  rw [List.mem_iff_getElem?]
  simp only [List.getElem?_take, List.getElem?_zipIdx]
  constructor
  · rintro ⟨j, hj⟩
    split at hj
    · rename_i hlt
      obtain ⟨v, hv, rfl⟩ := Option.map_eq_some_iff.mp hj
      obtain rfl : j = k := by
        dsimp only at hi
        omega
      exact ⟨hlt, hv⟩
    · exact absurd hj (by simp)
  · rintro ⟨hlt, hv⟩
    refine ⟨k, ?_⟩
    rw [if_pos hlt, hv, Option.map_some, Nat.add_comm 1 k, ← hi]

theorem device_drop (l : List ℕ) (i : ℕ) :
    device (l.drop i) = l[i]?.elim (.bool false) fun x => .str (Boot.devName x) := by
  rw [device, List.head?_drop]

theorem accepts_lunAdd {x : ℕ} :
    accepts (.lunAdd w.tid (.num (k + 1 : ℕ)) (.str (Boot.devName x))) = true ↔
      Valid.tid w.tid = true ∧ k + 1 ≤ 255 := by
  rw [accepts, devPath_devName, Bool.and_true, Bool.and_eq_true, lunId_nat]

theorem free_index_unique {i j x : ℕ} (hi : (free cfg s)[i]? = some x)
    (hj : (free cfg s)[j]? = some x) : i = j := by
  have hnodup : (free cfg s).Nodup := List.Nodup.filter _ List.nodup_range'
  exact (List.getElem?_inj (List.getElem?_eq_some_iff.mp hi).1 hnodup).mp (hi.trans hj.symm)

/-- The calls of `lun.add` that are let through. -/
theorem mem_issued_lunAdd {tid d : Val}
    (hend : Ends (.seq (nbdConnectWith env cfg w ok)
      (lunRounds env cfg w ((w.img.zipIdx 1).take n))) s (.returned t)) :
    .lunAdd tid (.num (k + 1 : ℕ)) d ∈ issued s t ↔ ∃ v, k < n ∧ w.img[k]? = some v ∧
      v.connects = true ∧ isFile env s d = true ∧ tid = w.tid ∧
        d = device ((free cfg s).drop (slot cfg w ok k)) ∧
          accepts (.lunAdd tid (.num (k + 1 : ℕ)) d) = true := by
  obtain ⟨u, hu, ht⟩ := ends_seq_returned.mp hend
  rw [ends_nbdConnectWith, Lua.Call.returned.injEq, ← after_length] at hu
  obtain ⟨added, hlog, hadded⟩ := @after_log cfg w ok s w.img.length
  obtain ⟨-, -, added', hadded', hlog'⟩ := lunRounds_spec env cfg w ht
  rw [hu, hlog, List.append_assoc, ← List.map_append] at hlog'
  have hnot : .lunAdd tid (.num (k + 1 : ℕ)) d ∉ added := fun hmem => by
    obtain ⟨_, _, _, hc⟩ := hadded _ hmem
    exact absurd hc (by simp)
  have hnot' : .lunAdd tid (.num (k + 1 : ℕ)) d ∉ added' := fun hmem => hadded' _ hmem _ _ _ rfl
  have hfile : isFile env (after cfg w ok s w.img.length) d = isFile env s d :=
    isFile_congr env after_files d
  rw [issued_eq hlog', List.mem_filter, List.mem_append, List.mem_append, or_iff_right hnot,
    or_iff_right hnot', List.mem_filterMap]
  constructor
  · rintro ⟨⟨e, he, hcall⟩, haccepts⟩
    obtain ⟨hi, hcon, hfile', htid, hd, -⟩ := lunCall_accepted_iff.mp ⟨hcall, haccepts⟩
    obtain ⟨hlt, hv⟩ := (mem_take_zipIdx hi).mp he
    rw [after_nbd (List.getElem?_eq_some_iff.mp hv).1 hv] at hd
    exact ⟨e.1, hlt, hv, hcon, hfile ▸ hfile', htid, hd, haccepts⟩
  · rintro ⟨v, hlt, hv, hcon, hfile', htid, hd, haccepts⟩
    rw [← after_nbd (List.getElem?_eq_some_iff.mp hv).1 hv] at hd
    obtain ⟨hcall, -⟩ := (lunCall_accepted_iff (e := (v, k + 1))).mpr
      ⟨rfl, hcon, hfile.trans hfile', htid, hd, haccepts⟩
    exact ⟨⟨(v, k + 1), (mem_take_zipIdx rfl).mpr ⟨hlt, hv⟩, hcall⟩, haccepts⟩

section

variable (hnodes : ∀ i, 1 ≤ i → i ≤ cfg.nbdNbds → env.present (Boot.devName i) = true)
  (hend : Ends (.seq (nbdConnectWith env cfg w ok)
    (lunRounds env cfg w ((w.img.zipIdx 1).take n))) s (.returned t))

include hnodes hend in
/-- The LUNs are those of the exported images, on the device of their slot. -/
theorem mem_issued_iff {tid d : Val} :
    .lunAdd tid (.num (k + 1 : ℕ)) d ∈ issued s t ↔ tid = w.tid ∧ ∃ v x, w.img[k]? = some v ∧
      Exported cfg w ok n s k v ∧ (free cfg s)[slot cfg w ok k]? = some x ∧
        d = .str (Boot.devName x) := by
  rw [mem_issued_lunAdd hend]
  constructor
  · rintro ⟨v, hlt, hv, hcon, hfile, rfl, hd, haccepts⟩
    rw [device_drop] at hd
    cases hx : (free cfg s)[slot cfg w ok k]? with
    | none =>
      rw [hx] at hd
      rw [hd] at hfile
      exact absurd hfile Bool.false_ne_true
    | some x =>
      rw [hx] at hd
      rw [hd] at haccepts
      obtain ⟨htid, hlun⟩ := accepts_lunAdd.mp haccepts
      exact ⟨rfl, v, x, hv, ⟨hlt, hcon, htid, hlun, (List.getElem?_eq_some_iff.mp hx).1⟩, rfl, hd⟩
  · rintro ⟨rfl, v, x, hv, hexp, hx, rfl⟩
    have hrange : x ∈ List.range' 1 cfg.nbdNbds :=
      (List.mem_filter.mp (List.mem_of_getElem? hx)).1
    rw [List.mem_range'_1] at hrange
    refine ⟨v, hexp.round, hv, hexp.connects, ?_, rfl, ?_, accepts_lunAdd.mpr ⟨hexp.tid, hexp.lun⟩⟩
    · rw [isFile, hnodes x hrange.1 (by omega), Bool.true_or]
    · rw [device_drop, hx]
      rfl

include hend in
/-- A free device is connected to an image exactly if an image of its slot took it. -/
theorem mem_holders_iff {x i : ℕ} (hx : (free cfg s)[i]? = some x) {image : Str} :
    (Boot.devName x, .qemuNbd image) ∈ t.holders ↔ ∃ k v, w.img[k]? = some v ∧
      takesWith cfg w ok (v, k + 1) = true ∧ slot cfg w ok k = i ∧ child cfg w v = image := by
  obtain ⟨u, hu, ht⟩ := ends_seq_returned.mp hend
  rw [ends_nbdConnectWith, Lua.Call.returned.injEq, ← after_length] at hu
  rw [sameServed_lunRounds ht, hu, mem_after_holders]
  have hunheld : (Boot.devName x, .qemuNbd image) ∉ s.holders := fun hmem => by
    have hfree := (List.mem_filter.mp (List.mem_of_getElem? hx)).2
    rw [Bool.not_eq_true', List.any_eq_false] at hfree
    exact hfree _ hmem (beq_self_eq_true _)
  rw [or_iff_right hunheld]
  constructor
  · rintro ⟨k, v, d, -, hv, htakes, hd, heq⟩
    injection heq with hdev himage
    obtain rfl := devName_injective hdev
    exact ⟨k, v, hv, htakes, free_index_unique hd hx, (Holder.qemuNbd.inj himage).symm⟩
  · rintro ⟨k, v, hv, htakes, rfl, rfl⟩
    exact ⟨k, v, x, (List.getElem?_eq_some_iff.mp hv).1, hv, htakes, hx, rfl⟩

end

/-- An exported image is connected or rescued, if every LUN carries its own image. -/
theorem takes_or_rescued
    (hnodes : ∀ i, 1 ≤ i → i ≤ cfg.nbdNbds → env.present (Boot.devName i) = true)
    (hend : Ends (.seq (nbdConnectWith env cfg w ok)
      (lunRounds env cfg w ((w.img.zipIdx 1).take n))) s (.returned t))
    (hown : CarryOwn cfg w s t) {v : Image} (hv : w.img[k]? = some v)
    (hexp : Exported cfg w ok n s k v) :
    takesWith cfg w ok (v, k + 1) = true ∨ Rescued cfg w ok n s k v := by
  by_cases htakes : takesWith cfg w ok (v, k + 1) = true
  · exact Or.inl htakes
  · obtain ⟨x, hx⟩ : ∃ x, (free cfg s)[slot cfg w ok k]? = some x :=
      ⟨_, List.getElem?_eq_getElem hexp.free⟩
    have hlun : .lunAdd w.tid (.num (k + 1 : ℕ)) (.str (Boot.devName x)) ∈ issued s t :=
      (mem_issued_iff hnodes hend).mpr ⟨rfl, v, x, hv, hexp, hx, rfl⟩
    -- some image has connected the device
    obtain ⟨j, u, hu, hutakes, hslot, hchild⟩ :=
      (mem_holders_iff hend hx).mp (hown.connected k v _ _ hv hlun)
    have hkj : k < j := by
      obtain hlt | rfl | hlt := Nat.lt_trichotomy j k
      · exact absurd hslot.symm (slot_lt hlt hu hutakes)
      · exact absurd (Option.some.inj (hv.symm.trans hu) ▸ hutakes) htakes
      · exact hlt
    have hquiet := (slot_eq_iff hkj.le).mp hslot
    refine Or.inr ⟨j, u, hkj, hu, hutakes, hchild,
      fun i u' hki hu' => ⟨fun hij => ?_, fun hij hexp' => ?_⟩⟩
    · exact hquiet i u' hki.le hij hu'
    · have hslot' : slot cfg w ok i = slot cfg w ok k :=
        (slot_eq_iff hki.le).mpr fun m v' hm hmi => hquiet m v' hm (hmi.trans_le hij)
      refine hown.apart i k w.tid w.tid _ hki.ne' ((mem_issued_iff hnodes hend).mpr
        ⟨rfl, u', x, hu', hexp', ?_, rfl⟩) hlun
      rw [hslot', hx]

/-- Of two exported images on one device the first would be connected or rescued, and
then the second has another slot. -/
theorem slot_ne_of_exported {i : ℕ} {v u : Image} (hik : i < k) (hv : w.img[i]? = some v)
    (hu : w.img[k]? = some u) (hexp : Exported cfg w ok n s k u)
    (hi : takesWith cfg w ok (v, i + 1) = true ∨ Rescued cfg w ok n s i v) :
    slot cfg w ok k ≠ slot cfg w ok i := by
  obtain htakes | ⟨j, u', hij, hu', hutakes, -, hall⟩ := hi
  · exact slot_lt hik hv htakes
  · intro hslot
    obtain hkj | hjk := Nat.lt_or_ge j k
    · have hquiet := (slot_eq_iff hik.le).mp hslot j u' hij.le hkj hu'
      exact absurd hutakes (by rw [hquiet]; simp)
    · exact (hall k u hik hu).2 hjk hexp

end

theorem lunRounds_all (env : Env) (cfg : Config) (w : Workstation) :
    lunRounds env cfg w ((w.img.zipIdx 1).take w.img.length) = lunAdd env cfg w := by
  rw [List.take_of_length_le List.length_zipIdx.le]
  rfl

/-- When every LUN carries its own image, after any number of rounds of `LunAdd` and
whichever connections have failed. -/
theorem luns_carry_own_iff (env : Env) (cfg : Config) (w : Workstation) (ok : ℕ → Bool) (n : ℕ)
    (s t : World) (hnodes : ∀ i, 1 ≤ i → i ≤ cfg.nbdNbds → env.present (Boot.devName i) = true)
    (hend : Ends (.seq (nbdConnectWith env cfg w ok)
      (lunRounds env cfg w ((w.img.zipIdx 1).take n))) s (.returned t)) :
    CarryOwn cfg w s t ↔ ∀ k v, w.img[k]? = some v → Exported cfg w ok n s k v →
      takesWith cfg w ok (v, k + 1) = true ∨ Rescued cfg w ok n s k v := by
  refine ⟨fun hown k v hv hexp => takes_or_rescued hnodes hend hown hv hexp, fun hall => ⟨?_, ?_⟩⟩
  · intro k v tid d hv hlun
    obtain ⟨-, v', x, hv', hexp, hx, hd⟩ := (mem_issued_iff hnodes hend).mp hlun
    obtain rfl : v = v' := Option.some.inj (hv.symm.trans hv')
    rw [Val.str.inj hd, mem_holders_iff hend hx]
    obtain htakes | ⟨j, u, hkj, hu, hutakes, hchild, hquiet⟩ := hall k v hv hexp
    · exact ⟨k, v, hv, htakes, rfl, rfl⟩
    · by_cases htakes : takesWith cfg w ok (v, k + 1) = true
      · exact ⟨k, v, hv, htakes, rfl, rfl⟩
      · refine ⟨j, u, hu, hutakes, (slot_eq_iff hkj.le).mpr fun i u' hki hij hu' => ?_, hchild⟩
        obtain rfl | hki := hki.eq_or_lt
        · rw [← Option.some.inj (hv.symm.trans hu')]
          exact Bool.not_eq_true _ |>.mp htakes
        · exact (hquiet i u' hki hu').1 hij
  · intro i k tid tid' d hne hi hk
    obtain ⟨-, v, x, hv, hexp, hx, rfl⟩ := (mem_issued_iff hnodes hend).mp hi
    obtain ⟨-, u, y, hu, hexp', hy, hd⟩ := (mem_issued_iff hnodes hend).mp hk
    obtain rfl := devName_injective (Val.str.inj hd)
    have hslot := free_index_unique hx hy
    obtain hlt | hlt := Nat.lt_or_gt_of_ne hne
    · exact slot_ne_of_exported hlt hv hu hexp' (hall i v hv hexp) hslot.symm
    · exact slot_ne_of_exported hlt hu hv hexp (hall k u hu hexp') hslot

/-! Two disks.  If the connection of the first one fails, both are exported on the device
of the second one. -/

theorem connected_disks_carry_own :
    ∃ t, Ends (.seq (nbdConnectWith lab shipped (station [windows, games]) fun _ => true)
        (lunRounds lab shipped (station [windows, games])
          (((station [windows, games]).img.zipIdx 1).take 2))) idle (.returned t) ∧
      CarryOwn shipped (station [windows, games]) idle t := by
  obtain ⟨t, ht⟩ := Option.isSome_iff_exists.mp
    (show (result 1 (.seq (nbdConnectWith lab shipped (station [windows, games]) fun _ => true)
      (lunRounds lab shipped (station [windows, games])
        (((station [windows, games]).img.zipIdx 1).take 2))) idle).isSome = true by decide +kernel)
  refine ⟨t, ends_of_result ht, (luns_carry_own_iff lab shipped _ (fun _ => true) 2 idle t ?_
    (ends_of_result ht)).mpr fun k v hv _ => Or.inl ?_⟩
  · intro i _ _
    show (Valid.devPath _ || _) = true
    rw [devPath_devName, Bool.true_or]
  · have hmem : v ∈ [windows, games] := List.mem_of_getElem? hv
    rw [List.mem_cons, List.mem_singleton] at hmem
    show (takes shipped (station [windows, games]) v && true) = true
    obtain rfl | rfl := hmem
    · decide +kernel
    · decide +kernel

def addsLun (tid lun dev : Val) : Command.Call → Bool
  | .lunAdd tid' lun' dev' => tid' == tid && lun' == lun && dev' == dev
  | _ => false

theorem lunAdd_mem {tid lun dev : Val} {cs : List Command.Call}
    (h : cs.any (addsLun tid lun dev) = true) : .lunAdd tid lun dev ∈ cs := by
  obtain ⟨c, hmem, hc⟩ := List.any_eq_true.mp h
  cases c with
  | lunAdd tid' lun' dev' =>
    rw [addsLun, Bool.and_eq_true, Bool.and_eq_true, beq_iff_eq, beq_iff_eq, beq_iff_eq] at hc
    rwa [← hc.1.1, ← hc.1.2, ← hc.2]
  | _ => exact absurd hc Bool.false_ne_true

theorem failed_disk_shares_device :
    ∃ t, Ends (.seq (nbdConnectWith lab shipped (station [windows, games]) fun i => i != 1)
        (lunAdd lab shipped (station [windows, games]))) idle (.returned t) ∧
      ¬ CarryOwn shipped (station [windows, games]) idle t := by
  have hrun : (result 1 (.seq
      (nbdConnectWith lab shipped (station [windows, games]) fun i => i != 1)
      (lunAdd lab shipped (station [windows, games]))) idle).map (fun t =>
        (issued idle t).any (addsLun (.num 2) (.num (0 + 1 : ℕ)) (.str "/dev/nbd1".toList)) &&
          (issued idle t).any (addsLun (.num 2) (.num (1 + 1 : ℕ)) (.str "/dev/nbd1".toList))) =
      some true := by
    decide +kernel
  obtain ⟨t, ht, hluns⟩ := Option.map_eq_some_iff.mp hrun
  rw [Bool.and_eq_true] at hluns
  exact ⟨t, ends_of_result ht, fun hown =>
    hown.apart 0 1 _ _ _ (by decide) (lunAdd_mem hluns.1) (lunAdd_mem hluns.2)⟩

end Station
end Control
end MkyBoot
