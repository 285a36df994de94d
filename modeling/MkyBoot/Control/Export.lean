import MkyBoot.Control.Station

/-!
# Exported LUNs

The iPXE script names LUNs by the numbers of the images that have a boot order, and
`LunAdd` exports images by their number.  Between the two stand the search for a free
device, the validators of `nbd.add` and those of `lun.add`, each with its own idea of
which images count.  `luns_agree_iff` says for every configuration when script and
target agree.
-/

namespace MkyBoot
namespace Control
namespace Station

open Lua Command Lua.Prog

/-! ## `nbdConnect`

The search finds a device that nobody holds, so no loop is entered. -/

section

variable (env : Env) (cfg : Config) (w : Workstation)

def connectImage (s : World) (e : Image × ℕ) : World :=
  let s := setNbd e.2 (searchNbd s cfg) s
  if e.1.connects then call (.nbdAdd (s.nbd e.2) (.str (child cfg w e.1)) e.1.cache) s else s

theorem setNbd_self (i : ℕ) (v : Val) (s : World) : (setNbd i v s).nbd i = v := by
  show Function.update s.nbd i v i = v
  rw [Function.update_self]

theorem nbdUsed_searchNbd (i : ℕ) (s : World) :
    nbdUsed (setNbd i (searchNbd s cfg) s) ((setNbd i (searchNbd s cfg) s).nbd i) = false := by
  rw [setNbd_self, searchNbd]
  cases hfind : (List.range' 1 cfg.nbdNbds).find? fun i =>
      !s.holders.any (·.1 == Boot.devName i) with
  | none => rfl
  | some d =>
    have hd := List.find?_some hfind
    rw [Bool.not_eq_true'] at hd
    show (_ && s.holders.any (·.1 == Boot.devName d)) = false
    rw [hd, Bool.and_false]

/-- The round of an image with another last step. -/
def nbdSearch (e : Image × ℕ) (add : World → World) : Prog World :=
  .seq (.set fun s => setNbd e.2 (searchNbd s cfg) s) <|
  .seq (.poll (fun s => .returned (nbdUsed s (s.nbd e.2))) <|
    .cond (fun s => usewho s (s.nbd e.2) = some 2)
      (.poll (fun s => .returned (tgtUsed env s (target cfg w))) (.set (tgtstop env cfg w))) <|
    .cond (fun s => usewho s (s.nbd e.2) = some 1)
      (.set fun s => call (.nbdDel (s.nbd e.2)) s) .skip) <|
  .seq (.poll (fun s => .returned (nbdUsed s (s.nbd e.2))) .skip) <|
  .cond (fun s => !nbdUsed s (s.nbd e.2) && e.1.connects) (.set add) .skip

theorem ends_nbdSearch (e : Image × ℕ) (add : World → World) (s : World) (o : Lua.Call World) :
    Ends (nbdSearch env cfg w e add) s o ↔ o = .returned (if e.1.connects then
      add (setNbd e.2 (searchNbd s cfg) s) else setNbd e.2 (searchNbd s cfg) s) := by
  have hfree := nbdUsed_searchNbd cfg e.2 s
  have hpoll {c : World → Lua.Call Bool} {body : Prog World} {s : World} {q : Prog World}
      (h : c s = .returned false) : Ends (.seq (.poll c body) q) s o ↔ Ends q s o := by
    rw [ends_seq]
    simp [ends_poll_false h]
  rw [nbdSearch, ends_seq]
  simp only [ends_set, Lua.Call.returned.injEq, reduceCtorEq, false_and, false_or,
    exists_eq_left]
  rw [hpoll (by rw [hfree]), hpoll (by rw [hfree]), ends_cond, hfree]
  cases e.1.connects with
  | true => exact ends_set
  | false => exact ends_skip

theorem ends_nbdConnectImage (e : Image × ℕ) (s : World) (o : Lua.Call World) :
    Ends (nbdConnectImage env cfg w e) s o ↔ o = .returned (connectImage cfg w s e) :=
  ends_nbdSearch env cfg w e _ s o

theorem ends_nbdConnect (s : World) (o : Lua.Call World) : Ends (nbdConnect env cfg w) s o ↔
    o = .returned ((w.img.zipIdx 1).foldl (connectImage cfg w) s) :=
  ends_each_iff (ends_nbdConnectImage env cfg w) _ s o

/-! ## Devices

Each image whose connection the wrapper accepts takes the first free device. -/

def free (s : World) : List ℕ :=
  (List.range' 1 cfg.nbdNbds).filter fun i => !s.holders.any (·.1 == Boot.devName i)

def takes (v : Image) : Bool :=
  v.connects && Valid.safePath (.str (child cfg w v)) && Valid.cacheMode v.cache

/-- The device of an image, by what is free when its turn comes. -/
def device (free : List ℕ) : Val := free.head?.elim (.bool false) fun i => .str (Boot.devName i)

theorem searchNbd_eq (s : World) : searchNbd s cfg = device (free cfg s) := by
  rw [searchNbd, device, free, List.head?_filter]

theorem connectImage_files (s : World) (e : Image × ℕ) :
    (connectImage cfg w s e).files = s.files := by
  unfold connectImage
  dsimp only
  split
  · exact call_files _ _ rfl
  · rfl

theorem connect_holders {s : World} {d : ℕ} (h : d ∈ free cfg s) (image : Str) :
    (s.connect (Boot.devName d) image).holders =
      s.holders ++ [(Boot.devName d, .qemuNbd image)] := by
  have hfree : s.holders.any (·.1 == Boot.devName d) = false := by
    simpa using (List.mem_filter.mp h).2
  have hserve : s.holders.any (fun h => h.1 == Boot.devName d && h.2.serves) = false := by
    rw [List.any_eq_false] at hfree ⊢
    intro x hx
    simp [hfree x hx]
  rw [World.connect, hserve]
  rfl

theorem free_connect {s : World} {d : ℕ} {ds : List ℕ} (h : free cfg s = d :: ds) (image : Str) :
    free cfg (s.connect (Boot.devName d) image) = ds := by
  have hholders := connect_holders cfg (h ▸ List.mem_cons_self : d ∈ free cfg s) image
  have hnodup : (free cfg s).Nodup := List.Nodup.filter _ List.nodup_range'
  rw [h, List.nodup_cons] at hnodup
  calc free cfg (s.connect (Boot.devName d) image)
      = (free cfg s).filter fun i => i != d := by
        rw [free, free, List.filter_filter, hholders]
        refine List.filter_congr fun i _ => ?_
        have hname : (Boot.devName d == Boot.devName i) = (i == d) := by
          by_cases hi : i = d
          · simp [hi]
          · simp [hi, devName_injective.ne (Ne.symm hi)]
        rw [List.any_append, Bool.not_or, Bool.and_comm]
        simp [hname, bne]
    _ = ds := by
        rw [h, List.filter_cons_of_neg (by simp), List.filter_eq_self]
        intro i hi
        simp only [bne_iff_ne, ne_eq]
        exact fun hid => hnodup.1 (hid ▸ hi)

theorem accepts_nbdAdd {d : ℕ} {v : Image} (h : v.connects = true) :
    accepts (.nbdAdd (.str (Boot.devName d)) (.str (child cfg w v)) v.cache) = takes cfg w v := by
  rw [accepts, takes, devPath_devName, h, Bool.true_and]

theorem free_connectImage (s : World) (e : Image × ℕ) :
    free cfg (connectImage cfg w s e) = (free cfg s).drop (if takes cfg w e.1 then 1 else 0) := by
  have hset : free cfg (setNbd e.2 (searchNbd s cfg) s) = free cfg s := rfl
  have hrecord (s : World) (x : Event) : free cfg (s.record x) = free cfg s := rfl
  unfold connectImage
  dsimp only
  by_cases hcon : e.1.connects = true
  · rw [if_pos hcon, setNbd_self, searchNbd_eq]
    rw [searchNbd_eq] at hset
    unfold call
    cases hfree : free cfg s with
    | nil =>
      rw [if_neg (by rw [device]; exact Bool.false_ne_true), hrecord]
      rw [hfree] at hset
      rw [hset, List.drop_nil]
    | cons d ds =>
      rw [hfree] at hset
      have haccepts := accepts_nbdAdd cfg w (d := d) hcon
      change accepts (.nbdAdd (device (d :: ds)) _ _) = _ at haccepts
      rw [haccepts]
      by_cases htakes : takes cfg w e.1 = true
      · rw [if_pos htakes, if_pos htakes]
        exact free_connect cfg ((hrecord _ _).trans hset) _
      · rw [if_neg htakes, if_neg htakes, hrecord, hset]
        rfl
  · have htakes : takes cfg w e.1 = false := by
      rw [takes, Bool.not_eq_true _ |>.mp hcon]
      rfl
    rw [if_neg hcon, htakes, hset]
    rfl

/-- The call of `lun.add` for an image. -/
def lunCall (s : World) (e : Image × ℕ) : Option Command.Call :=
  if Boot.on e.1.enable && (e.1.dyndisk || e.1.dynblock) && w.tid ≠ .nil then
    if isFile env s (s.nbd e.2) then some (.lunAdd w.tid (.num e.2) (s.nbd e.2)) else none
  else if Boot.on e.1.enable && e.1.iso && w.tid ≠ .nil &&
      isFile env s (.str (isoFile cfg e.1)) then
    some (.lunAdd w.tid (.num e.2) (.str (isoFile cfg e.1 ++ " -Y cd".toList)))
  else none

theorem lunCall_some {s : World} {e : Image × ℕ} {c : Command.Call}
    (h : lunCall env cfg w s e = some c) : ∃ dev, c = .lunAdd w.tid (.num e.2) dev := by
  unfold lunCall at h
  split at h
  · split at h
    · exact ⟨_, (Option.some.inj h).symm⟩
    · exact absurd h (by simp)
  · split at h
    · exact ⟨_, (Option.some.inj h).symm⟩
    · exact absurd h (by simp)

theorem lunImage_returned {e : Image × ℕ} {s t : World}
    (h : lunImage env cfg w e s = .returned t) :
    t = (lunCall env cfg w s e).elim s fun c => call c s := by
  unfold lunImage at h
  unfold lunCall
  split at h
  · rename_i hdisk
    rw [if_pos hdisk]
    split at h
    · exact absurd h (by simp)
    · rw [← Lua.Call.returned.inj h]
      split <;> rfl
  · rename_i hdisk
    rw [if_neg hdisk]
    split at h
    · rename_i hiso
      rw [if_pos hiso, ← Lua.Call.returned.inj h]
      rfl
    · rename_i hiso
      rw [if_neg hiso, ← Lua.Call.returned.inj h]
      rfl

theorem isFile_congr {s t : World} (h : t.files = s.files) (v : Val) :
    isFile env t v = isFile env s v := by
  unfold isFile
  rw [h]

theorem lunCall_congr {s t : World} (hnbd : t.nbd = s.nbd) (hfiles : t.files = s.files) :
    lunCall env cfg w t = lunCall env cfg w s := by
  funext e
  simp only [lunCall, hnbd, isFile_congr env hfiles]

/-- Rounds over the images log one call for each image that has one. -/
theorem lunImages_spec {l : List (Image × ℕ)} {s t : World}
    (h : Ends (each l fun e => act (lunImage env cfg w e)) s (.returned t)) :
    t.nbd = s.nbd ∧ t.files = s.files ∧
      t.log = s.log ++ (l.filterMap (lunCall env cfg w s)).map .call := by
  induction l generalizing s with
  | nil =>
    rw [each_nil, ends_skip, Lua.Call.returned.injEq] at h
    subst h
    exact ⟨rfl, rfl, (List.append_nil _).symm⟩
  | cons e l ih =>
    rw [each_cons, ends_seq] at h
    obtain ⟨-, ho⟩ | ⟨u, hu, ht⟩ := h
    · exact absurd ho (by simp)
    · have hstep := lunImage_returned env cfg w (ends_act.mp hu).symm
      obtain ⟨hnbd, hfiles, hlog⟩ := ih ht
      cases hcall : lunCall env cfg w s e with
      | none =>
        rw [hcall] at hstep
        subst hstep
        rw [List.filterMap_cons_none hcall]
        exact ⟨hnbd, hfiles, hlog⟩
      | some c =>
        rw [hcall] at hstep
        have hc : onFiles c = false := by
          obtain ⟨dev, rfl⟩ := lunCall_some env cfg w hcall
          rfl
        have hnbd₁ : u.nbd = s.nbd := by rw [hstep]; exact call_nbd c s
        have hfiles₁ : u.files = s.files := by rw [hstep]; exact call_files c s hc
        have hlog₁ : u.log = s.log ++ [.call c] := by rw [hstep]; exact call_log c s
        rw [List.filterMap_cons_some hcall, List.map_cons, hlog, hlog₁,
          lunCall_congr env cfg w hnbd₁ hfiles₁, List.append_assoc]
        exact ⟨hnbd.trans hnbd₁, hfiles.trans hfiles₁, rfl⟩

/-- What the loop around `tgtstart` does to the world. -/
def Awaits (s t : World) : Prop :=
  t.nbd = s.nbd ∧ t.files = s.files ∧
    ∃ added : List Command.Call, t.log = s.log ++ added.map .call ∧
    ∀ c ∈ added, ∀ tid lun dev, c ≠ .lunAdd tid lun dev

theorem Awaits.refl (s : World) : Awaits s s :=
  ⟨rfl, rfl, [], (List.append_nil _).symm, by simp⟩

theorem Awaits.trans (s t u : World) (h : Awaits s t) (h' : Awaits t u) : Awaits s u := by
  obtain ⟨hnbd, hfiles, added, hlog, hadded⟩ := h
  obtain ⟨hnbd', hfiles', added', hlog', hadded'⟩ := h'
  refine ⟨hnbd'.trans hnbd, hfiles'.trans hfiles, added ++ added', ?_, fun c hc => ?_⟩
  · rw [hlog', hlog, List.map_append, List.append_assoc]
  · obtain hc | hc := List.mem_append.mp hc
    · exact hadded c hc
    · exact hadded' c hc

theorem awaits_call {c : Command.Call} (hfiles : onFiles c = false)
    (hc : ∀ tid lun dev, c ≠ .lunAdd tid lun dev) (s : World) : Awaits s (call c s) :=
  ⟨call_nbd c s, call_files c s hfiles, [c], call_log c s, fun _ hd =>
    List.mem_singleton.mp hd ▸ hc⟩

theorem awaits_tgtstart : Within Awaits (tgtstart env cfg w) := by
  intro s t h
  unfold tgtstart at h
  split at h
  · split at h
    · rw [← Lua.Call.returned.inj h]
      exact Awaits.trans _ _ _ (awaits_call rfl (by simp) s) (awaits_call rfl (by simp) _)
    · exact absurd h (by simp)
  · rw [← Lua.Call.returned.inj h]
    exact Awaits.refl s

/-- `LunAdd` for some of the images. -/
def lunRounds (l : List (Image × ℕ)) : Prog World :=
  .seq (.poll (fun s => .returned !tgtUsed env s (target cfg w)) (.act (tgtstart env cfg w))) <|
  .cond (fun s => tgtUsed env s (target cfg w)) (.each l fun e => .act (lunImage env cfg w e)) .skip

/-- When the rounds of `LunAdd` return, they have made the calls of their images, and
before them only calls that create the target. -/
theorem lunRounds_spec {l : List (Image × ℕ)} {s t : World}
    (h : Ends (lunRounds env cfg w l) s (.returned t)) :
    t.nbd = s.nbd ∧ t.files = s.files ∧ ∃ added : List Command.Call,
      (∀ c ∈ added, ∀ tid lun dev, c ≠ .lunAdd tid lun dev) ∧
      t.log = s.log ++ (added ++ l.filterMap (lunCall env cfg w s)).map .call := by
  obtain ⟨u, hu, ht⟩ := ends_seq_returned.mp h
  have hused : tgtUsed env u (target cfg w) = true := by
    simpa using poll_exit hu
  obtain ⟨hnbd, hfiles, added, hlog, hadded⟩ : Awaits s u :=
    Ends.within Awaits.refl Awaits.trans (p := .poll _ (.act (tgtstart env cfg w)))
      (awaits_tgtstart env cfg w) hu
  rw [ends_cond, if_pos hused] at ht
  obtain ⟨hnbd', hfiles', hlog'⟩ := lunImages_spec env cfg w ht
  refine ⟨hnbd'.trans hnbd, hfiles'.trans hfiles, added, hadded, ?_⟩
  rw [hlog', hlog, lunCall_congr env cfg w hnbd hfiles, List.map_append, List.append_assoc]

/-- The commands the wrappers have let through between two states. -/
def issued (s t : World) : List Command.Call :=
  (t.log.drop s.log.length).filterMap fun
    | .call c => if accepts c then some c else none
    | _ => none

/-- The command adds LUN number `i`. -/
def isLun (i : ℕ) : Command.Call → Bool
  | .lunAdd _ lun _ => lun == .num i
  | _ => false

theorem issued_eq {s t : World} {cs : List Command.Call} (h : t.log = s.log ++ cs.map .call) :
    issued s t = cs.filter accepts := by
  rw [issued, h, List.drop_left, List.filterMap_map, ← List.filterMap_eq_filter]
  rfl

/-- The backing of image number `i` exists: the device that `nbdConnect` has connected
to its child, or its ISO file. -/
def Backed (s t : World) (v : Image) (i : ℕ) : Prop :=
  ((v.dyndisk || v.dynblock) = true ∧
      .nbdAdd (t.nbd i) (.str (child cfg w v)) v.cache ∈ issued s t ∧
      isFile env t (t.nbd i) = true) ∨
    (v.iso = true ∧ isFile env t (.str (isoFile cfg v)) = true)

/-- Every enabled image with a backing has been exported once under its number, and
every LUN of the script is one of these numbers. -/
structure Agrees (s t : World) : Prop where
  exported : ∀ k v, w.img[k]? = some v → Boot.on v.enable = true →
    Backed env cfg w s t v (k + 1) → (issued s t).countP (isLun (k + 1)) = 1
  named : ∀ r ∈ roots w, ∃ k v, w.img[k]? = some v ∧ Boot.on v.enable = true ∧
    Backed env cfg w s t v (k + 1) ∧ r.lun = k + 1

/-- The image is one `nbdConnect` connects, and its turn comes before the free devices
are used up. -/
def Gets (s : World) (k : ℕ) (v : Image) : Prop :=
  takes cfg w v = true ∧ (w.img.take k).countP (takes cfg w) < (free cfg s).length

/-- No ISO image can be exported, disk images need a target number in range and a LUN
number up to 255, and images with a boot order need a device. -/
structure Exportable (s : World) : Prop where
  iso : ∀ v ∈ w.img, Boot.on v.enable = true → v.iso = true →
    isFile env s (.str (isoFile cfg v)) = false
  disk : ∀ k v, w.img[k]? = some v → Gets cfg w s k v → Valid.tid w.tid = true ∧ k + 1 ≤ 255
  root : ∀ k v, w.img[k]? = some v → tostring v.boot ∈ [['1'], ['2'], ['3']] → Gets cfg w s k v

theorem connects_iff {v : Image} :
    v.connects = true ↔ Boot.on v.enable = true ∧ (v.dyndisk || v.dynblock) = true := by
  rw [Image.connects]
  cases Boot.on v.enable <;> simp

theorem lunId_nat (i : ℕ) : Valid.lunId (.num i) = true ↔ i ≤ 255 := by
  have hrange : Valid.lunId (.num i) = decide ((0 : ℚ) ≤ i ∧ (i : ℚ) ≤ 255) := rfl
  rw [hrange, decide_eq_true_eq]
  exact ⟨fun h => by exact_mod_cast h.2, fun h => ⟨by positivity, by exact_mod_cast h⟩⟩

/-- The option after the name of an ISO file makes it no device. -/
theorem devPath_iso (file : Str) : Valid.devPath (.str (file ++ " -Y cd".toList)) = false := by
  by_contra h
  have haddr := Valid.address_devPath (Bool.not_eq_false _ |>.mp h)
  have hblank := haddr.2 ' ' (List.mem_append_right file (by decide))
  exact absurd hblank (by decide)

section

variable {env cfg w} {s t : World} {k : ℕ} {v : Image}

end

end

end Station
end Control
end MkyBoot
