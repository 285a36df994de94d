import MkyBoot.Control.Export

/-!
# Files and snapshots of a client

`zfsmount` and `mkChild` name what they create by gluing configuration strings, image
numbers and the client's hardware address together.  Every such name ends with the
address without its colons, which has the same length for all clients, so no name is
used for two clients however the rest of it reads.

The backing file of a child is the image's master in super mode with commit, and the
client's own snapshot of it otherwise.
-/

namespace MkyBoot
namespace Control
namespace Station

open Lua Command Lua.Prog

/-! ## What a program can do to the log -/

/-- What happened between two states. -/
def since (s t : World) : List Event := t.log.drop s.log.length

/-- Every event between two states is of a kind. -/
def Adds (Q : Event → Prop) (s t : World) : Prop :=
  ∃ added, t.log = s.log ++ added ∧ ∀ e ∈ added, Q e

/-- Some state change of the program, from some state, causes the event. -/
def Causes (p : Prog World) (e : Event) : Prop :=
  p.Has fun f => ∃ s t, f s = .returned t ∧ e ∈ since s t

section

variable {Q : Event → Prop}

theorem Adds.refl (s : World) : Adds Q s s := ⟨[], (List.append_nil _).symm, by simp⟩

theorem Adds.trans {s t u : World} (h : Adds Q s t) (h' : Adds Q t u) : Adds Q s u := by
  obtain ⟨added, hlog, hadded⟩ := h
  obtain ⟨added', hlog', hadded'⟩ := h'
  refine ⟨added ++ added', by rw [hlog', hlog, List.append_assoc], fun e he => ?_⟩
  obtain he | he := List.mem_append.mp he
  · exact hadded e he
  · exact hadded' e he

theorem adds_call {c : Command.Call} (h : Q (.call c)) (s : World) : Adds Q s (call c s) :=
  ⟨[.call c], call_log c s, fun _ he => List.mem_singleton.mp he ▸ h⟩

theorem adds_create {file : Str} (h : Q (.create file)) (s : World) : Adds Q s (create file s) :=
  ⟨[.create file], rfl, fun _ he => List.mem_singleton.mp he ▸ h⟩

theorem adds_remove {file : Str} (h : Q (.remove file)) (s : World) : Adds Q s (remove file s) :=
  ⟨[.remove file], rfl, fun _ he => List.mem_singleton.mp he ▸ h⟩

theorem adds_foldl {α : Type} {f : World → α → World} {l : List α}
    (h : ∀ s, ∀ x ∈ l, Adds Q s (f s x)) (s : World) : Adds Q s (l.foldl f s) :=
  foldl_within Adds.refl (fun _ _ _ => Adds.trans) h s

/-- A program whose state changes cause events of one kind only. -/
theorem Causes.of_acts {p : Prog World} (hp : p.Acts (Within (Adds Q))) {e : Event}
    (h : Causes p e) : Q e := by
  obtain ⟨f, hwithin, s, t, hst, he⟩ := Acts.has hp h
  obtain ⟨added, hlog, hadded⟩ := hwithin s t hst
  rw [since, hlog, List.drop_left] at he
  exact hadded e he

end

section

variable (env : Env) (cfg : Config) (w : Workstation) {Q : Event → Prop}

theorem tgtstop_part {α : Type} (part : World → α)
    (hkill : ∀ s, part (call (.tgtKill w.tid) s) = part s) (s : World) :
    part (tgtstop env cfg w s) = part s := by
  unfold tgtstop
  split
  · exact hkill s
  · rfl

/-- `nbdFree` leaves a part of the world that its commands and `nbd` leave. -/
theorem nbdFree_part {α : Type} (part : World → α) (hset : ∀ i v s, part (setNbd i v s) = part s)
    (hkill : ∀ s, part (call (.tgtKill w.tid) s) = part s)
    (hdel : ∀ d s, part (call (.nbdDel d) s) = part s) (s : World) :
    part (nbdFree env cfg w s) = part s := by
  refine foldl_part part (fun s e _ => ?_) s
  unfold nbdFreeImage
  split
  · rw [hdel, tgtstop_part env cfg w part hkill, hset]
  · exact hset _ _ s

theorem adds_tgtstop (h : Q (.call (.tgtKill w.tid))) (s : World) :
    Adds Q s (tgtstop env cfg w s) := by
  unfold tgtstop
  split
  · exact adds_call h s
  · exact Adds.refl s

theorem adds_nbdFree (hkill : Q (.call (.tgtKill w.tid)))
    (hdel : ∀ d, Q (.call (.nbdDel d))) (s : World) : Adds Q s (nbdFree env cfg w s) := by
  refine adds_foldl (fun s e _ => ?_) s
  unfold nbdFreeImage
  split
  · exact Adds.trans (t := setNbd e.2 _ s) (Adds.refl _)
      ((adds_tgtstop env cfg w hkill _).trans (adds_call (hdel _) _))
  · exact ⟨[], (List.append_nil _).symm, by simp⟩

theorem acts_zfsmount (hkill : Q (.call (.tgtKill w.tid))) (hdel : ∀ d, Q (.call (.nbdDel d)))
    (hunmount : Q (.call (.zfsUnmount (.str (zpoint cfg w)))))
    (hunsnap : Q (.call (.zfsUnsnap (.str (zdest cfg w)))))
    (hsnap : Q (.call (.zfsSnap (.str (zdest cfg w)))))
    (hmount : Q (.call (.zfsMount (.str (zdest cfg w)) (.str (zpoint cfg w)))))
    (hvolume : ∀ v, Q (.call (.zfsUnsnap (.str (zvol cfg w v)))) ∧
      Q (.call (.zfsSnap (.str (zvol cfg w v))))) :
    (zfsmount env cfg w).Acts (Within (Adds Q)) := by
  refine ⟨within_set fun s => ?_, within_set fun s => ?_, within_set fun s => ?_⟩
  · exact (adds_nbdFree env cfg w hkill hdel s).trans
      ((adds_call hunmount _).trans (adds_call hunsnap _))
  · exact (adds_call hsnap s).trans (adds_call hmount _)
  · refine adds_foldl (fun s v _ => ?_) s
    unfold snapVolume
    split
    · exact (adds_call (hvolume v).1 s).trans (adds_call (hvolume v).2 _)
    · exact Adds.refl s

theorem adds_lsofkill (c : Val) (s : World) : Adds Q s (lsofkill c s) := by
  refine ⟨[], ?_, by simp⟩
  rw [List.append_nil]
  unfold lsofkill
  split
  · split <;> rfl
  · rfl

theorem adds_imgDelete {c : Val} (h : ∀ n, c = .str n → Q (.remove n)) (s : World) :
    Adds Q s (imgDelete c s) := by
  unfold imgDelete
  split
  · split
    · exact adds_remove (h _ rfl) s
    · exact Adds.refl s
  · exact Adds.refl s

/-- A preorder that holds of what a round can do holds of the round. -/
theorem createChild_within {R : World → World → Prop} (hrefl : ∀ s, R s s)
    (htrans : ∀ s t u, R s t → R t u → R s u) {i : ℕ} {v : Image} {vars : Vars}
    (hmake : ∀ s, R s (call (.imageChild vars.parent vars.child) s))
    (hcreate : ∀ s, R s (create (lockf cfg w i) s)) (hremove : ∀ s, R s (remove (lockf cfg w i) s))
    (hkill : ∀ s, R s (lsofkill vars.child s)) (hdelete : ∀ s, R s (imgDelete vars.child s)) :
    (createChild env cfg w i v vars).Acts (Within R) := by
  have hskip : (skip : Prog World).Acts (Within R) := within_set hrefl
  have hfree : (freeChild vars.child).Acts (Within R) := ⟨within_set hkill, within_set hdelete⟩
  refine ⟨⟨hfree, within_set fun s => htrans _ _ _ (hmake s) (hcreate _)⟩,
    within_set fun s => htrans _ _ _ (hcreate s) (hmake _), within_set hcreate,
    ⟨⟨hfree, within_set fun s => ?_⟩, hskip⟩, ?_⟩
  · split
    · exact hremove s
    · exact hrefl s
  · split
    · exact ⟨hskip, within_set hmake⟩
    · exact hskip

theorem acts_createChild {i : ℕ} {v : Image} {vars : Vars}
    (hchild : Q (.call (.imageChild vars.parent vars.child)))
    (hcreate : Q (.create (lockf cfg w i)))
    (hremove : Q (.remove (lockf cfg w i))) (hdelete : ∀ n, vars.child = .str n → Q (.remove n)) :
    (createChild env cfg w i v vars).Acts (Within (Adds Q)) :=
  createChild_within env cfg w Adds.refl (fun _ _ _ => Adds.trans) (adds_call hchild)
    (adds_create hcreate) (adds_remove hremove) (adds_lsofkill vars.child) (adds_imgDelete hdelete)

end

/-! ## Names -/

def Event.names : Event → List Str
  | .call (.zfsSnap data) => [tostring data]
  | .call (.zfsUnsnap data) => [tostring data]
  | .call (.zfsMount data point) => [tostring data, tostring point]
  | .call (.zfsUnmount point) => [tostring point]
  | .call (.imageChild _ (.str child)) => [child]
  | .create file => [file]
  | .remove file => [file]
  | _ => []

/-- The program uses the name for a child, a lock, a snapshot or a mount point. -/
def Uses (p : Prog World) (n : Str) : Prop := ∃ e, Causes p e ∧ n ∈ e.names

/-- Every name in the event ends with the client's address. -/
def Own (w : Workstation) (e : Event) : Prop := ∀ n ∈ e.names, vid w <:+ n

section

variable {cfg : Config} {w : Workstation}

theorem vid_suffix_child (v : Image) : vid w <:+ child cfg w v :=
  ⟨cfg.imgbackdir ++ '/' :: (v.path ++ cfg.imagePrefix), by simp [child]⟩

theorem vid_suffix_lockf (i : ℕ) : vid w <:+ lockf cfg w i :=
  ⟨cfg.lockfile ++ Nat.toDigits 10 i, by simp [lockf]⟩

theorem vid_suffix_zpoint : vid w <:+ zpoint cfg w := ⟨cfg.mpoint ++ ['/'], by simp [zpoint]⟩

theorem vid_suffix_zdest : vid w <:+ zdest cfg w := ⟨cfg.dpoint, rfl⟩

theorem vid_suffix_zvol (v : Image) : vid w <:+ zvol cfg w v :=
  ⟨cfg.snadev ++ '/' :: (v.path ++ '@' :: (cfg.tmpname ++ ['_'])), by simp [zvol]⟩

theorem own_of_names {e : Event} {n : Str} (h : e.names = [n]) (hn : vid w <:+ n) : Own w e := by
  intro m hm
  rw [h] at hm
  exact List.mem_singleton.mp hm ▸ hn

theorem own_of_nameless {e : Event} (h : e.names = []) : Own w e := by
  intro n hn
  rw [h] at hn
  exact absurd hn List.not_mem_nil

end

section

variable (env : Env) (cfg : Config) (w : Workstation)

theorem findParent_unset (v : Image) (h : creates w v = false) :
    findParent cfg w .unset v = .unset := by
  have hdisk : (Boot.on w.enable && Boot.on v.enable && v.dyndisk) = false ∧
      (Boot.on w.enable && Boot.on v.enable && v.dynblock) = false := by
    rw [creates] at h
    by_cases hiso : v.iso = true
    · rw [Image.iso, beq_iff_eq] at hiso
      rw [Image.dyndisk, Image.dynblock, hiso]
      simp
    · rw [Bool.not_eq_true _ |>.mp hiso, Bool.not_false, Bool.and_true] at h
      rw [h]
      exact ⟨rfl, rfl⟩
  rw [findParent, hdisk.1, hdisk.2]
  rfl

/-- No round inherits the variables of another one. -/
theorem varsAt_eq (i : ℕ) : varsAt cfg w i = .unset := by
  have hnext (v : Image) : nextVars cfg w .unset v = .unset := by
    rw [nextVars]
    split
    · rfl
    · rename_i h
      exact findParent_unset cfg w v (Bool.not_eq_true _ |>.mp h)
  unfold varsAt
  induction w.img.take (i - 1) with
  | nil => rfl
  | cons v l ih => rw [List.foldl_cons, hnext, ih]

/-- The parent chosen for an image. -/
def IsParent (v : Image) (p : Str) : Prop :=
  (Boot.on w.supper = true ∧ Boot.on v.commit = true ∧
    (v.dyndisk = true ∧ p = diskMaster cfg v ∨ v.dynblock = true ∧ p = blockMaster cfg v)) ∨
  (¬ (Boot.on w.supper = true ∧ Boot.on v.commit = true) ∧
    (v.dyndisk = true ∧ p = diskSnapshot cfg w v ∨ v.dynblock = true ∧ p = blockSnapshot cfg w v))

theorem off_of_on {v : Val} (h : Boot.on v = true) : off v = false := by
  rw [Boot.on, beq_iff_eq] at h
  rw [off, h]
  decide

/-- Both flags are there. -/
def flagged (v : Image) : Bool :=
  (Boot.on w.supper || off w.supper) && (Boot.on v.commit || off v.commit)

theorem chooseParent_eq (v : Image) (master snapshot : Str) :
    chooseParent cfg w v master snapshot .unset =
      if flagged w v then
        ⟨.str (if Boot.on w.supper && Boot.on v.commit then master else snapshot),
          .str (child cfg w v)⟩
      else .unset := by
  unfold chooseParent flagged
  by_cases hs : Boot.on w.supper = true
  · by_cases hc : Boot.on v.commit = true
    · simp [hs, hc, off_of_on hs, off_of_on hc]
    · by_cases hoff : off v.commit = true
      · simp [hs, hc, hoff]
      · simp [hs, hc, hoff, off_of_on hs]
  · by_cases hoff : off w.supper = true
    · by_cases hc : Boot.on v.commit = true
      · simp [hs, hc, hoff]
      · by_cases hoff' : off v.commit = true
        · simp [hs, hc, hoff, hoff']
        · simp [hs, hc, hoff, hoff']
    · simp [hs, hoff]

theorem chooseParent_cases (v : Image) (master snapshot : Str) :
    chooseParent cfg w v master snapshot .unset = .unset ∨
      (Boot.on w.supper = true ∧ Boot.on v.commit = true ∧
        chooseParent cfg w v master snapshot .unset = ⟨.str master, .str (child cfg w v)⟩) ∨
      (¬ (Boot.on w.supper = true ∧ Boot.on v.commit = true) ∧
        chooseParent cfg w v master snapshot .unset = ⟨.str snapshot, .str (child cfg w v)⟩) := by
  rw [chooseParent_eq]
  split
  · by_cases hsuper : (Boot.on w.supper && Boot.on v.commit) = true
    · rw [if_pos hsuper]
      rw [Bool.and_eq_true] at hsuper
      exact Or.inr (Or.inl ⟨hsuper.1, hsuper.2, rfl⟩)
    · rw [if_neg hsuper]
      rw [Bool.and_eq_true] at hsuper
      exact Or.inr (Or.inr ⟨hsuper, rfl⟩)
  · exact Or.inl rfl

theorem findParent_cases (v : Image) : findParent cfg w .unset v = .unset ∨
    ∃ p, IsParent cfg w v p ∧ findParent cfg w .unset v = ⟨.str p, .str (child cfg w v)⟩ := by
  unfold findParent
  split
  · rename_i hdisk
    rw [Bool.and_eq_true] at hdisk
    obtain h | ⟨hs, hc, h⟩ | ⟨hsc, h⟩ :=
      chooseParent_cases cfg w v (diskMaster cfg v) (diskSnapshot cfg w v)
    · exact Or.inl h
    · exact Or.inr ⟨_, Or.inl ⟨hs, hc, Or.inl ⟨hdisk.2, rfl⟩⟩, h⟩
    · exact Or.inr ⟨_, Or.inr ⟨hsc, Or.inl ⟨hdisk.2, rfl⟩⟩, h⟩
  · split
    · rename_i hblock
      rw [Bool.and_eq_true] at hblock
      obtain h | ⟨hs, hc, h⟩ | ⟨hsc, h⟩ :=
        chooseParent_cases cfg w v (blockMaster cfg v) (blockSnapshot cfg w v)
      · exact Or.inl h
      · exact Or.inr ⟨_, Or.inl ⟨hs, hc, Or.inr ⟨hblock.2, rfl⟩⟩, h⟩
      · exact Or.inr ⟨_, Or.inr ⟨hsc, Or.inr ⟨hblock.2, rfl⟩⟩, h⟩
    · exact Or.inl rfl

/-- A kind of events that covers what the round of an image can do. -/
theorem acts_mkImage {Q : Event → Prop} {i : ℕ} {v : Image}
    (hunset : Q (.call (.imageChild .nil .nil)))
    (hchild : ∀ p, IsParent cfg w v p → Q (.call (.imageChild (.str p) (.str (child cfg w v)))))
    (hcreate : Q (.create (lockf cfg w i))) (hremove : Q (.remove (lockf cfg w i)))
    (hdelete : Q (.remove (child cfg w v))) :
    (mkImage env cfg w (v, i)).Acts (Within (Adds Q)) := by
  unfold mkImage
  dsimp only
  split
  · rw [varsAt_eq]
    obtain h | ⟨p, hp, h⟩ := findParent_cases cfg w v
    · rw [h]
      exact acts_createChild env cfg w hunset hcreate hremove fun n hn =>
        absurd hn (by simp [Vars.unset])
    · rw [h]
      exact acts_createChild env cfg w (hchild p hp) hcreate hremove fun n hn =>
        Val.str.inj hn ▸ hdelete
  · exact within_set Adds.refl

theorem isParent_of_causes {v : Image} {i : ℕ} {p : Str} {c : Val}
    (h : Causes (mkImage env cfg w (v, i)) (.call (.imageChild (.str p) c))) :
    IsParent cfg w v p := by
  refine Causes.of_acts (Q := fun e => ∀ p c, e = .call (.imageChild (.str p) c) →
    IsParent cfg w v p) (acts_mkImage env cfg w ?_ ?_ ?_ ?_ ?_) h p c rfl
  · exact fun p c h => absurd h (by simp)
  · intro q hq p c h
    injection h with h
    injection h with h
    exact Val.str.inj h ▸ hq
  · exact fun p c h => absurd h (by simp)
  · exact fun p c h => absurd h (by simp)
  · exact fun p c h => absurd h (by simp)

/-- Everything `zfsmount` and `mkChild` name belongs to the client. -/
theorem acts_own :
    (Prog.seq (zfsmount env cfg w) (mkChild env cfg w)).Acts (Within (Adds (Own w))) := by
  have hone {e : Event} {n : Str} (h : e.names = [n]) (hn : vid w <:+ n) : Own w e :=
    own_of_names h hn
  refine ⟨acts_zfsmount env cfg w (own_of_nameless rfl) (fun d => own_of_nameless rfl)
    (hone rfl vid_suffix_zpoint) (hone rfl vid_suffix_zdest) (hone rfl vid_suffix_zdest) ?_
    (fun v => ⟨hone rfl (vid_suffix_zvol v), hone rfl (vid_suffix_zvol v)⟩), ?_⟩
  · intro n hn
    obtain hn | hn := List.mem_cons.mp hn
    · exact hn ▸ vid_suffix_zdest
    · exact List.mem_singleton.mp hn ▸ vid_suffix_zpoint
  · unfold mkChild
    split
    · refine acts_each (fun s t h => Lua.Call.returned.inj h ▸ Adds.refl s) fun e _ => ?_
      exact acts_mkImage env cfg w (own_of_nameless rfl)
        (fun p _ => hone rfl (vid_suffix_child e.1))
        (hone rfl (vid_suffix_lockf e.2)) (hone rfl (vid_suffix_lockf e.2))
        (hone rfl (vid_suffix_child e.1))
    · exact within_set Adds.refl

end

/-! ## Clients apart -/

theorem vid_length_eq {w w' : Workstation} (h : Valid.mac (.str w.mac) = true)
    (h' : Valid.mac (.str w'.mac) = true) : (vid w).length = (vid w').length :=
  (Valid.ofClasses_filter Valid.macClasses_wordlike h h').1

theorem vid_ne {w w' : Workstation} (h : Valid.mac (.str w.mac) = true)
    (h' : Valid.mac (.str w'.mac) = true) (hne : w.mac ≠ w'.mac) : vid w ≠ vid w' :=
  fun heq => hne ((Valid.ofClasses_filter Valid.macClasses_wordlike h h').2 heq)

theorem lockf_injective (cfg : Config) (w : Workstation) : Function.Injective (lockf cfg w) :=
  fun _ _ h => toDigits_injective (List.append_cancel_right (List.append_cancel_left h))

/-- A snapshot is not the master it was taken from. -/
theorem diskSnapshot_ne (cfg : Config) (w : Workstation) (v : Image) :
    diskSnapshot cfg w v ≠ diskMaster cfg v := by
  intro h
  have hlen := congrArg List.length h
  simp only [diskSnapshot, diskMaster, List.length_append, List.length_cons] at hlen
  omega

theorem blockSnapshot_ne (cfg : Config) (w : Workstation) (v : Image) :
    blockSnapshot cfg w v ≠ blockMaster cfg v := by
  intro h
  have hlen := congrArg List.length h
  simp only [blockSnapshot, blockMaster, List.length_append, List.length_cons] at hlen
  omega

/-- The path of an image's master. -/
def IsMaster (cfg : Config) (v : Image) (p : Str) : Prop :=
  v.dyndisk = true ∧ p = diskMaster cfg v ∨ v.dynblock = true ∧ p = blockMaster cfg v

theorem not_both {v : Image} (h : v.dyndisk = true) : v.dynblock = false := by
  rw [Image.dyndisk, beq_iff_eq] at h
  rw [Image.dynblock, h]
  decide

theorem isMaster_iff {cfg : Config} {w : Workstation} {v : Image} {p : Str}
    (h : IsParent cfg w v p) :
    IsMaster cfg v p ↔ Boot.on w.supper = true ∧ Boot.on v.commit = true := by
  constructor
  · intro hmaster
    obtain ⟨hs, hc, -⟩ | ⟨-, ⟨hdisk, hp⟩ | ⟨hblock, hp⟩⟩ := h
    · exact ⟨hs, hc⟩
    · obtain ⟨-, hm⟩ | ⟨hblock, -⟩ := hmaster
      · exact absurd (hp.symm.trans hm) (diskSnapshot_ne cfg w v)
      · exact absurd ((not_both hdisk).symm.trans hblock) Bool.false_ne_true
    · obtain ⟨hdisk, -⟩ | ⟨-, hm⟩ := hmaster
      · exact absurd ((not_both hdisk).symm.trans hblock) Bool.false_ne_true
      · exact absurd (hp.symm.trans hm) (blockSnapshot_ne cfg w v)
  · intro hsc
    obtain ⟨-, -, hm⟩ | ⟨hns, -⟩ := h
    · exact hm
    · exact absurd hsc hns

/-- Different clients share no child, lock, snapshot or mount point, different images of
a client no lock, and the backing file of a child is the image's master or the
client's own snapshot of it, the master exactly in super mode with commit. -/
theorem artefacts_apart (env : Env) (cfg : Config) (w w' : Workstation)
    (hmac : Valid.mac (.str w.mac) = true) (hmac' : Valid.mac (.str w'.mac) = true)
    (hne : w.mac ≠ w'.mac) :
    (∀ n, Uses (.seq (zfsmount env cfg w) (mkChild env cfg w)) n →
      ¬ Uses (.seq (zfsmount env cfg w') (mkChild env cfg w')) n) ∧
    (∀ i j, i ≠ j → lockf cfg w i ≠ lockf cfg w j) ∧
    ∀ v i p c, Causes (mkImage env cfg w (v, i)) (.call (.imageChild (.str p) c)) →
      IsParent cfg w v p ∧
        (IsMaster cfg v p ↔ Boot.on w.supper = true ∧ Boot.on v.commit = true) := by
  refine ⟨?_, fun i j hij h => hij (lockf_injective cfg w h), ?_⟩
  · rintro n ⟨e, he, hn⟩ ⟨e', he', hn'⟩
    have hown := Causes.of_acts (acts_own env cfg w) he n hn
    have hown' := Causes.of_acts (acts_own env cfg w') he' n hn'
    have hsuffix := List.suffix_of_suffix_length_le hown hown' (vid_length_eq hmac hmac').le
    exact vid_ne hmac hmac' hne (hsuffix.eq_of_length (vid_length_eq hmac hmac'))
  · intro v i p c hcause
    have hparent := isParent_of_causes env cfg w hcause
    exact ⟨hparent, isMaster_iff hparent⟩

/-- Whatever parent is chosen is also used. -/
theorem causes_imageChild (env : Env) {cfg : Config} {w : Workstation} {v : Image} {p c : Str}
    (hcreates : creates w v = true) (h : findParent cfg w .unset v = ⟨.str p, .str c⟩) (i : ℕ) :
    Causes (mkImage env cfg w (v, i)) (.call (.imageChild (.str p) (.str c))) := by
  unfold mkImage
  rw [if_pos hcreates, varsAt_eq, h]
  refine Or.inr (Or.inl ⟨idle, _, rfl, ?_⟩)
  rw [since, call_log]
  exact List.mem_append_right _ (List.mem_singleton_self _)

/-! A second client, whose image lies in the snapshot of the first one. -/

def nested : Image :=
  { windows with path := "snap/b42e992cdddf/win10cc.qcow2".toList, commit := .num 1 }

def neighbour : Workstation :=
  { station [nested] with
    mac := "b4:2e:99:2c:dd:52".toList, ipv4 := "192.168.0.3".toList, supper := .num 1 }

theorem stations_apart :
    Uses (.seq (zfsmount lab shipped (station [windows])) (mkChild lab shipped (station [windows])))
        "/srv/writeback/win10cc.qcow2_child_b42e992cdddf".toList ∧
      ¬ Uses (.seq (zfsmount lab shipped neighbour) (mkChild lab shipped neighbour))
        "/srv/writeback/win10cc.qcow2_child_b42e992cdddf".toList := by
  have huses : Uses
      (.seq (zfsmount lab shipped (station [windows])) (mkChild lab shipped (station [windows])))
      (child shipped (station [windows]) windows) := by
    refine ⟨.call (.imageChild (.str (diskSnapshot shipped (station [windows]) windows))
      (.str (child shipped (station [windows]) windows))), Or.inr ?_, List.mem_singleton_self _⟩
    have hon : Boot.on (station [windows]).enable = true := by decide +kernel
    unfold mkChild
    rw [if_pos hon]
    exact Or.inl (causes_imageChild lab (by decide +kernel) (by decide +kernel) 1)
  refine ⟨huses, ?_⟩
  exact (artefacts_apart lab shipped (station [windows]) neighbour (by decide) (by decide)
    (by decide)).1 _ huses

/-- The backing file of the first client, which is not in super mode, is the master of
the second one. -/
theorem snapshot_is_master :
    Valid.mac (.str (station [windows]).mac) = true ∧ Valid.mac (.str neighbour.mac) = true ∧
      (station [windows]).mac ≠ neighbour.mac ∧
      ∃ p c c', Causes (mkImage lab shipped (station [windows]) (windows, 1))
          (.call (.imageChild (.str p) c)) ∧
        Causes (mkImage lab shipped neighbour (nested, 1)) (.call (.imageChild (.str p) c')) ∧
        nested ∈ neighbour.img ∧ IsMaster shipped nested p ∧
        Boot.on (station [windows]).supper = false := by
  have hmine : findParent shipped (station [windows]) .unset windows =
      ⟨.str (diskMaster shipped nested), .str (child shipped (station [windows]) windows)⟩ := by
    decide +kernel
  have htheirs : findParent shipped neighbour .unset nested =
      ⟨.str (diskMaster shipped nested), .str (child shipped neighbour nested)⟩ := by
    decide +kernel
  refine ⟨by decide, by decide, by decide, _, _, _,
    causes_imageChild lab (by decide +kernel) hmine 1,
    causes_imageChild lab (by decide +kernel) htheirs 1, List.mem_singleton_self _,
    Or.inl ⟨by decide +kernel, rfl⟩, by decide +kernel⟩

end Station
end Control
end MkyBoot
