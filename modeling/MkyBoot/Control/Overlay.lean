import MkyBoot.Control.Finish

/-!
# The overlays of an enabled workstation

`mkChild` chooses the parent of a child by comparing the texts of `supper` and `commit`
with `1` and `0`.  A flag that is missing compares with neither, and the image is passed
over without a word; the example of the README has no flags at all.  `Fate` is the last
thing that happened to a file, and the rounds of the loop are followed for one child at a
time: a round keeps the child, makes it from its parent, or has another one.
`children_usable_iff` says which configurations leave every enabled disk the child it
should have.
-/

namespace MkyBoot
namespace Control
namespace Station

open Lua Command Lua.Prog

/-! ## What happened to a file -/

inductive Fate where
  | untouched
  | made (parent : Val)
  | spoiled
  deriving DecidableEq

def Event.fate (n : Str) (f : Fate) : Event → Fate
  | .call (.imageChild parent (.str m)) => if m = n then .made parent else f
  | .create m => if m = n then .spoiled else f
  | .remove m => if m = n then .spoiled else f
  | _ => f

/-- The last thing that happened to a file. -/
def fate (n : Str) (events : List Event) : Fate := events.foldl (Event.fate n) .untouched

section Leaves

variable (env : Env)

/-- A file is neither made nor removed between two states, and nothing happens to it. -/
def Leaves (n : Str) (s t : World) : Prop :=
  isFile env t (.str n) = isFile env s (.str n) ∧ Adds (fun e => ∀ f, e.fate n f = f) s t

variable {env} {n : Str}

theorem Leaves.refl (s : World) : Leaves env n s s := ⟨rfl, Adds.refl s⟩

theorem Leaves.trans (s t u : World) (h : Leaves env n s t) (h' : Leaves env n t u) :
    Leaves env n s u := ⟨h'.1.trans h.1, h.2.trans h'.2⟩

theorem isFile_addFile (s : World) (m : Str) :
    isFile env (s.addFile m) (.str n) = (isFile env s (.str n) || m == n) := by
  rw [isFile, isFile, World.addFile]
  by_cases hm : m ∈ s.files
  · rw [if_pos hm]
    by_cases hmn : m = n
    · subst hmn
      simp [hm]
    · simp [hmn]
  · rw [if_neg hm, List.contains_append, Bool.or_assoc]
    congr 2
    rw [List.contains_cons, List.contains_nil, Bool.or_false, Bool.beq_comm]

theorem isFile_removeFile (s : World) {m : Str} (h : m ≠ n) :
    isFile env (s.removeFile m) (.str n) = isFile env s (.str n) := by
  have hmem : (s.files.filter (· != m)).contains n = s.files.contains n := by
    rw [Bool.eq_iff_iff, List.contains_iff_mem, List.contains_iff_mem, List.mem_filter]
    simp [Ne.symm h]
  rw [isFile, isFile, World.removeFile, hmem]

theorem leaves_create {m : Str} (h : m ≠ n) (s : World) : Leaves env n s (create m s) := by
  refine ⟨?_, adds_create (fun _ => if_neg h) s⟩
  rw [create, isFile_addFile, beq_eq_false_iff_ne.mpr h, Bool.or_false]
  rfl

theorem leaves_remove {m : Str} (h : m ≠ n) (s : World) : Leaves env n s (remove m s) :=
  ⟨isFile_removeFile (s.record (.remove m)) h, adds_remove (fun _ => if_neg h) s⟩

theorem leaves_make {m : Str} (h : m ≠ n) (parent : Val) (s : World) :
    Leaves env n s (call (.imageChild parent (.str m)) s) := by
  refine ⟨?_, adds_call (fun _ => if_neg h) s⟩
  rw [call]
  split
  · rw [effect, isFile_addFile]
    have hne : (tostring (.str m) == n) = false := beq_eq_false_iff_ne.mpr h
    rw [hne, Bool.or_false]
    rfl
  · rfl

/-- Without a name there is no child to make. -/
theorem leaves_make_nil (s : World) : Leaves env n s (call (.imageChild .nil .nil) s) :=
  ⟨rfl, adds_call (fun _ => rfl) s⟩

theorem leaves_lsofkill (c : Val) (s : World) : Leaves env n s (lsofkill c s) := by
  refine ⟨?_, adds_lsofkill c s⟩
  unfold lsofkill
  split
  · split
    · rfl
    · rfl
  · rfl

theorem leaves_imgDelete {c : Val} (h : c ≠ .str n) (s : World) :
    Leaves env n s (imgDelete c s) := by
  unfold imgDelete
  split
  · split
    · rename_i m _
      exact leaves_remove (fun hm => h (congrArg Val.str hm)) s
    · exact Leaves.refl s
  · exact Leaves.refl s

end Leaves

/-! ## One round -/

section Round

variable {env : Env} {cfg : Config} {w : Workstation} {n : Str}

/-- A round without a child leaves every file but its lock. -/
theorem acts_leaves_unset {i : ℕ} {v : Image} (hlock : lockf cfg w i ≠ n) :
    (createChild env cfg w i v .unset).Acts (Within (Leaves env n)) :=
  createChild_within env cfg w Leaves.refl Leaves.trans leaves_make_nil (leaves_create hlock)
    (leaves_remove hlock) (leaves_lsofkill .nil) (leaves_imgDelete (by simp [Vars.unset]))

/-- A round leaves every file but its child and its lock. -/
theorem acts_leaves_other {i : ℕ} {v : Image} {p c : Str} (hlock : lockf cfg w i ≠ n)
    (hc : c ≠ n) : (createChild env cfg w i v ⟨.str p, .str c⟩).Acts (Within (Leaves env n)) :=
  createChild_within env cfg w Leaves.refl Leaves.trans (leaves_make hc (.str p))
    (leaves_create hlock) (leaves_remove hlock) (leaves_lsofkill (.str c))
    (leaves_imgDelete fun h => hc (Val.str.inj h))

/-- The file is made from a parent, and then left. -/
def Made (env : Env) (p c : Str) (s t : World) : Prop :=
  ∃ u, Adds (fun _ => True) s u ∧ Leaves env c (call (.imageChild (.str p) (.str c)) u) t

def super (w : Workstation) (v : Image) : Bool :=
  Boot.on w.enable && Boot.on w.supper && Boot.on v.enable && Boot.on v.commit

theorem adds_freeChild {c : Val} {s t : World} (h : Ends (freeChild c) s (.returned t)) :
    Adds (fun _ => True) s t := by
  have hacts : (freeChild c).Acts (Within (Adds fun _ => True)) :=
    ⟨within_set (adds_lsofkill c), within_set (adds_imgDelete fun _ _ => trivial)⟩
  exact Ends.within Adds.refl (fun _ _ _ => Adds.trans) hacts h

theorem adds_freed {c : Val} {lock : Str} {s t : World}
    (h : Ends (.cond (fun s => isFile env s c) (.seq (freeChild c)
      (.set fun s => if isFile env s (.str lock) then remove lock s else s)) .skip) s
      (.returned t)) : Adds (fun _ => True) s t := by
  rw [ends_cond] at h
  split at h
  · obtain ⟨u, hu, ht⟩ := ends_seq_returned.mp h
    refine (adds_freeChild hu).trans ?_
    rw [Lua.Call.returned.inj (ends_set.mp ht)]
    split
    · exact adds_remove trivial u
    · exact Adds.refl u
  · rw [Lua.Call.returned.inj (ends_skip.mp h)]
    exact Adds.refl s

/-- A round that has a child keeps it under its lock in super mode, and makes it from the
parent otherwise. -/
theorem round_child {i : ℕ} {v : Image} {p c : Str} {s t : World} (hlock : lockf cfg w i ≠ c)
    (h : Ends (createChild env cfg w i v ⟨.str p, .str c⟩) s (.returned t)) :
    if super w v && isFile env s (.str (lockf cfg w i)) && isFile env s (.str c)
    then Leaves env c s t else Made env p c s t := by
  unfold createChild at h
  dsimp only at h
  rw [← super, ends_cond, ends_cond, ends_cond] at h
  split at h
  · rename_i hfresh
    obtain ⟨u, hu, ht⟩ := ends_seq_returned.mp h
    rw [if_neg (by simp_all), Lua.Call.returned.inj (ends_set.mp ht)]
    exact ⟨u, adds_freeChild hu, leaves_create hlock _⟩
  · split at h
    · rename_i hfresh
      rw [if_neg (by simp_all), Lua.Call.returned.inj (ends_set.mp h)]
      exact ⟨create (lockf cfg w i) s, adds_create trivial s, Leaves.refl _⟩
    · split at h
      · rename_i hkeep
        rw [if_pos hkeep, Lua.Call.returned.inj (ends_set.mp h)]
        exact leaves_create hlock s
      · rename_i hkeep
        obtain ⟨u, hu, ht⟩ := ends_seq_returned.mp h
        rw [if_pos ⟨by simp, by simp⟩] at ht
        obtain ⟨u', hu', ht⟩ := ends_seq_returned.mp ht
        -- waiting for the parent changes nothing
        have hwait : Adds (fun _ => True) u u' :=
          Ends.within (p := .poll _ skip) Adds.refl (fun _ _ _ => Adds.trans)
            (within_set Adds.refl) hu'
        rw [if_neg hkeep, Lua.Call.returned.inj (ends_set.mp ht)]
        exact ⟨u', (adds_freed hu).trans hwait, Leaves.refl _⟩

end Round

/-! ## The parent of a disk -/

section Parent

variable (cfg : Config) (w : Workstation)

/-- An enabled disk of an enabled workstation. -/
def disk (v : Image) : Bool := Boot.on w.enable && Boot.on v.enable && (v.dyndisk || v.dynblock)

/-- The master in super mode with commit, and the client's own snapshot otherwise. -/
def parentOf (v : Image) : Str :=
  if Boot.on w.supper && Boot.on v.commit then
    if v.dyndisk then diskMaster cfg v else blockMaster cfg v
  else if v.dyndisk then diskSnapshot cfg w v else blockSnapshot cfg w v

theorem findParent_eq (v : Image) : findParent cfg w .unset v =
    if disk w v && flagged w v then ⟨.str (parentOf cfg w v), .str (child cfg w v)⟩
    else .unset := by
  unfold findParent disk parentOf
  by_cases hen : (Boot.on w.enable && Boot.on v.enable) = true
  · by_cases hdisk : v.dyndisk = true
    · simp [hen, hdisk, chooseParent_eq]
    · by_cases hblock : v.dynblock = true
      · simp [hen, hdisk, hblock, chooseParent_eq]
      · simp [hdisk, hblock]
  · simp [hen]

theorem mkImage_eq (env : Env) (e : Image × ℕ) : mkImage env cfg w e =
    if disk w e.1 && flagged w e.1 then
      createChild env cfg w e.2 e.1 ⟨.str (parentOf cfg w e.1), .str (child cfg w e.1)⟩
    else if creates w e.1 then createChild env cfg w e.2 e.1 .unset else .skip := by
  rw [mkImage, varsAt_eq, findParent_eq]
  by_cases hdisk : (disk w e.1 && flagged w e.1) = true
  · have hcreates : creates w e.1 = true := by
      by_contra hnot
      have hunset := findParent_unset cfg w e.1 (Bool.not_eq_true _ |>.mp hnot)
      rw [findParent_eq, if_pos hdisk] at hunset
      exact absurd hunset (by simp [Vars.unset])
    rw [if_pos hcreates, if_pos hdisk, if_pos hdisk]
  · rw [if_neg hdisk, if_neg hdisk]

end Parent

/-! ## The rounds seen from one child -/

/-- What has become of a file since a state. -/
structure Tracks (env : Env) (n : Str) (s₀ s : World) (st : Bool × Fate) : Prop where
  file : isFile env s (.str n) = st.1
  log : ∃ l, s.log = s₀.log ++ l ∧ fate n l = st.2

section Tracks

variable {env : Env} {n : Str} {s₀ s t : World} {st : Bool × Fate}

theorem fate_append (l l' : List Event) : fate n (l ++ l') = l'.foldl (Event.fate n) (fate n l) :=
  List.foldl_append

theorem Tracks.leaves (h : Tracks env n s₀ s st) (hst : Leaves env n s t) :
    Tracks env n s₀ t st := by
  obtain ⟨l, hl, hfate⟩ := h.log
  obtain ⟨added, hadded, hquiet⟩ := hst.2
  have hsame (f : Fate) : added.foldl (Event.fate n) f = f := by
    clear hadded
    induction added with
    | nil => rfl
    | cons e added ih =>
      rw [List.foldl_cons, hquiet e List.mem_cons_self f]
      exact ih fun e he => hquiet e (List.mem_cons_of_mem _ he)
  refine ⟨hst.1.trans h.file, l ++ added, by rw [hadded, hl, List.append_assoc], ?_⟩
  rw [fate_append, hsame, hfate]

theorem Tracks.made {p : Str} (hp : p ≠ []) (hn : n ≠ []) (h : Tracks env n s₀ s st)
    (hst : Made env p n s t) : Tracks env n s₀ t (true, .made (.str p)) := by
  obtain ⟨u, ⟨added, hadded, -⟩, hleaves⟩ := hst
  obtain ⟨l, hl, -⟩ := h.log
  have haccepts : accepts (.imageChild (.str p) (.str n)) = true := by
    cases p with
    | nil => exact absurd rfl hp
    | cons x p =>
      cases n with
      | nil => exact absurd rfl hn
      | cons y n => rfl
  refine Tracks.leaves ⟨?_, l ++ added ++ [.call (.imageChild (.str p) (.str n))], ?_, ?_⟩ hleaves
  · rw [call, if_pos haccepts, effect, isFile_addFile]
    exact Bool.or_eq_true_iff.mpr (Or.inr (beq_self_eq_true n))
  · rw [call_log, hadded, hl]
    simp only [List.append_assoc]
  · rw [fate_append]
    exact if_pos rfl

theorem Tracks.fate_since (h : Tracks env n s₀ s st) : fate n (since s₀ s) = st.2 := by
  obtain ⟨l, hl, hfate⟩ := h.log
  rw [since, hl, List.drop_left, hfate]

end Tracks

section Rounds

variable (env : Env) (cfg : Config) (w : Workstation) (n : Str) (s₀ : World)

/-- The round makes the file. -/
def concerns (e : Image × ℕ) : Bool := disk w e.1 && flagged w e.1 && child cfg w e.1 == n

/-- The round keeps the file if it is there. -/
def locked (e : Image × ℕ) : Bool := super w e.1 && isFile env s₀ (.str (lockf cfg w e.2))

def follow (st : Bool × Fate) (e : Image × ℕ) : Bool × Fate :=
  if concerns cfg w n e then
    if locked env cfg w s₀ e && st.1 then st else (true, .made (.str (parentOf cfg w e.1)))
  else st

/-- Either all rounds keep the file, or one that does not is the last to make it. -/
theorem foldl_follow (es : List (Image × ℕ)) (st : Bool × Fate) :
    (es.foldl (follow env cfg w n s₀) st = st ∧
      ∀ e ∈ es, concerns cfg w n e = true → locked env cfg w s₀ e && st.1) ∨
    ((∃ e ∈ es, concerns cfg w n e = true ∧ ¬ (locked env cfg w s₀ e && st.1)) ∧
      ∃ r ∈ es, concerns cfg w n r = true ∧
        es.foldl (follow env cfg w n s₀) st = (true, .made (.str (parentOf cfg w r.1)))) := by
  induction es generalizing st with
  | nil => exact Or.inl ⟨rfl, by simp⟩
  | cons e es ih =>
    rw [List.foldl_cons]
    by_cases hmakes : concerns cfg w n e = true ∧ ¬ (locked env cfg w s₀ e && st.1)
    · refine Or.inr ⟨⟨e, List.mem_cons_self, hmakes⟩, ?_⟩
      rw [follow, if_pos hmakes.1, if_neg hmakes.2]
      obtain ⟨hst, -⟩ | ⟨-, r, hr, hconcerns, hst⟩ := ih (true, .made (.str (parentOf cfg w e.1)))
      · exact ⟨e, List.mem_cons_self, hmakes.1, hst⟩
      · exact ⟨r, List.mem_cons_of_mem e hr, hconcerns, hst⟩
    · have hst : follow env cfg w n s₀ st e = st := by
        unfold follow
        split
        · rename_i hconcerns
          rw [if_pos (not_not.mp fun hlocked => hmakes ⟨hconcerns, hlocked⟩)]
        · rfl
      rw [hst]
      obtain ⟨hsame, hkeep⟩ | ⟨⟨e', he', hmakes'⟩, r, hr, hlast⟩ := ih st
      · refine Or.inl ⟨hsame, fun e' he' hconcerns => ?_⟩
        obtain rfl | he' := List.mem_cons.mp he'
        · exact not_not.mp fun hlocked => hmakes ⟨hconcerns, hlocked⟩
        · exact hkeep e' he' hconcerns
      · exact Or.inr ⟨⟨e', List.mem_cons_of_mem e he', hmakes'⟩, r,
          List.mem_cons_of_mem e hr, hlast⟩

variable {env cfg w n s₀}

theorem mkImage_leaves {e : Image × ℕ} {m : Str} (hlock : lockf cfg w e.2 ≠ m)
    (hchild : (disk w e.1 && flagged w e.1) = true → child cfg w e.1 ≠ m) :
    (mkImage env cfg w e).Acts (Within (Leaves env m)) := by
  rw [mkImage_eq]
  split
  · rename_i hdisk
    exact acts_leaves_other hlock (hchild hdisk)
  · split
    · exact acts_leaves_unset hlock
    · exact within_set Leaves.refl

theorem parentOf_ne_nil (v : Image) : parentOf cfg w v ≠ [] := by
  unfold parentOf
  split <;> split <;> simp [diskMaster, blockMaster, diskSnapshot, blockSnapshot]

theorem child_ne_nil (v : Image) : child cfg w v ≠ [] := by simp [child]

/-- A round takes the file as `follow` does. -/
theorem Tracks.round {e : Image × ℕ} {s t : World} {st : Bool × Fate}
    (hlock : lockf cfg w e.2 ≠ n)
    (hsame : isFile env s (.str (lockf cfg w e.2)) = isFile env s₀ (.str (lockf cfg w e.2)))
    (h : Tracks env n s₀ s st) (hst : Ends (mkImage env cfg w e) s (.returned t)) :
    Tracks env n s₀ t (follow env cfg w n s₀ st e) := by
  unfold follow
  by_cases hconcerns : concerns cfg w n e = true
  · rw [if_pos hconcerns]
    rw [concerns, Bool.and_eq_true, beq_iff_eq] at hconcerns
    obtain ⟨hdisk, rfl⟩ := hconcerns
    rw [mkImage_eq, if_pos hdisk] at hst
    have hround := round_child hlock hst
    rw [hsame, h.file, ← locked] at hround
    split at hround
    · rename_i hkeep
      rw [if_pos hkeep]
      exact h.leaves hround
    · rename_i hkeep
      rw [if_neg hkeep]
      exact h.made (parentOf_ne_nil e.1) (child_ne_nil e.1) hround
  · rw [if_neg hconcerns]
    refine h.leaves (Ends.within Leaves.refl Leaves.trans (mkImage_leaves hlock ?_) hst)
    intro hdisk hchild
    exact hconcerns (by rw [concerns, hdisk, hchild, beq_self_eq_true, Bool.and_self])

/-- The rounds take the file as `follow` does: each one leaves the locks of the others. -/
theorem Tracks.rounds {es : List (Image × ℕ)} (hnodup : (es.map Prod.snd).Nodup)
    (hlock : ∀ e ∈ es, lockf cfg w e.2 ≠ n)
    (hapart : ∀ e ∈ es, disk w e.1 = true → ∀ i, lockf cfg w i ≠ child cfg w e.1)
    {s t : World} {st : Bool × Fate}
    (hsame : ∀ e ∈ es, isFile env s (.str (lockf cfg w e.2)) =
      isFile env s₀ (.str (lockf cfg w e.2)))
    (h : Tracks env n s₀ s st) (hst : Ends (each es (mkImage env cfg w)) s (.returned t)) :
    Tracks env n s₀ t (es.foldl (follow env cfg w n s₀) st) := by
  induction es generalizing s st with
  | nil => rwa [Lua.Call.returned.inj (ends_skip.mp hst)]
  | cons e es ih =>
    obtain ⟨u, hu, hut⟩ := ends_seq_returned.mp hst
    rw [List.map_cons, List.nodup_cons] at hnodup
    have hmem {e' : Image × ℕ} (he' : e' ∈ es) : e' ∈ e :: es := List.mem_cons_of_mem e he'
    have hself : e ∈ e :: es := List.mem_cons_self
    refine ih hnodup.2 (fun e' he' => hlock e' (hmem he')) (fun e' he' => hapart e' (hmem he'))
      (fun e' he' => ?_) (h.round (hlock e hself) (hsame e hself) hu) hut
    have hne : lockf cfg w e.2 ≠ lockf cfg w e'.2 := fun heq =>
      hnodup.1 (lockf_injective cfg w heq ▸ List.mem_map_of_mem he')
    have hleaves := Ends.within Leaves.refl Leaves.trans (mkImage_leaves hne fun hdisk =>
      (hapart e hself (Bool.and_eq_true_iff.mp hdisk).1 e'.2).symm) hu
    rw [hleaves.1, hsame e' (hmem he')]

end Rounds

/-! ## All children -/

section

variable (env : Env) (cfg : Config) (w : Workstation)

def disks : List (Image × ℕ) := (w.img.zipIdx 1).filter fun e => disk w e.1

/-- After `mkChild` the child is there, made by it from the parent or, in super mode and
under its lock, kept. -/
def Usable (s t : World) (e : Image × ℕ) : Prop :=
  isFile env t (.str (child cfg w e.1)) = true ∧
    (fate (child cfg w e.1) (since s t) = .made (.str (parentOf cfg w e.1)) ∨
      locked env cfg w s e = true ∧ fate (child cfg w e.1) (since s t) = .untouched)

/-- The child is there, and will be kept. -/
def Keeps (s : World) (e : Image × ℕ) : Prop :=
  locked env cfg w s e = true ∧ isFile env s (.str (child cfg w e.1)) = true

/-- All disks with the child of a disk keep it, or one with both flags makes it and all
have the same parent. -/
def Provided (s : World) (e : Image × ℕ) : Prop :=
  (∀ e' ∈ disks w, child cfg w e'.1 = child cfg w e.1 → Keeps env cfg w s e') ∨
  ((∃ e' ∈ disks w, child cfg w e'.1 = child cfg w e.1 ∧ flagged w e'.1 = true ∧
      ¬ Keeps env cfg w s e') ∧
    ∀ e' ∈ disks w, child cfg w e'.1 = child cfg w e.1 →
      parentOf cfg w e'.1 = parentOf cfg w e.1)

variable {env cfg w}

theorem mem_disks {e : Image × ℕ} : e ∈ disks w ↔ e ∈ w.img.zipIdx 1 ∧ disk w e.1 = true :=
  List.mem_filter

/-- A round that makes a child is that of a disk with both flags. -/
theorem concerns_iff {e : Image × ℕ} {n : Str} (he : e ∈ w.img.zipIdx 1) :
    concerns cfg w n e = true ↔ e ∈ disks w ∧ child cfg w e.1 = n ∧ flagged w e.1 = true := by
  rw [concerns, mem_disks, Bool.and_eq_true, Bool.and_eq_true, beq_iff_eq, and_iff_right he]
  tauto

theorem tracks_mkChild (henable : Boot.on w.enable = true)
    (hlocks : ∀ e ∈ disks w, ∀ i, lockf cfg w i ≠ child cfg w e.1) {s t : World}
    (h : Ends (mkChild env cfg w) s (.returned t)) {e : Image × ℕ} (he : e ∈ disks w) :
    Tracks env (child cfg w e.1) s t ((w.img.zipIdx 1).foldl
      (follow env cfg w (child cfg w e.1) s)
      (isFile env s (.str (child cfg w e.1)), .untouched)) := by
  rw [mkChild, if_pos henable] at h
  refine Tracks.rounds ?_ (fun e' _ => hlocks e he e'.2)
    (fun e' he' hdisk => hlocks e' (mem_disks.mpr ⟨he', hdisk⟩)) (fun _ _ => rfl)
    ⟨rfl, [], (List.append_nil _).symm, rfl⟩ h
  rw [List.zipIdx_map_snd]
  exact List.nodup_range'

/-- A child to which nothing happened is usable if it is kept. -/
theorem usable_of_untouched {s t : World} {e : Image × ℕ}
    (h : Tracks env (child cfg w e.1) s t (isFile env s (.str (child cfg w e.1)), .untouched)) :
    Usable env cfg w s t e ↔ Keeps env cfg w s e := by
  rw [Usable, Keeps, h.fate_since, h.file]
  simp [and_comm]

/-- A child that was made is usable if it was made from the parent. -/
theorem usable_of_made {s t : World} {e : Image × ℕ} {p : Str}
    (h : Tracks env (child cfg w e.1) s t (true, .made (.str p))) :
    Usable env cfg w s t e ↔ parentOf cfg w e.1 = p := by
  rw [Usable, h.fate_since, h.file]
  simp only [Fate.made.injEq, Val.str.injEq, reduceCtorEq, and_false, or_false, true_and]
  exact eq_comm

/-- The disks with one child have it exactly if it is provided for. -/
theorem usable_iff (henable : Boot.on w.enable = true)
    (hlocks : ∀ e ∈ disks w, ∀ i, lockf cfg w i ≠ child cfg w e.1) {s t : World}
    (h : Ends (mkChild env cfg w) s (.returned t)) {e : Image × ℕ} (he : e ∈ disks w) :
    (∀ e' ∈ disks w, child cfg w e'.1 = child cfg w e.1 → Usable env cfg w s t e') ↔
      Provided env cfg w s e := by
  have htracks := tracks_mkChild henable hlocks h he
  obtain ⟨hst, hkeep⟩ | ⟨⟨m, hm, hmakes, hnot⟩, r, hr, hlast, hst⟩ :=
    foldl_follow env cfg w (child cfg w e.1) s (w.img.zipIdx 1)
      (isFile env s (.str (child cfg w e.1)), .untouched)
  · rw [hst] at htracks
    -- nothing happened to the child
    have husable {e' : Image × ℕ} (hchild : child cfg w e'.1 = child cfg w e.1) :
        Usable env cfg w s t e' ↔ Keeps env cfg w s e' := usable_of_untouched (hchild ▸ htracks)
    constructor
    · exact fun hall => Or.inl fun e' he' hchild => (husable hchild).mp (hall e' he' hchild)
    · rintro (hall | ⟨⟨e', he', hchild, hflags, hnot⟩, -⟩) e'' he'' hchild''
      · exact (husable hchild'').mpr (hall e'' he'' hchild'')
      · have hlocked := hkeep e' (mem_disks.mp he').1
          ((concerns_iff (mem_disks.mp he').1).mpr ⟨he', hchild, hflags⟩)
        rw [Bool.and_eq_true] at hlocked
        exact absurd ⟨hlocked.1, by rw [hchild]; exact hlocked.2⟩ hnot
  · rw [hst] at htracks
    -- the child was made from the parent of `r`
    have husable {e' : Image × ℕ} (hchild : child cfg w e'.1 = child cfg w e.1) :
        Usable env cfg w s t e' ↔ parentOf cfg w e'.1 = parentOf cfg w r.1 :=
      usable_of_made (hchild ▸ htracks)
    obtain ⟨hmdisk, hmchild, hmflags⟩ := (concerns_iff hm).mp hmakes
    obtain ⟨hrdisk, hrchild, -⟩ := (concerns_iff hr).mp hlast
    have hmkeeps : ¬ Keeps env cfg w s m := fun hkeeps =>
      hnot (Bool.and_eq_true_iff.mpr ⟨hkeeps.1, by rw [← hmchild]; exact hkeeps.2⟩)
    constructor
    · intro hall
      refine Or.inr ⟨⟨m, hmdisk, hmchild, hmflags, hmkeeps⟩, fun e' he' hchild => ?_⟩
      rw [(husable hchild).mp (hall e' he' hchild), (husable rfl).mp (hall e he rfl)]
    · rintro (hall | ⟨-, hsame⟩) e' he' hchild
      · exact absurd (hall m hmdisk hmchild) hmkeeps
      · rw [husable hchild, hsame e' he' hchild, hsame r hrdisk hrchild]

/-- The parents of all enabled disks are there. -/
theorem ends_mkChild (hparents : ∀ e ∈ disks w, env.present (parentOf cfg w e.1) = true)
    (s : World) : ∃ t, Ends (mkChild env cfg w) s (.returned t) := by
  have hreturns : Returns SameTargets (mkChild env cfg w) :=
    returns_mkChild env cfg w fun v hv p _ hp => by
      rw [findParent_eq] at hp
      split at hp
      · rename_i hdisk
        obtain ⟨k, hk, rfl⟩ := List.getElem_of_mem hv
        have hmem : (w.img[k], k + 1) ∈ w.img.zipIdx 1 := by
          rw [List.mk_mem_zipIdx_iff_le_and_getElem?_sub]
          simp [hk]
        injection hp with hp
        rw [← Val.str.inj hp]
        exact hparents _ (mem_disks.mpr ⟨hmem, (Bool.and_eq_true_iff.mp hdisk).1⟩)
      · exact absurd hp (by simp [Vars.unset])
  obtain ⟨t, ht, -⟩ := hreturns s
  exact ⟨t, ht⟩

end

theorem children_usable_iff (env : Env) (cfg : Config) (w : Workstation)
    (henable : Boot.on w.enable = true)
    (hparents : ∀ e ∈ disks w, env.present (parentOf cfg w e.1) = true)
    (hlocks : ∀ e ∈ disks w, ∀ i, lockf cfg w i ≠ child cfg w e.1) (s : World) :
    ∃ t, Ends (mkChild env cfg w) s (.returned t) ∧
      ((∀ e ∈ disks w, Usable env cfg w s t e) ↔ ∀ e ∈ disks w, Provided env cfg w s e) := by
  obtain ⟨t, ht⟩ := ends_mkChild hparents s
  refine ⟨t, ht, fun hall e he => ?_, fun hall e he => ?_⟩
  · exact (usable_iff henable hlocks ht he).mp fun e' he' _ => hall e' he'
  · exact (usable_iff henable hlocks ht he).mpr (hall e he) e he rfl

/-- Disks with both flags and children of their own. -/
theorem provided_of_flagged {env : Env} {cfg : Config} {w : Workstation} {s : World}
    (hflags : ∀ e ∈ disks w, flagged w e.1 = true)
    (hown : ∀ e ∈ disks w, ∀ e' ∈ disks w, child cfg w e'.1 = child cfg w e.1 → e' = e) :
    ∀ e ∈ disks w, Provided env cfg w s e := by
  intro e he
  by_cases hkeeps : Keeps env cfg w s e
  · exact Or.inl fun e' he' hchild => hown e he e' he' hchild ▸ hkeeps
  · exact Or.inr ⟨⟨e, he, rfl, hflags e he, hkeeps⟩, fun e' he' hchild =>
      hown e he e' he' hchild ▸ rfl⟩

/-! A workstation with two disks and both flags, and one whose only disk has no flag. -/

def stocked : Env :=
  { lab with
    present := fun n => n ∈ [windows, games].map (diskSnapshot shipped (station [windows, games])) }

def unflagged : Image := { windows with commit := .nil }

def bare : Workstation := { station [unflagged] with supper := .nil }

/-- A world in which no child exists yet. -/
def empty : World := { idle with files := [] }

theorem mem_disks_single {w : Workstation} {v : Image} (himg : w.img = [v])
    {e : Image × ℕ} (he : e ∈ disks w) : e = (v, 1) := by
  have hmem := (mem_disks.mp he).1
  rw [himg] at hmem
  exact List.mem_singleton.mp hmem

theorem flagged_station_has_child :
    ∃ t, Ends (mkChild stocked shipped (station [windows, games])) empty (.returned t) ∧
      ∀ e ∈ disks (station [windows, games]),
        Usable stocked shipped (station [windows, games]) empty t e := by
  have hpair {e : Image × ℕ} (he : e ∈ disks (station [windows, games])) :
      e ∈ [(windows, 1), (games, 2)] := (mem_disks.mp he).1
  have hlocks (v : Image) (i : ℕ) :
      lockf shipped (station [windows, games]) i ≠ child shipped (station [windows, games]) v := by
    intro heq
    have hsecond : some 'v' = some 's' := congrArg (fun n : Str => n[1]?) heq
    exact absurd hsecond (by decide)
  have hparents : ∀ e ∈ [(windows, 1), (games, 2)],
      stocked.present (parentOf shipped (station [windows, games]) e.1) = true := by decide +kernel
  have hflags : ∀ e ∈ [(windows, 1), (games, 2)],
      flagged (station [windows, games]) e.1 = true := by decide +kernel
  have hapart : child shipped (station [windows, games]) windows ≠
      child shipped (station [windows, games]) games := by decide +kernel
  obtain ⟨t, ht, hiff⟩ := children_usable_iff stocked shipped (station [windows, games])
    (by decide +kernel) (fun e he => hparents e (hpair he)) (fun e _ i => hlocks e.1 i) empty
  refine ⟨t, ht, hiff.mpr (provided_of_flagged (fun e he => hflags e (hpair he)) ?_)⟩
  intro e he e' he' hchild
  have he := hpair he
  have he' := hpair he'
  simp only [List.mem_cons, List.not_mem_nil, or_false] at he he'
  obtain rfl | rfl := he <;> obtain rfl | rfl := he'
  · rfl
  · exact absurd hchild.symm hapart
  · exact absurd hchild hapart
  · rfl

theorem bare_station_has_no_child :
    Boot.on bare.enable = true ∧
      (∀ e ∈ disks bare, stocked.present (parentOf shipped bare e.1) = true) ∧
      ∃ t, Ends (mkChild stocked shipped bare) empty (.returned t) ∧
        ∃ e ∈ disks bare, ¬ Usable stocked shipped bare empty t e := by
  have hrun : (result 1 (mkChild stocked shipped bare) empty).map
      (fun t => isFile stocked t (.str (child shipped bare unflagged))) = some false := by
    decide +kernel
  obtain ⟨t, ht, hfile⟩ := Option.map_eq_some_iff.mp hrun
  refine ⟨by decide +kernel, fun e he => mem_disks_single rfl he ▸ by decide +kernel,
    t, ends_of_result ht, (unflagged, 1),
      mem_disks.mpr ⟨List.mem_singleton_self _, by decide +kernel⟩,
    fun h => ?_⟩
  exact absurd (h.1.symm.trans hfile) (by decide)

end Station
end Control
end MkyBoot
