import MkyBoot.Control.Artefact

/-!
# Leaving super mode

A `disableCommit` request writes the children of a workstation back into their masters
and then clears the flags of super mode.  `mkChild` reads the flags as texts, so that
the number one is as good as the text, and the request compares the one of the
workstation with the text alone.
-/

namespace MkyBoot
namespace Control
namespace Station

open Lua Command Lua.Prog

/-- What the request does, one after the other. -/
inductive Deed where
  /-- A step on the system. -/
  | does (e : Event)
  /-- `supper` is set. -/
  | supper (v : Val)
  /-- `img[i].commit` is set. -/
  | commit (i : ℕ) (v : Val)
  /-- `SaveToFile` -/
  | save

def Deed.clears : Deed → Bool
  | .does _ => false
  | .supper _ => true
  | .commit _ _ => true
  | .save => false

section

-- `peer` is the workstation that `GetIDFromIPv4` finds for the address, if there is one
variable (env : Env) (cfg : Config) (peer : Option Workstation) (w : Workstation)

def stopPeer (s : World) : World :=
  peer.elim s fun p => nbdFree env cfg p (tgtstop env cfg p s)

def commitImage (s : World) (v : Image) : World :=
  if Boot.on v.enable && Boot.on v.commit && !v.iso && isFile env s (.str (child cfg w v)) then
    call (.imageCommit (.str (child cfg w v))) (stopPeer env cfg peer s)
  else s

/-- The loop over the images, which a raw comparison guards. -/
def commitImages (s : World) : World :=
  if w.supper = .str "1".toList then w.img.foldl (commitImage env cfg peer w) s else s

/-- Clearing raises on the first of three images that is missing. -/
def clearFlags : List Deed :=
  [.supper (.str "0".toList), .supper (.str "0".toList)] ++
    (List.range' 1 (min 3 w.img.length)).map (.commit · (.str "0".toList)) ++
    if 3 ≤ w.img.length then [.save] else []

/-- The branch of `disableCommit` for a workstation that is found. -/
def disableCommit (s : World) : List Deed :=
  (since s (commitImages env cfg peer w s)).map .does ++ clearFlags w

/-! ## What the loop does -/

theorem tgtstop_files (s : World) : (tgtstop env cfg w s).files = s.files :=
  tgtstop_part env cfg w World.files (fun s => call_files _ s rfl) s

theorem nbdFree_files (s : World) : (nbdFree env cfg w s).files = s.files :=
  nbdFree_part env cfg w World.files (fun _ _ _ => rfl) (fun s => call_files _ s rfl)
    (fun _ s => call_files _ s rfl) s

theorem commitImage_files (s : World) (v : Image) :
    (commitImage env cfg peer w s v).files = s.files := by
  unfold commitImage
  split
  · rw [call_files _ _ rfl, stopPeer]
    cases peer with
    | none => rfl
    | some p =>
      show (nbdFree env cfg p (tgtstop env cfg p s)).files = s.files
      rw [nbdFree_files, tgtstop_files]
  · rfl

/-- A child that its image does not keep from being committed, and that exists. -/
def Commits (s : World) (v : Image) : Prop :=
  Boot.on v.enable = true ∧ Boot.on v.commit = true ∧ v.iso = false ∧
    isFile env s (.str (child cfg w v)) = true

theorem commits_congr {s t : World} (h : t.files = s.files) (v : Image) :
    Commits env cfg w t v ↔ Commits env cfg w s v := by
  rw [Commits, Commits, isFile_congr env h]

theorem adds_stopPeer {Q : Event → Prop} (hkill : ∀ tid, Q (.call (.tgtKill tid)))
    (hdel : ∀ d, Q (.call (.nbdDel d))) (s : World) : Adds Q s (stopPeer env cfg peer s) := by
  cases peer with
  | none => exact Adds.refl s
  | some p =>
    exact (adds_tgtstop env cfg p (hkill _) s).trans (adds_nbdFree env cfg p (hkill _) hdel _)

/-- A kind of events that covers what the round of an image can do. -/
theorem adds_commitImage {Q : Event → Prop} (hkill : ∀ tid, Q (.call (.tgtKill tid)))
    (hdel : ∀ d, Q (.call (.nbdDel d))) {v : Image}
    (hcommit : Boot.on v.commit = true → Q (.call (.imageCommit (.str (child cfg w v)))))
    (s : World) : Adds Q s (commitImage env cfg peer w s v) := by
  unfold commitImage
  split
  · rename_i h
    simp only [Bool.and_eq_true] at h
    exact (adds_stopPeer env cfg peer hkill hdel s).trans (adds_call (hcommit h.1.1.2) _)
  · exact Adds.refl s

theorem mem_since_commitImage {s : World} {v : Image} (h : Commits env cfg w s v) :
    .call (.imageCommit (.str (child cfg w v))) ∈ since s (commitImage env cfg peer w s v) := by
  obtain ⟨henable, hcommit, hiso, hfile⟩ := h
  obtain ⟨added, hlog, -⟩ : Adds (fun _ => True) s (stopPeer env cfg peer s) :=
    adds_stopPeer env cfg peer (fun _ => trivial) (fun _ => trivial) s
  rw [commitImage, henable, hcommit, hiso, hfile]
  show _ ∈ (call _ _).log.drop s.log.length
  rw [call_log, hlog, List.append_assoc, List.drop_left]
  exact List.mem_append_right _ (List.mem_singleton_self _)

theorem mem_since_left {e : Event} {s t u : World} (h : e ∈ since s t)
    (htu : Adds (fun _ => True) t u) : e ∈ since s u := by
  obtain ⟨added, hlog, -⟩ := htu
  rw [since, hlog, List.drop_append]
  exact List.mem_append_left _ h

theorem mem_since_right {e : Event} {s t u : World} (hst : Adds (fun _ => True) s t)
    (h : e ∈ since t u) : e ∈ since s u := by
  obtain ⟨added, hlog, -⟩ := hst
  rw [since, hlog, List.length_append] at h
  rw [since]
  exact List.mem_of_mem_drop (by rwa [List.drop_drop])

/-- The loop commits every such child. -/
theorem mem_since_commitImages {s : World} {v : Image} (hv : v ∈ w.img)
    (h : Commits env cfg w s v) :
    .call (.imageCommit (.str (child cfg w v))) ∈
      since s (w.img.foldl (commitImage env cfg peer w) s) := by
  obtain ⟨before, after, himg⟩ := List.append_of_mem hv
  rw [himg, List.foldl_append, List.foldl_cons]
  have hadds (l : List Image) (s : World) :
      Adds (fun _ => True) s (l.foldl (commitImage env cfg peer w) s) :=
    adds_foldl (fun s v _ => adds_commitImage env cfg peer w (fun _ => trivial)
      (fun _ => trivial) (fun _ => trivial) s) s
  have hfiles : (before.foldl (commitImage env cfg peer w) s).files = s.files :=
    foldl_part World.files (fun s v _ => commitImage_files env cfg peer w s v) s
  have hcommit := mem_since_commitImage env cfg peer w ((commits_congr env cfg w hfiles v).mpr h)
  exact mem_since_left (mem_since_right (hadds before s) hcommit) (hadds after _)

/-- The loop commits only children of images with the flag. -/
theorem flagged_of_mem_commitImages {s : World} {c : Val}
    (h : .call (.imageCommit c) ∈ since s (commitImages env cfg peer w s)) :
    ∃ v ∈ w.img, Boot.on v.commit = true ∧ c = .str (child cfg w v) := by
  have hadds : Adds (fun e => ∀ c, e = .call (.imageCommit c) →
      ∃ v ∈ w.img, Boot.on v.commit = true ∧ c = .str (child cfg w v)) s
      (commitImages env cfg peer w s) := by
    unfold commitImages
    split
    · refine adds_foldl (fun s v hv => adds_commitImage env cfg peer w
        (fun _ _ h => absurd h (by simp))
        (fun _ _ h => absurd h (by simp)) (fun hon c h => ⟨v, hv, hon, ?_⟩) s) s
      injection h with h
      injection h with h
      exact h.symm
    · exact Adds.refl s
  obtain ⟨added, hlog, hadded⟩ := hadds
  rw [since, hlog, List.drop_left] at h
  exact hadded _ h c rfl

/-! ## Children on a master -/

/-- `mkChild` builds the child of an image on the image's master. -/
def OnMaster (v : Image) : Prop :=
  ∃ i p, Causes (mkImage env cfg w (v, i)) (.call (.imageChild (.str p) (.str (child cfg w v)))) ∧
    IsMaster cfg v p

theorem creates_of_causes {e : Event} {v : Image} {i : ℕ}
    (h : Causes (mkImage env cfg w (v, i)) e) :
    creates w v = true := by
  unfold mkImage at h
  split at h
  · assumption
  · exact (Causes.of_acts (Q := fun _ => False) (within_set Adds.refl) h).elim

theorem chooseParent_master {v : Image} (hs : Boot.on w.supper = true)
    (hc : Boot.on v.commit = true) (master snapshot : Str) (vars : Vars) :
    chooseParent cfg w v master snapshot vars = ⟨.str master, .str (child cfg w v)⟩ := by
  simp [chooseParent, hs, hc, off_of_on hs, off_of_on hc]

theorem onMaster_iff {v : Image} : OnMaster env cfg w v ↔
    creates w v = true ∧ (v.dyndisk = true ∨ v.dynblock = true) ∧
      Boot.on w.supper = true ∧ Boot.on v.commit = true := by
  constructor
  · intro ⟨i, p, hcauses, hmaster⟩
    have hflags := (isMaster_iff (isParent_of_causes env cfg w hcauses)).mp hmaster
    exact ⟨creates_of_causes env cfg w hcauses, hmaster.imp And.left And.left, hflags⟩
  · intro ⟨hcreates, htype, hs, hc⟩
    have henable : (Boot.on w.enable && Boot.on v.enable) = true :=
      (Bool.and_eq_true_iff.mp hcreates).1
    obtain hdisk | hblock := htype
    · refine ⟨1, diskMaster cfg v, causes_imageChild env hcreates ?_ 1, Or.inl ⟨hdisk, rfl⟩⟩
      rw [findParent, henable, hdisk]
      exact chooseParent_master cfg w hs hc _ _ _
    · have hdisk : v.dyndisk = false := by
        by_contra h
        rw [not_both (Bool.not_eq_false _ |>.mp h)] at hblock
        exact Bool.false_ne_true hblock
      refine ⟨1, blockMaster cfg v, causes_imageChild env hcreates ?_ 1, Or.inr ⟨hblock, rfl⟩⟩
      rw [findParent, henable, hdisk, hblock]
      exact chooseParent_master cfg w hs hc _ _ _

/-- What the request does before it clears a flag. -/
theorem takeWhile_disableCommit (s : World) :
    (disableCommit env cfg peer w s).takeWhile (!·.clears) =
      (since s (commitImages env cfg peer w s)).map .does := by
  rw [disableCommit, List.takeWhile_append_of_pos]
  · exact List.append_nil _
  · intro d hd
    obtain ⟨e, -, rfl⟩ := List.mem_map.mp hd
    rfl

/-- The request commits every child that `mkChild` builds on a master, before it clears
the flags, exactly when `supper` is the text wherever there is such a child. -/
theorem disableCommit_commits_iff (s : World) :
    (∀ v ∈ w.img, OnMaster env cfg w v → isFile env s (.str (child cfg w v)) = true →
      .does (.call (.imageCommit (.str (child cfg w v)))) ∈
        (disableCommit env cfg peer w s).takeWhile (!·.clears)) ↔
    ((∃ v ∈ w.img, OnMaster env cfg w v ∧ isFile env s (.str (child cfg w v)) = true) →
      w.supper = .str "1".toList) := by
  rw [takeWhile_disableCommit]
  constructor
  · rintro h ⟨v, hv, hmaster, hfile⟩
    by_contra hsupper
    have hmem := h v hv hmaster hfile
    rw [commitImages, if_neg hsupper, since, List.drop_length] at hmem
    exact absurd hmem List.not_mem_nil
  · intro h v hv hmaster hfile
    rw [commitImages, if_pos (h ⟨v, hv, hmaster, hfile⟩)]
    obtain ⟨hcreates, -, -, hcommit⟩ := (onMaster_iff env cfg w).mp hmaster
    rw [creates, Bool.and_eq_true, Bool.and_eq_true, Bool.not_eq_true'] at hcreates
    exact List.mem_map_of_mem (mem_since_commitImages env cfg peer w hv
      ⟨hcreates.1.2, hcommit, hcreates.2, hfile⟩)

end

/-! A workstation in super mode, as a configuration written by hand has it. -/

def committing : Workstation :=
  { station [{ windows with commit := .num 1 }, installer, installer] with supper := .num 1 }

/-- The flags are cleared and saved, and nothing is committed. -/
theorem committing_dropped :
    (∃ v ∈ committing.img, OnMaster lab shipped committing v ∧
      isFile lab idle (.str (child shipped committing v)) = true) ∧
    .save ∈ disableCommit lab shipped (some committing) committing idle ∧
    ∀ e, .does e ∉ disableCommit lab shipped (some committing) committing idle := by
  have hnothing : disableCommit lab shipped (some committing) committing idle =
      clearFlags committing := by
    rw [disableCommit, commitImages, if_neg (by decide), since, List.drop_length]
    rfl
  refine ⟨⟨_, List.mem_cons_self, (onMaster_iff lab shipped committing).mpr ?_, ?_⟩, ?_, ?_⟩
  · exact ⟨by decide +kernel, Or.inl (by decide +kernel), by decide +kernel, by decide +kernel⟩
  · decide +kernel
  · rw [hnothing]
    exact List.mem_append_right _ (List.mem_singleton_self _)
  · intro e he
    rw [hnothing] at he
    simp [clearFlags] at he

end Station
end Control
end MkyBoot
