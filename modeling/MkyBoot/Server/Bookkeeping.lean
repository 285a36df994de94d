import MkyBoot.Server.Storage

/-!
# The books of the storage

The calls of `Storage` as their bodies run under the mutex: a sequence of statements
that can return an error at any point, with whatever was written up to there.
`registerCall_eq` and its siblings say that the bodies check everything before they
write, so a call is one of the operations of `Storage`.  `Booked` is what the two maps
keep, and `assigned_run_iff` says from the history of the calls alone when a client has
an assignment; `storage_bookkeeping` puts them together over every sequence of calls.
-/

namespace MkyBoot
namespace Server

open Go Machine

/-! ## The bodies of the calls -/

section Calls

variable (sys : Filepath.Sys)

/-- The body of a call.  An error keeps what was written before it. -/
abbrev StorageCall (os : Filepath.OS) := EStateM StorageErr (Storage os)

def errorIf {os : Filepath.OS} (c : Prop) [Decidable c] (e : StorageErr) : StorageCall os Unit :=
  if c then throw e else pure ()

/-- The body of `RegisterExisting` -/
def registerCall (id name path : Str) (abs : Option (Filepath.Abs sys.os)) (stat : Stat)
    (now : Time) : StorageCall sys.os BaseImage := do
  errorIf (id = []) .imageIdRequired
  errorIf ((← get).images[id]? ≠ none) (.alreadyRegistered id)
  match abs with
  | none => throw (.noAbs path)
  | some abs =>
    errorIf (!isContained sys (← get).root.text abs.text) (.outsideRoot path)
    match stat with
    | .missing => throw (.missing path)
    | .failed => throw (.stat path)
    | .directory => throw (.directory path)
    | .file size =>
      let img : BaseImage :=
        { id := id, name := name, path := abs.text, format := formatOf sys abs.text
          sizeBytes := size, readOnly := true, createdAt := now }
      modify fun s => { s with images := s.images.insert id img }
      return img

/-- The body of `AssignClient` -/
def assignCall (clientID imageID : Str) (now : Time) : StorageCall sys.os ClientAssignment := do
  errorIf (clientID = []) .clientIdRequired
  errorIf (imageID = []) .imageIdRequired
  match (← get).images[imageID]? with
  | none => throw (.imageNotFound imageID)
  | some img =>
    errorIf (!img.readOnly) (.notReadOnly imageID)
    errorIf ((← get).assignments[clientID]? ≠ none) (.clientAssigned clientID)
    let overlay := overlayPath sys (← get).root clientID
    errorIf (!isContained sys (← get).root.text overlay) (.escapesRoot overlay)
    let a : ClientAssignment :=
      { clientID := clientID, imageID := imageID, overlayPath := overlay
        writable := true, assignedAt := now }
    modify fun s => { s with assignments := s.assignments.insert clientID a }
    return a

/-- The body of `ReleaseAssignment` -/
def releaseCall {os : Filepath.OS} (clientID : Str) : StorageCall os Unit := do
  errorIf ((← get).assignments[clientID]? = none) (.clientNotAssigned clientID)
  modify fun s => { s with assignments := s.assignments.erase clientID }

def StorageOp.call : StorageOp sys.os → StorageCall sys.os Unit
  | .register id name path abs stat now =>
    registerCall sys id name path abs stat now >>= fun _ => pure ()
  | .assign clientID imageID now => assignCall sys clientID imageID now >>= fun _ => pure ()
  | .release clientID => releaseCall clientID

/-- The storage that a call leaves, with an error or without. -/
def callStep (s : Storage sys.os) (op : StorageOp sys.os) : Storage sys.os :=
  match op.call sys s with
  | .ok _ s' => s'
  | .error _ s' => s'

/-- A result whose error leaves the state. -/
def settled {σ α : Type} (s : σ) : Except StorageErr (α × σ) → EStateM.Result StorageErr σ α
  | .ok (a, s') => .ok a s'
  | .error e => .error e s

variable {sys}

theorem errorIf_bind {os : Filepath.OS} {α : Type} (c : Prop) [Decidable c] (e : StorageErr)
    (k : Unit → StorageCall os α) (s : Storage os) :
    (errorIf c e >>= k) s = if c then .error e s else k () s := by
  rw [errorIf]
  split
  · rfl
  · rfl

theorem get_bind {os : Filepath.OS} {α : Type} (k : Storage os → StorageCall os α)
    (s : Storage os) :
    (get >>= k) s = k s s := rfl

theorem registerCall_eq (s : Storage sys.os) (id name path : Str)
    (abs : Option (Filepath.Abs sys.os)) (stat : Stat) (now : Time) :
    registerCall sys id name path abs stat now s =
      settled s (registerExisting sys s id name path abs stat now) := by
  rw [registerCall.eq_def, registerExisting.eq_def, errorIf_bind, get_bind, errorIf_bind]
  split
  · rfl
  split
  · rfl
  cases abs with
  | none => rfl
  | some abs =>
    simp only
    rw [get_bind, errorIf_bind]
    split
    · rfl
    cases stat with
    | missing => rfl
    | failed => rfl
    | directory => rfl
    | file size => rfl

theorem assignCall_eq (s : Storage sys.os) (clientID imageID : Str) (now : Time) :
    assignCall sys clientID imageID now s =
      settled s (assignClient sys s clientID imageID now) := by
  rw [assignCall, assignClient.eq_def, errorIf_bind, errorIf_bind, get_bind]
  split
  · rfl
  split
  · rfl
  split
  · rename_i h
    simp only [h]
    rfl
  rename_i img h
  simp only [h]
  rw [errorIf_bind, get_bind, errorIf_bind, get_bind, get_bind, errorIf_bind]
  split
  · rfl
  split
  · rfl
  split
  · rfl
  · rfl

theorem releaseCall_eq {os : Filepath.OS} (s : Storage os) (clientID : Str) :
    releaseCall clientID s = settled s ((releaseAssignment s clientID).map fun s' => ((), s')) := by
  rw [releaseCall, releaseAssignment, get_bind, errorIf_bind]
  split
  · rfl
  · rfl

theorem drop_settled {os : Filepath.OS} {α : Type} {call : StorageCall os α} {s : Storage os}
    {r : Except StorageErr (α × Storage os)} (h : call s = settled s r) :
    (call >>= fun _ => (pure () : StorageCall os Unit)) s =
      settled s ((r.map (·.2)).map fun s' => ((), s')) := by
  show EStateM.bind call (fun _ => pure ()) s = _
  rw [EStateM.bind, h]
  cases r with
  | error e => rfl
  | ok r => rfl

theorem call_eq (s : Storage sys.os) (op : StorageOp sys.os) :
    op.call sys s = settled s ((op.exec sys s).map fun s' => ((), s')) := by
  cases op with
  | register id name path abs stat now =>
    exact drop_settled (registerCall_eq s id name path abs stat now)
  | assign c i now => exact drop_settled (assignCall_eq s c i now)
  | release c => exact releaseCall_eq s c

theorem callStep_eq : callStep sys = storageStep sys := by
  funext s op
  rw [callStep, storageStep, call_eq]
  cases op.exec sys s with
  | error e => rfl
  | ok s' => rfl

/-- A call that returns an error has written nothing. -/
theorem call_error {s s' : Storage sys.os} {op : StorageOp sys.os} {e : StorageErr}
    (h : op.call sys s = .error e s') : s' = s := by
  rw [call_eq] at h
  cases hexec : op.exec sys s with
  | error e' =>
    rw [hexec] at h
    exact (EStateM.Result.error.inj h).2.symm
  | ok s'' =>
    rw [hexec] at h
    cases h

end Calls

/-! ## What the maps keep -/

section Books

variable (sys : Filepath.Sys)

/-- A clean path that begins with a spelling of the root and goes on, if it does, with a
separator.  The case of letters is not told apart, as on the volumes of Windows. -/
def Contained (root : Filepath.Abs sys.os) (path : Str) : Prop :=
  ∃ (p : Filepath.Abs sys.os) (dir rest : Str), path = p.text ∧ p.text = dir ++ rest ∧
    dir.map sys.toLower = root.text.map sys.toLower ∧
    ∀ c ∈ rest.head?, sys.os.isSep c = true

/-- Everything an assignment asks for, apart from the client having none. -/
def ValidAssign (s : Storage sys.os) (clientID imageID : Str) : Prop :=
  clientID ≠ [] ∧ imageID ≠ [] ∧
    (∃ img, s.images[imageID]? = some img ∧ img.readOnly = true) ∧
    isContained sys s.root.text (overlayPath sys s.root clientID) = true

structure Booked (root : Filepath.Abs sys.os) (s : Storage sys.os) : Prop where
  sameRoot : s.root = root
  assignment : ∀ {c : Str} {a : ClientAssignment}, s.assignments[c]? = some a →
    a.clientID = c ∧ ∃ img, s.images[a.imageID]? = some img ∧ img.readOnly = true
  image : ∀ {i : Str} {img : BaseImage}, s.images[i]? = some img →
    img.id = i ∧ Contained sys root img.path

variable {sys}

theorem isContained_text {root p : Filepath.Abs sys.os}
    (h : isContained sys root.text p.text = true) : Contained sys root p.text := by
  rw [isContained, Bool.and_eq_true, List.isPrefixOf_iff_prefix] at h
  obtain ⟨⟨tail, htail⟩, hnext⟩ := h
  rw [← htail, List.drop_left] at hnext
  obtain ⟨dir, rest, htext, hdir, hrest⟩ := List.map_eq_append_iff.mp htail.symm
  refine ⟨p, dir, rest, rfl, htext, hdir, ?_⟩
  intro c hc
  obtain ⟨rest', rfl⟩ := List.head?_eq_some_iff.mp hc
  rw [← hrest, List.map_cons] at hnext
  rw [← sys.isSep_toLower, beq_iff_eq.mp hnext]
  exact sys.os.isSep_sep

theorem registerExisting_image {s s' : Storage sys.os} {id name path : Str}
    {abs : Option (Filepath.Abs sys.os)} {stat : Stat} {now : Time} {img : BaseImage}
    (h : registerExisting sys s id name path abs stat now = .ok (img, s')) :
    s.images[id]? = none ∧ img.id = id ∧ Contained sys s.root img.path := by
  rw [registerExisting.eq_def] at h
  split at h
  · cases h
  split at h
  · cases h
  rename_i hnew
  split at h
  · cases h
  split at h
  · cases h
  rename_i hcontained
  split at h
  · cases h
  · cases h
  · cases h
  · injection h with h
    rw [← (Prod.mk.inj h).1]
    refine ⟨not_not.mp hnew, rfl, isContained_text ?_⟩
    simpa using hcontained

/-- What comes after a check is reached exactly if the check passes. -/
theorem exists_ok_guard {ε α : Type} {p : Prop} [Decidable p] {e : ε} {a : Except ε α} :
    (∃ r, (if p then .error e else a) = .ok r) ↔ ¬ p ∧ ∃ r, a = .ok r := by
  by_cases hp : p <;> simp [hp]

/-- An assignment is made exactly if it is valid and the client has none. -/
theorem assignClient_iff (s : Storage sys.os) (c i : Str) (now : Time) :
    (∃ r, assignClient sys s c i now = .ok r) ↔
      ValidAssign sys s c i ∧ s.assignments[c]? = none := by
  rw [assignClient.eq_def, ValidAssign, exists_ok_guard, exists_ok_guard]
  cases himg : s.images[i]? with
  | none => simp
  | some img =>
    dsimp only
    rw [exists_ok_guard, exists_ok_guard, exists_ok_guard]
    simp only [Bool.not_eq_eq_eq_not, Bool.not_true, Bool.not_eq_false, ne_eq, Decidable.not_not,
      Except.ok.injEq, exists_eq', and_true, Option.some.injEq, exists_eq_left']
    tauto

theorem assignClient_assignment {s s' : Storage sys.os} {c i : Str} {now : Time}
    {a : ClientAssignment} (h : assignClient sys s c i now = .ok (a, s')) :
    a.clientID = c ∧ a.imageID = i := by
  rw [assignClient.eq_def] at h
  split at h
  · cases h
  split at h
  · cases h
  split at h
  · cases h
  split at h
  · cases h
  split at h
  · cases h
  split at h
  · cases h
  · injection h with h
    rw [← (Prod.mk.inj h).1]
    exact ⟨rfl, rfl⟩

theorem booked_new (root : Filepath.Abs sys.os) : Booked sys root (newStorage root) where
  sameRoot := rfl
  assignment := by
    intro c a ha
    cases ha
  image := by
    intro i img himg
    cases himg

theorem Booked.register {root : Filepath.Abs sys.os} {s : Storage sys.os} (h : Booked sys root s)
    {id : Str} {img : BaseImage} (hnew : s.images[id]? = none) (hid : img.id = id)
    (hpath : Contained sys root img.path) :
    Booked sys root { s with images := s.images.insert id img } where
  sameRoot := h.sameRoot
  assignment := by
    intro c a ha
    obtain ⟨hc, old, hold, hread⟩ := h.assignment ha
    refine ⟨hc, old, ?_, hread⟩
    -- the image of an assignment was registered before, so it is not the new one
    have hne : a.imageID ≠ id := by
      rintro rfl
      rw [hnew] at hold
      cases hold
    exact (getElem?_insert_of_ne s.images hne img).trans hold
  image := by
    intro j img' himg
    rcases getElem?_insert_eq_some himg with ⟨rfl, rfl⟩ | ⟨-, hold⟩
    · exact ⟨hid, hpath⟩
    · exact h.image hold

theorem Booked.assign {root : Filepath.Abs sys.os} {s : Storage sys.os} (h : Booked sys root s)
    {c i : Str} {a : ClientAssignment} (hvalid : ValidAssign sys s c i) (hc : a.clientID = c)
    (hi : a.imageID = i) :
    Booked sys root { s with assignments := s.assignments.insert c a } where
  sameRoot := h.sameRoot
  assignment := by
    intro d b hb
    rcases getElem?_insert_eq_some hb with ⟨rfl, rfl⟩ | ⟨-, hold⟩
    · exact ⟨hc, hi ▸ hvalid.2.2.1⟩
    · exact h.assignment hold
  image := h.image

theorem Booked.release {root : Filepath.Abs sys.os} {s : Storage sys.os} (h : Booked sys root s)
    (c : Str) : Booked sys root { s with assignments := s.assignments.erase c } where
  sameRoot := h.sameRoot
  assignment := by
    intro d b hb
    have hd : (s.assignments.erase c)[d]? ≠ none := Option.ne_none_iff_exists'.mpr ⟨b, hb⟩
    rw [getElem?_erase_of_ne_none hd] at hb
    exact h.assignment hb
  image := h.image

theorem Booked.step {root : Filepath.Abs sys.os} {s : Storage sys.os} (h : Booked sys root s)
    (op : StorageOp sys.os) : Booked sys root (storageStep sys s op) := by
  cases op with
  | register id name path abs stat now =>
    rw [storageStep, StorageOp.exec]
    cases hr : registerExisting sys s id name path abs stat now with
    | error e => exact h
    | ok r =>
      obtain ⟨hnew, hid, hpath⟩ := registerExisting_image hr
      obtain ⟨-, -, -, hs⟩ := registerExisting_ok hr
      show Booked sys root r.2
      rw [hs]
      exact h.register hnew hid (h.sameRoot ▸ hpath)
  | assign c i now =>
    rw [storageStep, StorageOp.exec]
    cases hr : assignClient sys s c i now with
    | error e => exact h
    | ok r =>
      obtain ⟨hc, hi⟩ := assignClient_assignment hr
      obtain ⟨-, -, hs⟩ := assignClient_ok hr
      show Booked sys root r.2
      rw [hs]
      exact h.assign ((assignClient_iff s c i now).mp ⟨r, hr⟩).1 hc hi
  | release c =>
    rw [storageStep, StorageOp.exec, releaseAssignment]
    by_cases hnone : s.assignments[c]? = none
    · rw [if_pos hnone]
      exact h
    · rw [if_neg hnone]
      exact h.release c

end Books

/-! ## Who has an assignment -/

section History

variable {sys : Filepath.Sys}

theorem assignments_register (s : Storage sys.os) (id name path : Str)
    (abs : Option (Filepath.Abs sys.os)) (stat : Stat) (now : Time) :
    (storageStep sys s (.register id name path abs stat now)).assignments = s.assignments := by
  rw [storageStep, StorageOp.exec]
  cases hr : registerExisting sys s id name path abs stat now with
  | error e => rfl
  | ok r =>
    obtain ⟨-, -, -, hs⟩ := registerExisting_ok hr
    show r.2.assignments = _
    rw [hs]

theorem assigned_assign_iff (s : Storage sys.os) (d i : Str) (now : Time) (c : Str) :
    (storageStep sys s (.assign d i now)).assignments[c]? ≠ none ↔
      (d = c ∧ ValidAssign sys s d i) ∨ s.assignments[c]? ≠ none := by
  rw [storageStep, StorageOp.exec]
  cases hr : assignClient sys s d i now with
  | error e =>
    have hnot : ¬ (ValidAssign sys s d i ∧ s.assignments[d]? = none) := by
      rw [← assignClient_iff s d i now, hr]
      rintro ⟨r, hr⟩
      cases hr
    refine (or_iff_right_of_imp ?_).symm
    rintro ⟨rfl, hvalid⟩ hnone
    exact hnot ⟨hvalid, hnone⟩
  | ok r =>
    obtain ⟨-, -, hs⟩ := assignClient_ok hr
    have hvalid := ((assignClient_iff s d i now).mp ⟨r, hr⟩).1
    show r.2.assignments[c]? ≠ none ↔ _
    rw [hs]
    by_cases hdc : d = c
    · subst hdc
      exact iff_of_true (by rw [Std.ExtTreeMap.getElem?_insert_self]; exact Option.some_ne_none _)
        (Or.inl ⟨rfl, hvalid⟩)
    · rw [getElem?_insert_of_ne _ (Ne.symm hdc), or_iff_right fun h => hdc h.1]

theorem assigned_release_iff (s : Storage sys.os) (d c : Str) :
    (storageStep sys s (.release d)).assignments[c]? ≠ none ↔
      s.assignments[c]? ≠ none ∧ d ≠ c := by
  rw [storageStep, StorageOp.exec, releaseAssignment]
  by_cases hnone : s.assignments[d]? = none
  · rw [if_pos hnone]
    refine (and_iff_left_of_imp ?_).symm
    rintro h rfl
    exact h hnone
  · rw [if_neg hnone]
    show (s.assignments.erase d)[c]? ≠ none ↔ _
    rw [Std.ExtTreeMap.getElem?_erase]
    by_cases hdc : d = c
    · simp [hdc]
    · simp [hdc]

/-- A step gives a client an assignment when it is a valid one for the client, and
takes it when it is its release. -/
theorem assigned_step_iff (s : Storage sys.os) (op : StorageOp sys.os) (c : Str) :
    (storageStep sys s op).assignments[c]? ≠ none ↔
      (∃ i now, op = .assign c i now ∧ ValidAssign sys s c i) ∨
        (s.assignments[c]? ≠ none ∧ ¬ op = .release c) := by
  cases op with
  | register id name path abs stat now => simp [assignments_register]
  | assign d i now =>
    rw [assigned_assign_iff]
    refine or_congr ⟨?_, ?_⟩ (by simp)
    · rintro ⟨rfl, hvalid⟩
      exact ⟨i, now, rfl, hvalid⟩
    · rintro ⟨j, t, hop, hvalid⟩
      obtain ⟨rfl, rfl, -⟩ := StorageOp.assign.inj hop
      exact ⟨rfl, hvalid⟩
  | release d =>
    rw [assigned_release_iff]
    simp

/-- The clients that have an assignment after a run. -/
theorem assigned_run_iff (root : Filepath.Abs sys.os) (ops : List (StorageOp sys.os)) (c : Str) :
    (run (storageStep sys) (newStorage root) ops).assignments[c]? ≠ none ↔
      ∃ xs op ys, ops = xs ++ op :: ys ∧
        (∃ i now, op = .assign c i now ∧
          ValidAssign sys (run (storageStep sys) (newStorage root) xs) c i) ∧
        ∀ op' ∈ ys, ¬ op' = .release c := by
  have hnew : ¬ (newStorage root).assignments[c]? ≠ none := fun h => h rfl
  exact run_iff_since (storageStep sys)
    (B := fun s : Storage sys.os => s.assignments[c]? ≠ none)
    (fun s op => assigned_step_iff s op c) hnew ops

/-- After every sequence of calls the maps are booked; the next assignment of a client
succeeds exactly if it is valid and every valid one before it has been released; and a
call that returns an error leaves both maps. -/
theorem storage_bookkeeping (sys : Filepath.Sys) (root : Filepath.Abs sys.os)
    (ops : List (StorageOp sys.os)) :
    Booked sys root (run (callStep sys) (newStorage root) ops) ∧
      (∀ c i now,
        (∃ a s', assignCall sys c i now (run (callStep sys) (newStorage root) ops) = .ok a s') ↔
          ValidAssign sys (run (callStep sys) (newStorage root) ops) c i ∧
            ∀ xs j t ys, ops = xs ++ .assign c j t :: ys →
              ValidAssign sys (run (callStep sys) (newStorage root) xs) c j → .release c ∈ ys) ∧
      ∀ (op : StorageOp sys.os) (e : StorageErr) (s' : Storage sys.os),
        op.call sys (run (callStep sys) (newStorage root) ops) = .error e s' →
        s'.images = (run (callStep sys) (newStorage root) ops).images ∧
          s'.assignments = (run (callStep sys) (newStorage root) ops).assignments := by
  rw [callStep_eq]
  refine ⟨?_, ?_, ?_⟩
  · exact inv_run (I := Booked sys root) (P := fun _ _ => True) (fun s op hs _ => hs.step op)
      (booked_new root) (along_of_forall _ _ fun _ _ => trivial)
  · intro c i now
    have hmade : (∃ a s', assignCall sys c i now (run (storageStep sys) (newStorage root) ops) =
        .ok a s') ↔ ∃ r, assignClient sys (run (storageStep sys) (newStorage root) ops) c i now =
        .ok r := by
      rw [assignCall_eq]
      cases assignClient sys (run (storageStep sys) (newStorage root) ops) c i now with
      | error e | ok r => simp [settled]
    rw [hmade, assignClient_iff, ← not_ne_iff, assigned_run_iff]
    refine and_congr_right fun _ => ?_
    constructor
    · intro hnone xs j t ys hsplit hvalid
      by_contra hkept
      exact hnone ⟨xs, _, ys, hsplit, ⟨j, t, rfl, hvalid⟩, fun op hop heq => hkept (heq ▸ hop)⟩
    · rintro hall ⟨xs, op, ys, hsplit, ⟨j, t, rfl, hvalid⟩, hkept⟩
      exact hkept _ (hall xs j t ys hsplit hvalid) rfl
  · intro op e s' h
    rw [call_error h]
    exact ⟨rfl, rfl⟩

end History

end Server
end MkyBoot
