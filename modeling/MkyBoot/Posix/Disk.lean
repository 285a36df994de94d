import MkyBoot.Machine.Run

/-!
# A disk that loses power

A program sees what it has written at once; the medium gets it later.  A file is flushed
when `fsync` has returned after the last write to it, and only then its text is safe.  A
change of a directory may reach the medium at any later time, but changes reach it in
their order, so a loss of power leaves one of the directories there were.

`Settled` says of a name that every one of these directories links it to a flushed file
with a text of some kind.  It is what a loss of power cannot take away, and a program keeps
it by linking the name to flushed files only and by writing only to files that the name
has never been linked to.
-/

namespace MkyBoot
namespace Posix

/-- The text of a file, and whether all of it has reached the medium. -/
structure Inode where
  text : List Char
  flushed : Bool
  deriving DecidableEq

/-- The names of a directory, each with the number of its file. -/
abbrev Directory (ν : Type) := ν → Option ℕ

/-- The files by their numbers, the directory, and the earlier ones that the medium may
still hold. -/
structure Disk (ν : Type) where
  inodes : List Inode
  dir : Directory ν
  held : List (Directory ν)

namespace Disk

variable {ν : Type}

def read (d : Disk ν) (f : ν) : Option (List Char) :=
  (d.dir f).bind fun i => (d.inodes[i]?).map Inode.text

def relink (d : Disk ν) (dir : Directory ν) : Disk ν :=
  { d with dir := dir, held := d.dir :: d.held }

/-- `open` with `O_CREAT` and `O_EXCL` -/
def create [DecidableEq ν] (d : Disk ν) (f : ν) : Disk ν :=
  let d' : Disk ν := { d with inodes := d.inodes ++ [⟨[], false⟩] }
  d'.relink (Function.update d.dir f (some d.inodes.length))

def write (d : Disk ν) (i : ℕ) (text : List Char) : Disk ν :=
  { d with inodes := d.inodes.modify i fun x => ⟨x.text ++ text, false⟩ }

def fsync (d : Disk ν) (i : ℕ) : Disk ν :=
  { d with inodes := d.inodes.modify i fun x => { x with flushed := true } }

def rename [DecidableEq ν] (d : Disk ν) (src dst : ν) : Disk ν :=
  match d.dir src with
  | none => d
  | some i => d.relink (Function.update (Function.update d.dir src none) dst (some i))

def remove [DecidableEq ν] (d : Disk ν) (f : ν) : Disk ν :=
  d.relink (Function.update d.dir f none)

/-- The medium holds one of the directories, and any text for a file that is not flushed. -/
def powerLoss (d : Disk ν) (choice : ℕ) (garbage : ℕ → List Char) : Disk ν where
  inodes := d.inodes.mapIdx fun i x => if x.flushed then x else ⟨garbage i, true⟩
  dir := ((d.dir :: d.held)[choice]?).getD d.dir
  held := []

/-- A directory that the medium may hold. -/
def Possible (d : Disk ν) (dir : Directory ν) : Prop := dir ∈ d.dir :: d.held

/-- Whatever directory the medium holds, the name is linked to a flushed file with such a
text, or to none. -/
def Settled (d : Disk ν) (f : ν) (P : List Char → Prop) : Prop :=
  ∀ dir i, d.Possible dir → dir f = some i →
    ∃ x, d.inodes[i]? = some x ∧ x.flushed = true ∧ P x.text

/-- The name is in no directory a link to this file. -/
def Apart (d : Disk ν) (f : ν) (i : ℕ) : Prop := ∀ dir, d.Possible dir → dir f ≠ some i

/-! ## Directories -/

theorem possible_dir (d : Disk ν) : d.Possible d.dir := List.mem_cons_self

theorem possible_relink {d : Disk ν} {dir e : Directory ν} :
    (d.relink dir).Possible e ↔ e = dir ∨ d.Possible e := List.mem_cons

theorem possible_choice (d : Disk ν) (choice : ℕ) (garbage : ℕ → List Char) :
    d.Possible (d.powerLoss choice garbage).dir := by
  show (d.dir :: d.held)[choice]?.getD d.dir ∈ d.dir :: d.held
  cases h : (d.dir :: d.held)[choice]? with
  | none => exact List.mem_cons_self
  | some dir => exact List.mem_of_getElem? h

theorem possible_powerLoss {d : Disk ν} {choice : ℕ} {garbage : ℕ → List Char} {e : Directory ν}
    (h : (d.powerLoss choice garbage).Possible e) : d.Possible e := by
  rw [List.mem_singleton.mp h]
  exact d.possible_choice choice garbage

theorem Apart.relink {d : Disk ν} {f : ν} {i : ℕ} {e : Directory ν} (h : d.Apart f i)
    (he : e f ≠ some i) : (d.relink e).Apart f i := by
  intro dir hdir
  obtain rfl | hdir := possible_relink.mp hdir
  · exact he
  · exact h dir hdir

theorem Apart.update [DecidableEq ν] {d : Disk ν} {f g : ν} {i : ℕ} (h : d.Apart f i)
    (hne : f ≠ g) (x : Option ℕ) : (d.relink (Function.update d.dir g x)).Apart f i := by
  refine h.relink ?_
  rw [Function.update_of_ne hne]
  exact h d.dir d.possible_dir

/-! ## Files -/

@[simp] theorem inodes_relink (d : Disk ν) (dir : Directory ν) :
    (d.relink dir).inodes = d.inodes := rfl

@[simp] theorem inodes_rename [DecidableEq ν] (d : Disk ν) (src dst : ν) :
    (d.rename src dst).inodes = d.inodes := by
  rw [rename]
  cases d.dir src <;> rfl

theorem inode_create [DecidableEq ν] {d : Disk ν} {f : ν} {i : ℕ} {x : Inode}
    (h : d.inodes[i]? = some x) : (d.create f).inodes[i]? = some x := by
  obtain ⟨hi, -⟩ := List.getElem?_eq_some_iff.mp h
  show (d.inodes ++ _)[i]? = _
  rw [List.getElem?_append_left hi, h]

theorem inode_create_new [DecidableEq ν] (d : Disk ν) (f : ν) :
    (d.create f).inodes[d.inodes.length]? = some ⟨[], false⟩ := by
  show (d.inodes ++ _)[d.inodes.length]? = _
  rw [List.getElem?_append_right (Nat.le_refl _), Nat.sub_self]
  rfl

theorem inode_write_of_ne {d : Disk ν} {i j : ℕ} (h : i ≠ j) (text : List Char) :
    (d.write i text).inodes[j]? = d.inodes[j]? := List.getElem?_modify_ne _ _ h

theorem inode_write {d : Disk ν} {i : ℕ} {x : Inode} (h : d.inodes[i]? = some x)
    (text : List Char) : (d.write i text).inodes[i]? = some ⟨x.text ++ text, false⟩ := by
  show (d.inodes.modify i _)[i]? = _
  rw [List.getElem?_modify_eq, h]
  rfl

theorem inode_fsync_of_ne {d : Disk ν} {i j : ℕ} (h : i ≠ j) :
    (d.fsync i).inodes[j]? = d.inodes[j]? := List.getElem?_modify_ne _ _ h

theorem inode_fsync {d : Disk ν} {i : ℕ} {x : Inode} (h : d.inodes[i]? = some x) :
    (d.fsync i).inodes[i]? = some { x with flushed := true } := by
  show (d.inodes.modify i _)[i]? = _
  rw [List.getElem?_modify_eq, h]
  rfl

theorem inode_powerLoss {d : Disk ν} {i : ℕ} {x : Inode} (h : d.inodes[i]? = some x)
    (hflushed : x.flushed = true) (choice : ℕ) (garbage : ℕ → List Char) :
    (d.powerLoss choice garbage).inodes[i]? = some x := by
  show (d.inodes.mapIdx _)[i]? = _
  rw [List.getElem?_mapIdx, h, Option.map_some, if_pos hflushed]

/-! ## Reading -/

/-- A file is read as before if its name links to it still and its text is the same. -/
theorem read_congr {d d' : Disk ν} {f : ν} (hdir : d'.dir f = d.dir f)
    (htext : ∀ i, d.dir f = some i → d'.inodes[i]? = d.inodes[i]?) : d'.read f = d.read f := by
  rw [read, read, hdir]
  cases hi : d.dir f with
  | none => rfl
  | some i => rw [Option.bind_some, Option.bind_some, htext i hi]

theorem read_write {d : Disk ν} {f : ν} {i : ℕ} (hapart : d.Apart f i) (text : List Char) :
    (d.write i text).read f = d.read f := by
  refine read_congr rfl fun j hj => ?_
  have hne : i ≠ j := fun heq => hapart d.dir d.possible_dir (heq ▸ hj)
  exact inode_write_of_ne hne text

theorem read_fsync {d : Disk ν} {f : ν} {i : ℕ} (hapart : d.Apart f i) :
    (d.fsync i).read f = d.read f := by
  refine read_congr rfl fun j hj => ?_
  have hne : i ≠ j := fun heq => hapart d.dir d.possible_dir (heq ▸ hj)
  exact inode_fsync_of_ne hne

theorem read_remove [DecidableEq ν] {d : Disk ν} {f g : ν} (hne : f ≠ g) :
    (d.remove g).read f = d.read f :=
  read_congr (Function.update_of_ne hne _ _) fun _ _ => rfl

theorem read_rename [DecidableEq ν] {d : Disk ν} {src dst : ν} {i : ℕ} {x : Inode}
    (hsrc : d.dir src = some i) (hx : d.inodes[i]? = some x) :
    (d.rename src dst).read dst = some x.text := by
  rw [rename, hsrc, read]
  show Option.bind (Function.update (Function.update d.dir src none) dst (some i) dst) _ = _
  rw [Function.update_self, Option.bind_some, inodes_relink, hx]
  rfl

/-! ## What is settled -/

namespace Settled

variable {d : Disk ν} {f : ν} {P Q : List Char → Prop}

theorem mono (h : d.Settled f P) (himp : ∀ t, P t → Q t) : d.Settled f Q := by
  intro dir i hdir hi
  obtain ⟨x, hx, hflushed, hP⟩ := h dir i hdir hi
  exact ⟨x, hx, hflushed, himp x.text hP⟩

theorem read (h : d.Settled f P) {text : List Char} (hread : d.read f = some text) : P text := by
  obtain ⟨i, hi, htext⟩ := Option.bind_eq_some_iff.mp hread
  obtain ⟨x, hx, -, hP⟩ := h d.dir i d.possible_dir hi
  rw [hx] at htext
  exact Option.some.inj htext ▸ hP

/-- A file that does not exist yet is no link of the name. -/
theorem apart (h : d.Settled f P) : d.Apart f d.inodes.length := by
  intro dir hdir hi
  obtain ⟨x, hx, -⟩ := h dir _ hdir hi
  rw [List.getElem?_eq_none (Nat.le_refl _)] at hx
  cases hx

theorem read_create [DecidableEq ν] (h : d.Settled f P) {g : ν} (hne : f ≠ g) :
    (d.create g).read f = d.read f := by
  refine read_congr (Function.update_of_ne hne _ _) fun i hi => ?_
  obtain ⟨x, hx, -⟩ := h d.dir i d.possible_dir hi
  rw [hx]
  exact inode_create hx

/-- A loss of power leaves one of the texts, or no file. -/
theorem read_powerLoss (h : d.Settled f P) {choice : ℕ} {garbage : ℕ → List Char}
    {text : List Char} (hread : (d.powerLoss choice garbage).read f = some text) : P text := by
  obtain ⟨i, hi, htext⟩ := Option.bind_eq_some_iff.mp hread
  obtain ⟨x, hx, hflushed, hP⟩ := h _ i (d.possible_choice choice garbage) hi
  rw [inode_powerLoss hx hflushed] at htext
  exact Option.some.inj htext ▸ hP

/-- The last directory may have reached the medium. -/
theorem read_powerLoss_zero (h : d.Settled f P) (garbage : ℕ → List Char) :
    (d.powerLoss 0 garbage).read f = d.read f := by
  refine read_congr rfl fun i hi => ?_
  obtain ⟨x, hx, hflushed, -⟩ := h d.dir i d.possible_dir hi
  rw [inode_powerLoss hx hflushed, hx]

/-- The links of the name stay, and so do their files. -/
theorem of_links {d' : Disk ν} (h : d.Settled f P)
    (hdirs : ∀ dir', d'.Possible dir' → ∃ dir, d.Possible dir ∧ dir' f = dir f)
    (hfiles : ∀ dir i, d.Possible dir → dir f = some i → d'.inodes[i]? = d.inodes[i]?) :
    d'.Settled f P := by
  intro dir' i hdir' hi
  obtain ⟨dir, hdir, heq⟩ := hdirs dir' hdir'
  rw [heq] at hi
  rw [hfiles dir i hdir hi]
  exact h dir i hdir hi

theorem relink_of_eq {e : Directory ν} (h : d.Settled f P) (he : e f = d.dir f) :
    (d.relink e).Settled f P := by
  refine h.of_links ?_ fun _ _ _ _ => rfl
  intro dir' hdir'
  obtain rfl | hdir' := possible_relink.mp hdir'
  · exact ⟨d.dir, d.possible_dir, he⟩
  · exact ⟨dir', hdir', rfl⟩

theorem write (h : d.Settled f P) {i : ℕ} (hapart : d.Apart f i) (text : List Char) :
    (d.write i text).Settled f P := by
  refine h.of_links (fun dir hdir => ⟨dir, hdir, rfl⟩) ?_
  intro dir j hdir hj
  have hne : i ≠ j := fun heq => hapart dir hdir (heq ▸ hj)
  exact inode_write_of_ne hne text

theorem fsync (h : d.Settled f P) {i : ℕ} (hapart : d.Apart f i) : (d.fsync i).Settled f P := by
  refine h.of_links (fun dir hdir => ⟨dir, hdir, rfl⟩) ?_
  intro dir j hdir hj
  have hne : i ≠ j := fun heq => hapart dir hdir (heq ▸ hj)
  exact inode_fsync_of_ne hne

theorem powerLoss (h : d.Settled f P) (choice : ℕ) (garbage : ℕ → List Char) :
    (d.powerLoss choice garbage).Settled f P := by
  intro dir i hdir hi
  obtain ⟨x, hx, hflushed, hP⟩ := h dir i (possible_powerLoss hdir) hi
  exact ⟨x, inode_powerLoss hx hflushed choice garbage, hflushed, hP⟩

variable [DecidableEq ν]

theorem create (h : d.Settled f P) {g : ν} (hne : f ≠ g) : (d.create g).Settled f P := by
  intro dir i hdir hi
  have hold : ∃ dir, d.Possible dir ∧ dir f = some i := by
    obtain rfl | hdir := possible_relink.mp hdir
    · exact ⟨d.dir, d.possible_dir, by rwa [Function.update_of_ne hne] at hi⟩
    · exact ⟨dir, hdir, hi⟩
  obtain ⟨e, he, hei⟩ := hold
  obtain ⟨x, hx, hflushed, hP⟩ := h e i he hei
  exact ⟨x, inode_create hx, hflushed, hP⟩

theorem remove (h : d.Settled f P) {g : ν} (hne : f ≠ g) : (d.remove g).Settled f P :=
  h.relink_of_eq (Function.update_of_ne hne _ _)

theorem rename_other (h : d.Settled f P) {src dst : ν} (hsrc : f ≠ src) (hdst : f ≠ dst) :
    (d.rename src dst).Settled f P := by
  rw [Disk.rename]
  cases d.dir src with
  | none => exact h
  | some i =>
    refine h.relink_of_eq ?_
    rw [Function.update_of_ne hdst, Function.update_of_ne hsrc]

/-- The file that is renamed has to be flushed. -/
theorem rename (h : d.Settled f P) {src : ν} {i : ℕ} {x : Inode} (hsrc : d.dir src = some i)
    (hx : d.inodes[i]? = some x) (hflushed : x.flushed = true) (hP : P x.text) :
    (d.rename src f).Settled f P := by
  rw [Disk.rename, hsrc]
  intro dir j hdir hj
  obtain rfl | hdir := possible_relink.mp hdir
  · rw [Function.update_self] at hj
    obtain rfl := Option.some.inj hj
    exact ⟨x, hx, hflushed, hP⟩
  · exact h dir j hdir hj

end Settled

end Disk
end Posix
end MkyBoot
