import MkyBoot.Posix.Disk
import MkyBoot.Server.State

/-!
# Writing a file atomically

`atomicWriteFile` writes a temporary file in the directory of the file, flushes it and
renames it.  The server calls it for its configuration, its state and the administrator's
token, from goroutines that run at the same time, and the machine may lose power at any
moment.  A call is here a sequence of operations on the disk that can be interleaved with
those of other calls; every operation can fail, and a write can be cut short.

`read_mem_started` is what the order of the operations is for: whatever happens, each of the
files holds the whole of what some call was given for it.  `os.CreateTemp` draws its names
until one is free; here a name is never drawn twice.
-/

namespace MkyBoot
namespace Server

open Posix Machine

/-- The names in the directory: files of the server, and temporary files. -/
inductive Name (ι : Type) where
  | file (f : ι)
  | temp (n : ℕ)
  deriving DecidableEq

/-- The operation that a call of `atomicWriteFile` makes next, with the number of its
temporary file. -/
inductive Phase where
  | mkdirAll
  | createTemp
  | write (i : ℕ) (rest : List Char)
  | sync (i : ℕ)
  | close (i : ℕ)
  | chmod (i : ℕ)
  | restrict (i : ℕ)
  | rename (i : ℕ)
  /-- The deferred `os.Remove`. -/
  | remove (i : ℕ) (err : Option Fault)
  | returned (err : Option Fault)
  deriving DecidableEq

/-- How an operation ends, and how much of the rest a write takes. -/
structure Answer where
  ok : Bool
  taken : ℕ

structure Save (ι : Type) where
  path : ι
  data : List Char
  phase : Phase

section

variable {ι : Type} [DecidableEq ι]

/-- An operation of `atomicWriteFile`. -/
def Save.next (v : Save ι) (d : Disk (Name ι)) (a : Answer) : Disk (Name ι) × Phase :=
  match v.phase with
  | .mkdirAll => (d, if a.ok then .createTemp else .returned (some .mkdirAll))
  | .createTemp =>
    if a.ok then (d.create (.temp d.inodes.length), .write d.inodes.length v.data)
    else (d, .returned (some .createTemp))
  | .write i rest =>
    (d.write i (rest.take a.taken),
      if a.ok then if rest.drop a.taken = [] then .sync i else .write i (rest.drop a.taken)
      else .remove i (some .write))
  | .sync i => if a.ok then (d.fsync i, .close i) else (d, .remove i (some .sync))
  | .close i => (d, if a.ok then .chmod i else .remove i (some .close))
  | .chmod i => (d, if a.ok then .restrict i else .remove i (some .chmod))
  | .restrict i => (d, if a.ok then .rename i else .remove i (some .restrict))
  | .rename i =>
    if a.ok then (d.rename (.temp i) (.file v.path), .remove i none)
    else (d, .remove i (some .rename))
  | .remove i err => (if a.ok then d.remove (.temp i) else d, .returned err)
  | .returned err => (d, .returned err)

end

/-! ## Many calls -/

/-- The disk, and the calls that have been made, by goroutine. -/
structure Saves (κ ι : Type) where
  disk : Disk (Name ι)
  saves : κ → Option (Save ι)

inductive SaveEvent (κ ι : Type) where
  | start (k : κ) (f : ι) (data : List Char)
  | go (k : κ) (a : Answer)
  /-- The process ends. -/
  | kill
  | powerLoss (choice : ℕ) (garbage : ℕ → List Char)

def Saves.init (κ ι : Type) : Saves κ ι := ⟨⟨[], fun _ => none, []⟩, fun _ => none⟩

section

variable {κ ι : Type} [DecidableEq κ] [DecidableEq ι]

def Saves.step (s : Saves κ ι) : SaveEvent κ ι → Saves κ ι
  | .start k f data => { s with saves := Function.update s.saves k (some ⟨f, data, .mkdirAll⟩) }
  | .go k a =>
    match s.saves k with
    | none => s
    | some v =>
      { disk := (v.next s.disk a).1
        saves := Function.update s.saves k (some { v with phase := (v.next s.disk a).2 }) }
  | .kill => { s with saves := fun _ => none }
  | .powerLoss choice garbage =>
    { disk := s.disk.powerLoss choice garbage, saves := fun _ => none }

end

/-! ## The temporary file of a call -/

/-- The number of the temporary file, as long as the call may still use it. -/
def Phase.temp : Phase → Option ℕ
  | .mkdirAll | .createTemp | .returned _ => none
  | .write i _ | .sync i | .close i | .chmod i | .restrict i | .rename i | .remove i _ => some i

/-- The temporary file before the rename: its number, what has to be written still, and
whether it is flushed. -/
def Phase.pending : Phase → Option (ℕ × List Char × Bool)
  | .write i rest => some (i, rest, false)
  | .sync i => some (i, [], false)
  | .close i | .chmod i | .restrict i | .rename i => some (i, [], true)
  | .mkdirAll | .createTemp | .remove _ _ | .returned _ => none

theorem Phase.temp_of_pending {p : Phase} {i : ℕ} {rest : List Char} {b : Bool}
    (h : p.pending = some (i, rest, b)) : p.temp = some i := by
  cases p <;> simp_all [Phase.pending, Phase.temp]

section

variable {ι : Type}

/-- A file between its creation and the rename: its own name is the only one it has, and
it holds the data up to what has to be written still. -/
structure Drafted (d : Disk (Name ι)) (i : ℕ) (data rest : List Char) (flushed : Bool) : Prop where
  name : d.dir (.temp i) = some i
  apart : ∀ f, d.Apart (.file f) i
  inode : ∃ x, d.inodes[i]? = some x ∧ x.text ++ rest = data ∧ (flushed = true → x.flushed = true)

/-- What an operation on other files leaves of a file. -/
structure Spared (i : ℕ) (d d' : Disk (Name ι)) : Prop where
  name : d'.dir (.temp i) = d.dir (.temp i)
  inode : d'.inodes[i]? = d.inodes[i]?
  apart : ∀ f, d.Apart (.file f) i → d'.Apart (.file f) i

theorem Drafted.spared {d d' : Disk (Name ι)} {i : ℕ} {data rest : List Char} {b : Bool}
    (h : Drafted d i data rest b) (hs : Spared i d d') : Drafted d' i data rest b where
  name := hs.name.trans h.name
  apart f := hs.apart f (h.apart f)
  inode := by rw [hs.inode]; exact h.inode

/-- The disk between two operations: every file of the server is settled, and a temporary
name is that of its own file. -/
structure DiskInv (P : ι → List Char → Prop) (d : Disk (Name ι)) : Prop where
  settled : ∀ f, d.Settled (.file f) (P f)
  temps : ∀ dir n i, d.Possible dir → dir (.temp n) = some i → i = n ∧ n < d.inodes.length

theorem DiskInv.mono {P Q : ι → List Char → Prop} {d : Disk (Name ι)} (h : DiskInv P d)
    (himp : ∀ f t, P f t → Q f t) : DiskInv Q d :=
  ⟨fun f => (h.settled f).mono (himp f), h.temps⟩

/-- What one operation of a call does. -/
structure Advances (P : ι → List Char → Prop) (v : Save ι) (d d' : Disk (Name ι)) (p : Phase) :
    Prop where
  inv : DiskInv P d'
  grows : d.inodes.length ≤ d'.inodes.length
  draft : ∀ i rest b, p.pending = some (i, rest, b) → Drafted d' i v.data rest b
  temp : ∀ i, p.temp = some i → v.phase.temp = some i ∨ i = d.inodes.length
  bound : ∀ i, p.temp = some i → i < d'.inodes.length
  spares : ∀ i, i < d.inodes.length → v.phase.temp ≠ some i → Spared i d d'

/-! ## Operations on the disk -/

theorem Spared.refl (i : ℕ) (d : Disk (Name ι)) : Spared i d d := ⟨rfl, rfl, fun _ h => h⟩

theorem spared_write {d : Disk (Name ι)} {i j : ℕ} (hne : i ≠ j) (text : List Char) :
    Spared j d (d.write i text) :=
  ⟨rfl, Disk.inode_write_of_ne hne text, fun _ h => h⟩

theorem spared_fsync {d : Disk (Name ι)} {i j : ℕ} (hne : i ≠ j) : Spared j d (d.fsync i) :=
  ⟨rfl, Disk.inode_fsync_of_ne hne, fun _ h => h⟩

theorem DiskInv.write {P : ι → List Char → Prop} {d : Disk (Name ι)} (h : DiskInv P d) {i : ℕ}
    (hapart : ∀ f, d.Apart (.file f) i) (text : List Char) : DiskInv P (d.write i text) where
  settled f := (h.settled f).write (hapart f) text
  temps dir n j hdir hj := by
    show j = n ∧ n < (d.inodes.modify i _).length
    rw [List.length_modify]
    exact h.temps dir n j hdir hj

theorem DiskInv.fsync {P : ι → List Char → Prop} {d : Disk (Name ι)} (h : DiskInv P d) {i : ℕ}
    (hapart : ∀ f, d.Apart (.file f) i) : DiskInv P (d.fsync i) where
  settled f := (h.settled f).fsync (hapart f)
  temps dir n j hdir hj := by
    show j = n ∧ n < (d.inodes.modify i _).length
    rw [List.length_modify]
    exact h.temps dir n j hdir hj

theorem DiskInv.powerLoss {P : ι → List Char → Prop} {d : Disk (Name ι)} (h : DiskInv P d)
    (choice : ℕ) (garbage : ℕ → List Char) : DiskInv P (d.powerLoss choice garbage) where
  settled f := (h.settled f).powerLoss choice garbage
  temps dir n j hdir hj := by
    show j = n ∧ n < (d.inodes.mapIdx _).length
    rw [List.length_mapIdx]
    exact h.temps dir n j (Disk.possible_powerLoss hdir) hj

variable [DecidableEq ι]

theorem length_create (d : Disk (Name ι)) (f : Name ι) :
    (d.create f).inodes.length = d.inodes.length + 1 := List.length_append

theorem spared_create {d : Disk (Name ι)} {i : ℕ} (hi : i < d.inodes.length) :
    Spared i d (d.create (.temp d.inodes.length)) where
  name := by
    have hne : Name.temp i ≠ (.temp d.inodes.length : Name ι) := by
      intro h
      injection h with h
      omega
    exact Function.update_of_ne hne _ _
  inode := by
    obtain ⟨x, hx⟩ : ∃ x, d.inodes[i]? = some x := ⟨_, List.getElem?_eq_getElem hi⟩
    rw [hx]
    exact Disk.inode_create hx
  apart f h := h.update (by simp) _

theorem DiskInv.create {P : ι → List Char → Prop} {d : Disk (Name ι)} (h : DiskInv P d) :
    DiskInv P (d.create (.temp d.inodes.length)) where
  settled f := (h.settled f).create (by simp)
  temps dir n j hdir hj := by
    rw [length_create]
    obtain rfl | hdir := Disk.possible_relink.mp hdir
    · by_cases hn : n = d.inodes.length
      · rw [hn, Function.update_self] at hj
        have := Option.some.inj hj
        omega
      · rw [Function.update_of_ne (by simpa using hn)] at hj
        have := h.temps d.dir n j d.possible_dir hj
        omega
    · have := h.temps dir n j hdir hj
      omega

theorem spared_remove {d : Disk (Name ι)} {i j : ℕ} (hne : i ≠ j) :
    Spared j d (d.remove (.temp i)) where
  name := Function.update_of_ne (by simpa using hne.symm) _ _
  inode := rfl
  apart f h := h.update (by simp) _

theorem DiskInv.remove {P : ι → List Char → Prop} {d : Disk (Name ι)} (h : DiskInv P d) (i : ℕ) :
    DiskInv P (d.remove (.temp i)) where
  settled f := (h.settled f).remove (by simp)
  temps dir n j hdir hj := by
    obtain rfl | hdir := Disk.possible_relink.mp hdir
    · by_cases hn : n = i
      · rw [hn, Function.update_self] at hj
        cases hj
      · rw [Function.update_of_ne (by simpa using hn)] at hj
        exact h.temps d.dir n j d.possible_dir hj
    · exact h.temps dir n j hdir hj

theorem rename_eq {d : Disk (Name ι)} {i : ℕ} (h : d.dir (.temp i) = some i) (f : ι) :
    d.rename (.temp i) (.file f) = d.relink
      (Function.update (Function.update d.dir (.temp i) none) (.file f) (some i)) := by
  rw [Disk.rename, h]

theorem spared_rename {d : Disk (Name ι)} {i j : ℕ} (hname : d.dir (.temp i) = some i)
    (hne : i ≠ j) (f : ι) : Spared j d (d.rename (.temp i) (.file f)) := by
  rw [rename_eq hname]
  refine ⟨?_, rfl, ?_⟩
  · show Function.update (Function.update d.dir _ none) (.file f) (some i) (.temp j) = _
    rw [Function.update_of_ne (by simp), Function.update_of_ne (by simpa using hne.symm)]
  · refine fun g h => h.relink ?_
    by_cases hgf : g = f
    · rw [hgf, Function.update_self]
      exact fun heq => hne (Option.some.inj heq)
    · rw [Function.update_of_ne (by simpa using hgf), Function.update_of_ne (by simp)]
      exact h d.dir d.possible_dir

theorem DiskInv.rename {P : ι → List Char → Prop} {d : Disk (Name ι)} (h : DiskInv P d) {i : ℕ}
    {f : ι} {data : List Char} (hdraft : Drafted d i data [] true) (hP : P f data) :
    DiskInv P (d.rename (.temp i) (.file f)) where
  settled g := by
    by_cases hg : g = f
    · obtain ⟨x, hx, htext, hflushed⟩ := hdraft.inode
      rw [List.append_nil] at htext
      rw [hg]
      exact (h.settled f).rename hdraft.name hx (hflushed rfl) (htext ▸ hP)
    · exact (h.settled g).rename_other (by simp) (by simpa using hg)
  temps dir n j hdir hj := by
    rw [Disk.inodes_rename]
    rw [rename_eq hdraft.name] at hdir
    obtain rfl | hdir := Disk.possible_relink.mp hdir
    · by_cases hn : n = i
      · rw [Function.update_of_ne (by simp), hn, Function.update_self] at hj
        cases hj
      · rw [Function.update_of_ne (by simp), Function.update_of_ne (by simpa using hn)] at hj
        exact h.temps d.dir n j d.possible_dir hj
    · exact h.temps dir n j hdir hj

/-! ## A step of a call -/

/-- What holds of a call between its operations. -/
structure SaveInv (d : Disk (Name ι)) (v : Save ι) : Prop where
  draft : ∀ i rest b, v.phase.pending = some (i, rest, b) → Drafted d i v.data rest b
  bound : ∀ i, v.phase.temp = some i → i < d.inodes.length

omit [DecidableEq ι] in
/-- No file is made, and the temporary file is kept or given up. -/
theorem Advances.of_length {P : ι → List Char → Prop} {v : Save ι} {d d' : Disk (Name ι)}
    {p : Phase} (hv : SaveInv d v) (hinv : DiskInv P d')
    (hlen : d'.inodes.length = d.inodes.length) (htemp : p.temp = none ∨ p.temp = v.phase.temp)
    (hdraft : ∀ i rest b, p.pending = some (i, rest, b) → Drafted d' i v.data rest b)
    (hspares : ∀ i, v.phase.temp ≠ some i → Spared i d d') : Advances P v d d' p := by
  have htemp (i : ℕ) (h : p.temp = some i) : v.phase.temp = some i := by
    rcases htemp with hnone | heq
    · rw [hnone] at h
      cases h
    · exact heq ▸ h
  refine ⟨hinv, hlen.ge, hdraft, fun i h => Or.inl (htemp i h), ?_, fun i _ => hspares i⟩
  intro i h
  rw [hlen]
  exact hv.bound i (htemp i h)

omit [DecidableEq ι] in
theorem Advances.same {P : ι → List Char → Prop} {v : Save ι} {d : Disk (Name ι)} {p : Phase}
    (hd : DiskInv P d) (hv : SaveInv d v)
    (hdraft : p.pending = none ∨ p.pending = v.phase.pending)
    (htemp : p.temp = none ∨ p.temp = v.phase.temp) : Advances P v d d p := by
  refine .of_length hv hd rfl htemp ?_ fun i _ => Spared.refl i d
  intro i rest b h
  rcases hdraft with hnone | heq
  · rw [hnone] at h
    cases h
  · exact hv.draft i rest b (heq ▸ h)

theorem Advances.create {P : ι → List Char → Prop} {path : ι} {data : List Char}
    {d : Disk (Name ι)} (hd : DiskInv P d) :
    Advances P ⟨path, data, .createTemp⟩ d (d.create (.temp d.inodes.length))
      (.write d.inodes.length data) := by
  refine ⟨hd.create, by rw [length_create]; omega, ?_, ?_, ?_, fun i hi _ => spared_create hi⟩
  · intro i rest b hp
    obtain ⟨rfl, rfl, rfl⟩ : d.inodes.length = i ∧ data = rest ∧ false = b := by
      simpa [Phase.pending] using hp
    exact ⟨Function.update_self _ _ _, fun f => (hd.settled f).apart.update (by simp) _, _,
      d.inode_create_new _, List.nil_append _, by simp⟩
  · intro i hi
    exact Or.inr (Option.some.inj hi).symm
  · intro i hi
    rw [length_create, ← Option.some.inj hi]
    exact Nat.lt_succ_self _

omit [DecidableEq ι] in
/-- After a write the file needs what had to be written without the part taken. -/
theorem Advances.write {P : ι → List Char → Prop} {path : ι} {data rest : List Char} {i : ℕ}
    {d : Disk (Name ι)} (hd : DiskInv P d) (hv : SaveInv d ⟨path, data, .write i rest⟩)
    (taken : ℕ) {p : Phase} (htemp : p.temp = some i)
    (hp : ∀ j r b, p.pending = some (j, r, b) → j = i ∧ r = rest.drop taken ∧ b = false) :
    Advances P ⟨path, data, .write i rest⟩ d (d.write i (rest.take taken)) p := by
  have hdraft := hv.draft i rest false rfl
  refine .of_length hv (hd.write hdraft.apart _) (List.length_modify _ _ _) (Or.inr htemp) ?_ ?_
  · intro j r b hpend
    obtain ⟨rfl, rfl, rfl⟩ := hp j r b hpend
    obtain ⟨x, hx, htext, -⟩ := hdraft.inode
    refine ⟨hdraft.name, hdraft.apart, _, Disk.inode_write hx _, ?_, by simp⟩
    rw [List.append_assoc, List.take_append_drop, htext]
  · intro j hj
    exact spared_write (fun h => hj (congrArg some h)) _

omit [DecidableEq ι] in
theorem Advances.fsync {P : ι → List Char → Prop} {path : ι} {data : List Char} {i : ℕ}
    {d : Disk (Name ι)} (hd : DiskInv P d) (hv : SaveInv d ⟨path, data, .sync i⟩) :
    Advances P ⟨path, data, .sync i⟩ d (d.fsync i) (.close i) := by
  have hdraft := hv.draft i [] false rfl
  refine .of_length hv (hd.fsync hdraft.apart) (List.length_modify _ _ _) (Or.inr rfl) ?_ ?_
  · intro j r b hp
    obtain ⟨rfl, rfl, rfl⟩ : i = j ∧ [] = r ∧ true = b := by simpa [Phase.pending] using hp
    obtain ⟨x, hx, htext, -⟩ := hdraft.inode
    exact ⟨hdraft.name, hdraft.apart, _, Disk.inode_fsync hx, htext, fun _ => rfl⟩
  · intro j hj
    exact spared_fsync fun h => hj (congrArg some h)

theorem next_advances {P : ι → List Char → Prop} {v : Save ι} {d : Disk (Name ι)}
    (hd : DiskInv P d) (hv : SaveInv d v) {a : Answer}
    (hP : ∀ i, v.phase = .rename i → a.ok = true → P v.path v.data) :
    Advances P v d (v.next d a).1 (v.next d a).2 := by
  obtain ⟨path, data, phase⟩ := v
  obtain ⟨ok, taken⟩ := a
  cases phase with
  | mkdirAll => cases ok <;> exact .same hd hv (Or.inl rfl) (Or.inl rfl)
  | createTemp =>
    cases ok with
    | false => exact .same hd hv (Or.inl rfl) (Or.inl rfl)
    | true => exact .create hd
  | write i rest =>
    cases ok with
    | false =>
      show Advances P _ d (d.write i (rest.take taken)) (.remove i (some .write))
      exact .write hd hv taken rfl (by simp [Phase.pending])
    | true =>
      show Advances P _ d (d.write i (rest.take taken))
        (if rest.drop taken = [] then .sync i else .write i (rest.drop taken))
      by_cases hdone : rest.drop taken = []
      · rw [if_pos hdone]
        exact .write hd hv taken rfl (by simp_all [Phase.pending])
      · rw [if_neg hdone]
        exact .write hd hv taken rfl (by simp_all [Phase.pending])
  | sync i =>
    cases ok with
    | false => exact .same hd hv (Or.inl rfl) (Or.inr rfl)
    | true => exact .fsync hd hv
  | close i | chmod i | restrict i =>
    cases ok with
    | false => exact .same hd hv (Or.inl rfl) (Or.inr rfl)
    | true => exact .same hd hv (Or.inr rfl) (Or.inr rfl)
  | rename i =>
    cases ok with
    | false => exact .same hd hv (Or.inl rfl) (Or.inr rfl)
    | true =>
      show Advances P _ d (d.rename (.temp i) (.file path)) (.remove i none)
      have hdraft := hv.draft i [] true rfl
      refine .of_length hv (hd.rename hdraft (hP i rfl rfl)) (by rw [Disk.inodes_rename])
        (Or.inr rfl) (by simp [Phase.pending]) ?_
      intro j hj
      exact spared_rename hdraft.name (fun h => hj (congrArg some h)) path
  | remove i err =>
    cases ok with
    | false => exact .same hd hv (Or.inl rfl) (Or.inl rfl)
    | true =>
      show Advances P _ d (d.remove (.temp i)) (.returned err)
      refine .of_length hv (hd.remove i) rfl (Or.inl rfl) (by simp [Phase.pending]) ?_
      intro j hj
      exact spared_remove fun h => hj (congrArg some h)
  | returned err => exact .same hd hv (Or.inl rfl) (Or.inl rfl)

end

/-! ## Runs -/

section

variable {κ ι : Type}

/-- No two calls use one temporary file. -/
structure Saves.Inv (P : ι → List Char → Prop) (s : Saves κ ι) : Prop where
  disk : DiskInv P s.disk
  save : ∀ k v, s.saves k = some v → P v.path v.data ∧ SaveInv s.disk v
  distinct : ∀ k k' v v' i, s.saves k = some v → s.saves k' = some v' → v.phase.temp = some i →
    v'.phase.temp = some i → k = k'

theorem Saves.inv_init (P : ι → List Char → Prop) : (Saves.init κ ι).Inv P where
  disk :=
    { settled := by
        intro f dir i hdir hi
        rw [List.mem_singleton.mp hdir] at hi
        cases hi
      temps := by
        intro dir n i hdir hi
        rw [List.mem_singleton.mp hdir] at hi
        cases hi }
  save k v h := by cases h
  distinct k k' v v' i h := by cases h

theorem SaveInv.spared {d d' : Disk (Name ι)} {v : Save ι}
    (h : SaveInv d v) (hgrows : d.inodes.length ≤ d'.inodes.length)
    (hs : ∀ i, v.phase.temp = some i → Spared i d d') : SaveInv d' v where
  draft i rest b hp := (h.draft i rest b hp).spared (hs i (Phase.temp_of_pending hp))
  bound i hi := Nat.lt_of_lt_of_le (h.bound i hi) hgrows

variable [DecidableEq κ] [DecidableEq ι]

omit [DecidableEq ι] in
theorem update_saves {saves : κ → Option (Save ι)} {k j : κ} {v w : Save ι}
    (h : Function.update saves k (some w) j = some v) :
    (j = k ∧ v = w) ∨ (j ≠ k ∧ saves j = some v) := by
  by_cases hj : j = k
  · rw [hj, Function.update_self] at h
    exact Or.inl ⟨hj, (Option.some.inj h).symm⟩
  · rw [Function.update_of_ne hj] at h
    exact Or.inr ⟨hj, h⟩

theorem Saves.Inv.start {P : ι → List Char → Prop} {s : Saves κ ι} (h : s.Inv P) {f : ι}
    {data : List Char} (hP : P f data) (k : κ) : (s.step (.start k f data)).Inv P := by
  refine ⟨h.disk, ?_, ?_⟩
  · intro j v hv
    rcases update_saves hv with ⟨-, rfl⟩ | ⟨-, hv⟩
    · exact ⟨hP, fun i rest b hp => (by cases hp), fun i hi => (by cases hi)⟩
    · exact h.save j v hv
  · -- a call that has just started has no temporary file
    intro j j' v v' i hv hv' hi hi'
    rcases update_saves hv with ⟨-, rfl⟩ | ⟨-, hv⟩
    · cases hi
    · rcases update_saves hv' with ⟨-, rfl⟩ | ⟨-, hv'⟩
      · cases hi'
      · exact h.distinct j j' v v' i hv hv' hi hi'

theorem Saves.Inv.go {P : ι → List Char → Prop} {s : Saves κ ι} (h : s.Inv P) {k : κ} {v : Save ι}
    (hv : s.saves k = some v) (a : Answer) :
    Saves.Inv P ⟨(v.next s.disk a).1,
      Function.update s.saves k (some { v with phase := (v.next s.disk a).2 })⟩ := by
  obtain ⟨hP, hsave⟩ := h.save k v hv
  have hadv := next_advances h.disk hsave (a := a) fun _ _ _ => hP
  generalize (v.next s.disk a).1 = d' at hadv
  generalize (v.next s.disk a).2 = p at hadv
  -- the temporary file of another call is none that this call has used or makes now
  have hother (j : κ) (w : Save ι) (hj : j ≠ k) (hw : s.saves j = some w) (i : ℕ)
      (hi : w.phase.temp = some i) : v.phase.temp ≠ some i ∧ i < s.disk.inodes.length :=
    ⟨fun hvi => hj (h.distinct j k w v i hw hv hi hvi), (h.save j w hw).2.bound i hi⟩
  have hfresh (j : κ) (w : Save ι) (i : ℕ) (hj : j ≠ k) (hw : s.saves j = some w)
      (hi : w.phase.temp = some i) : p.temp ≠ some i := by
    intro hp
    obtain ⟨hne, hlt⟩ := hother j w hj hw i hi
    rcases hadv.temp i hp with hv | hnew
    · exact hne hv
    · omega
  refine ⟨hadv.inv, ?_, ?_⟩
  · intro j w hw
    rcases update_saves hw with ⟨-, rfl⟩ | ⟨hj, hw⟩
    · exact ⟨hP, hadv.draft, hadv.bound⟩
    · refine ⟨(h.save j w hw).1, (h.save j w hw).2.spared hadv.grows fun i hi => ?_⟩
      obtain ⟨hne, hlt⟩ := hother j w hj hw i hi
      exact hadv.spares i hlt hne
  · intro j j' w w' i hw hw' hi hi'
    rcases update_saves hw with ⟨hj, rfl⟩ | ⟨hj, hw⟩
    · rcases update_saves hw' with ⟨hj', rfl⟩ | ⟨hj', hw'⟩
      · rw [hj, hj']
      · exact absurd hi (hfresh j' w' i hj' hw' hi')
    · rcases update_saves hw' with ⟨hj', rfl⟩ | ⟨hj', hw'⟩
      · exact absurd hi' (hfresh j w i hj hw hi)
      · exact h.distinct j j' w w' i hw hw' hi hi'

theorem Saves.Inv.step {P : ι → List Char → Prop} {s : Saves κ ι} (h : s.Inv P)
    (e : SaveEvent κ ι) (hP : ∀ k f data, e = .start k f data → P f data) : (s.step e).Inv P := by
  cases e with
  | start k f data => exact h.start (hP k f data rfl) k
  | go k a =>
    cases hv : s.saves k with
    | none =>
      have hsame : s.step (.go k a) = s := by rw [Saves.step, hv]
      rwa [hsame]
    | some v =>
      have hnext : s.step (.go k a) = ⟨(v.next s.disk a).1,
          Function.update s.saves k (some { v with phase := (v.next s.disk a).2 })⟩ := by
        rw [Saves.step, hv]
      rw [hnext]
      exact h.go hv a
  | kill =>
    exact ⟨h.disk, fun k v hv => (by cases hv), fun k k' v v' i hv => (by cases hv)⟩
  | powerLoss choice garbage =>
    exact ⟨h.disk.powerLoss choice garbage, fun k v hv => (by cases hv),
      fun k k' v v' i hv => (by cases hv)⟩

theorem inv_started (events : List (SaveEvent κ ι)) :
    (run Saves.step (Saves.init κ ι) events).Inv
      fun f data => ∃ k, SaveEvent.start k f data ∈ events := by
  refine inv_run (P := fun _ e => e ∈ events) ?_ (Saves.inv_init _)
    (along_of_forall _ _ fun e he => he)
  intro s e hs he
  exact hs.step e fun k f data heq => ⟨k, heq ▸ he⟩

/-- In any run of any number of calls, one operation of one of them at a time, with any
operation failing, with processes that end and power that is lost at any moment, a file of
the server holds nothing but the whole data of a call for this file. -/
theorem read_mem_started (events : List (SaveEvent κ ι)) (f : ι) (text : List Char)
    (hread : (run Saves.step (Saves.init κ ι) events).disk.read (.file f) = some text) :
    ∃ k, SaveEvent.start k f text ∈ events :=
  ((inv_started events).disk.settled f).read hread

end

/-- A call that is written in two pieces, and power that is lost before its last operation. -/
def savedThenLost : List (SaveEvent Unit Unit) :=
  .start () () ['o', 'k'] ::
    ([0, 0, 1, 1, 0, 0, 0, 0, 0].map fun taken => .go () ⟨true, taken⟩) ++
    [.powerLoss 0 fun _ => ['?']]

theorem read_savedThenLost :
    (run Saves.step (Saves.init Unit Unit) savedThenLost).disk.read (.file ()) = some ['o', 'k'] ∧
      ∃ k, SaveEvent.start k () ['o', 'k'] ∈ savedThenLost :=
  ⟨rfl, read_mem_started savedThenLost () ['o', 'k'] rfl⟩

end Server
end MkyBoot
