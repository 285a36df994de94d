import MkyBoot.Text

/-!
# File trees and pathnames

A tree of directories and files without links, and the pathname resolution that
`open` and `remove` perform on it.  A place in the tree is the list of names
that leads to it from the root.  A pathname is text: it is cut at the slashes,
`.` and the empty component stand still, `..` goes up, and every other component
but the last has to be an existing directory.

The theorem later modules use is `lookup_remove_ne_iff`: removing a pathname
changes the one place the pathname resolves to, and only when that place holds a
file or an empty directory.
-/

namespace MkyBoot
namespace Posix

abbrev Name := List Char

/-- The names leading to a place from the root. -/
abbrev Path := List Name

inductive Node (α : Type) where
  | dir
  | file (content : α)
  deriving DecidableEq

/-- A finite tree.  The root is a directory and is not listed; the directory an
entry lies in is listed as a directory. -/
structure FileTree (α : Type) where
  nodes : AList (fun _ : Path => Node α)
  closed : ∀ p ∈ nodes.keys, p.dropLast = [] ∨ nodes.lookup p.dropLast = some .dir

namespace FileTree

variable {α : Type}

def lookup (t : FileTree α) (p : Path) : Option (Node α) := t.nodes.lookup p

def isDir (t : FileTree α) (p : Path) : Bool :=
  p.isEmpty || match t.lookup p with
    | some .dir => true
    | _ => false

/-- Some entry lies directly in `p`. -/
def occupied (t : FileTree α) (p : Path) : Bool :=
  t.nodes.keys.any (fun k => k ≠ [] ∧ k.dropLast = p)

/-- `remove` succeeds on files and on empty directories. -/
def removable (t : FileTree α) (p : Path) : Bool :=
  match t.lookup p with
  | some (.file _) => true
  | some .dir => !t.occupied p
  | none => false

/-! ## Resolution -/

def place (d : Path) (c : Name) : Path :=
  if c = [] ∨ c = ['.'] then d else if c = ['.', '.'] then d.dropLast else d ++ [c]

/-- One directory component. -/
def enter (t : FileTree α) (d : Path) (c : Name) : Option Path :=
  if t.isDir (place d c) then some (place d c) else none

def walk (t : FileTree α) (d : Path) (cs : List Name) : Option Path := cs.foldlM t.enter d

/-- The longest pathname, counting its terminating null. -/
def pathMax : ℕ := 4096

/-- The place an absolute pathname names.  The last component need not exist. -/
def resolve (t : FileTree α) (s : List Char) : Option Path :=
  if pathMax ≤ s.length then none
  else (t.walk [] (s.splitOn '/').dropLast).map (place · ((s.splitOn '/').getLast (by simp)))

/-- The content of the file a pathname names.  Opening a directory for reading
succeeds but reading from it does not, so a directory has no content. -/
def read (t : FileTree α) (s : List Char) : Option α :=
  match (t.resolve s).bind t.lookup with
  | some (.file c) => some c
  | _ => none

/-! ## Removal -/

/-- A removable place is no entry's directory, so the tree stays closed. -/
def erase (t : FileTree α) (p : Path) (h : t.removable p = true) : FileTree α where
  nodes := t.nodes.erase p
  closed := by
    intro q hq
    obtain ⟨hqp, hq⟩ := AList.mem_erase.mp (AList.mem_keys.mpr hq)
    have hq' := AList.mem_keys.mp hq
    rcases t.closed q hq' with hroot | hdir
    · exact Or.inl hroot
    · refine Or.inr ?_
      rw [AList.lookup_erase_ne ?_, hdir]
      intro hp
      by_cases hnil : q = []
      · subst hnil
        exact hqp hp
      · have hocc : t.occupied p = true := by
          rw [occupied, List.any_eq_true]
          exact ⟨q, hq', by simp [hnil, hp]⟩
        rw [hp] at hdir
        have hdir' : t.lookup p = some .dir := hdir
        rw [removable, hdir', hocc] at h
        exact Bool.false_ne_true h

/-- `remove`: a pathname that resolves to nothing removable changes nothing. -/
def remove (t : FileTree α) (s : List Char) : FileTree α :=
  match t.resolve s with
  | some p => if h : t.removable p = true then t.erase p h else t
  | none => t

theorem lookup_erase (t : FileTree α) (p : Path) (h : t.removable p = true) :
    (t.erase p h).lookup p = none := AList.lookup_erase p t.nodes

theorem lookup_erase_of_ne (t : FileTree α) {p q : Path} (h : t.removable p = true) (hq : q ≠ p) :
    (t.erase p h).lookup q = t.lookup q := AList.lookup_erase_ne hq

theorem lookup_ne_none_of_removable {t : FileTree α} {p : Path} (h : t.removable p = true) :
    t.lookup p ≠ none := by
  intro hp
  rw [removable, hp] at h
  exact Bool.false_ne_true h

/-- Removal changes the place its pathname resolves to, when that is removable,
and nothing else. -/
theorem lookup_remove_ne_iff (t : FileTree α) (s : List Char) (q : Path) :
    (t.remove s).lookup q ≠ t.lookup q ↔ t.resolve s = some q ∧ t.removable q = true := by
  unfold remove
  cases hs : t.resolve s with
  | none => simp
  | some p =>
    dsimp only
    rw [Option.some.injEq]
    by_cases hp : t.removable p = true
    · rw [dif_pos hp]
      by_cases hq : q = p
      · subst hq
        rw [lookup_erase]
        exact ⟨fun _ => ⟨rfl, hp⟩, fun _ => (lookup_ne_none_of_removable hp).symm⟩
      · rw [lookup_erase_of_ne t hp hq]
        exact ⟨fun h => absurd rfl h, fun h => absurd h.1.symm hq⟩
    · rw [dif_neg hp]
      refine ⟨fun h => absurd rfl h, fun h => ?_⟩
      obtain ⟨rfl, hq⟩ := h
      exact absurd hq hp

/-! ## Writing -/

/-- A file can be put at `p`: its directory exists and `p` is none itself. -/
def writable (t : FileTree α) (p : Path) : Bool := t.isDir p.dropLast && !t.isDir p

theorem isDir_iff {t : FileTree α} {p : Path} :
    t.isDir p = true ↔ p = [] ∨ t.lookup p = some .dir := by
  rw [isDir, Bool.or_eq_true, List.isEmpty_iff]
  constructor
  · intro h
    rcases h with h | h
    · exact Or.inl h
    · split at h
      · exact Or.inr (by assumption)
      · exact absurd h Bool.false_ne_true
  · intro h
    rcases h with h | h
    · exact Or.inl h
    · rw [h]
      exact Or.inr rfl

def put (t : FileTree α) (p : Path) (c : α) (h : t.writable p = true) : FileTree α where
  nodes := t.nodes.insert p (.file c)
  closed := by
    rw [writable, Bool.and_eq_true, Bool.not_eq_true'] at h
    have hdir : ∀ q, t.isDir q = true →
        q = [] ∨ (t.nodes.insert p (.file c)).lookup q = some .dir := by
      intro q hq
      have hqp : q ≠ p := fun e => by rw [e, h.2] at hq; exact Bool.false_ne_true hq
      rcases isDir_iff.mp hq with hq | hq
      · exact Or.inl hq
      · exact Or.inr (by rw [AList.lookup_insert_ne hqp]; exact hq)
    intro q hq
    rcases (AList.mem_insert t.nodes).mp (AList.mem_keys.mpr hq) with rfl | hq
    · exact hdir _ h.1
    · exact hdir _ (isDir_iff.mpr (t.closed q (AList.mem_keys.mp hq)))

/-- Create or replace the file a pathname names. -/
def write (t : FileTree α) (s : List Char) (c : α) : Option (FileTree α) :=
  (t.resolve s).bind fun p => if h : t.writable p = true then some (t.put p c h) else none

theorem lookup_put (t : FileTree α) {p : Path} {c : α} (h : t.writable p = true) :
    (t.put p c h).lookup p = some (.file c) := AList.lookup_insert t.nodes

theorem lookup_put_of_ne (t : FileTree α) {p q : Path} {c : α} (h : t.writable p = true)
    (hq : q ≠ p) : (t.put p c h).lookup q = t.lookup q := AList.lookup_insert_ne hq

theorem isDir_put (t : FileTree α) {p : Path} {c : α} (h : t.writable p = true) (q : Path) :
    (t.put p c h).isDir q = t.isDir q := by
  by_cases hq : q = p
  · subst hq
    have hnot : t.isDir q = false := by
      rw [writable, Bool.and_eq_true, Bool.not_eq_true'] at h
      exact h.2
    have hne : q.isEmpty = false := by
      rw [isDir, Bool.or_eq_false_iff] at hnot
      exact hnot.1
    rw [hnot, isDir, lookup_put, hne]
    rfl
  · rw [isDir, isDir, lookup_put_of_ne t h hq]

/-- Resolution looks at directories only. -/
theorem resolve_congr {t t' : FileTree α} (h : ∀ q, t'.isDir q = t.isDir q) (s : List Char) :
    t'.resolve s = t.resolve s := by
  have henter : t'.enter = t.enter := by
    funext d n
    rw [enter, enter, h]
  rw [resolve, resolve, walk, walk, henter]

theorem resolve_put (t : FileTree α) {p : Path} {c : α} (h : t.writable p = true) (s : List Char) :
    (t.put p c h).resolve s = t.resolve s := resolve_congr (isDir_put t h) s

/-- What was written is read back. -/
theorem read_write {t t' : FileTree α} {s : List Char} {c : α} (h : t.write s c = some t') :
    t'.read s = some c := by
  obtain ⟨p, hp, h⟩ := Option.bind_eq_some_iff.mp h
  split at h
  · rename_i hw
    injection h with h
    subst h
    rw [read, resolve_put, hp, Option.bind_some, lookup_put]
  · exact absurd h (by simp)

/-- Writing one file leaves what another pathname reads. -/
theorem read_write_of_ne {t t' : FileTree α} {s s' : List Char} {c : α}
    (h : t.write s c = some t') (hne : t.resolve s' ≠ t.resolve s) : t'.read s' = t.read s' := by
  obtain ⟨p, hp, h⟩ := Option.bind_eq_some_iff.mp h
  split at h
  · rename_i hw
    injection h with h
    subst h
    rw [read, read, resolve_put]
    cases hs : t.resolve s' with
    | none => rfl
    | some q =>
      have hqp : q ≠ p := fun e => hne (by rw [hs, hp, e])
      rw [Option.bind_some, Option.bind_some, lookup_put_of_ne t hw hqp]
  · exact absurd h (by simp)

/-- `opendir` succeeds. -/
def opens (t : FileTree α) (s : List Char) : Bool := (t.resolve s).any t.isDir

/-- Writing a file makes and removes no directory. -/
theorem opens_write {t t' : FileTree α} {s : List Char} {c : α} (h : t.write s c = some t')
    (s' : List Char) : t'.opens s' = t.opens s' := by
  obtain ⟨p, hp, h⟩ := Option.bind_eq_some_iff.mp h
  split at h
  · rename_i hw
    injection h with h
    subst h
    rw [opens, opens, resolve_put]
    exact congrArg (Option.any · (t.resolve s')) (funext (isDir_put t hw))
  · exact absurd h (by simp)

/-- The names that lie directly in the directory a pathname names. -/
def entries (t : FileTree α) (s : List Char) : List Name :=
  ((t.resolve s).elim [] fun p => t.nodes.keys.filter fun k => k ≠ [] ∧ k.dropLast = p).filterMap
    List.getLast?

/-! ## Pathnames below a directory -/

/-- A name below a directory: the directory is walked, then the name placed. -/
theorem resolve_append (t : FileTree α) (d : List Char) {n : Name} (hn : '/' ∉ n)
    (hlen : (d ++ '/' :: n).length < pathMax) :
    t.resolve (d ++ '/' :: n) = (t.walk [] (d.splitOn '/')).map (place · n) := by
  have hsplit : (d ++ '/' :: n).splitOn '/' = d.splitOn '/' ++ [n] := by
    rw [List.splitOn_append_cons_self, List.splitOn_eq_singleton hn]
  rw [resolve, if_neg (Nat.not_le.mpr hlen)]
  simp only [hsplit, List.dropLast_concat, List.getLast_concat]

/-- Writing one name of a directory leaves what another name of it reads. -/
theorem read_write_sibling {t t' : FileTree α} {d : List Char} {m n : Name} {c : α}
    (hm : '/' ∉ m) (hn : '/' ∉ n) (hmlen : (d ++ '/' :: m).length < pathMax)
    (hnlen : (d ++ '/' :: n).length < pathMax) (hne : ∀ p, place p m ≠ place p n)
    (h : t.write (d ++ '/' :: n) c = some t') :
    t'.read (d ++ '/' :: m) = t.read (d ++ '/' :: m) := by
  refine read_write_of_ne h ?_
  obtain ⟨p, hp, -⟩ := Option.bind_eq_some_iff.mp h
  rw [resolve_append t d hn hnlen] at hp ⊢
  rw [resolve_append t d hm hmlen]
  obtain ⟨q, hq, -⟩ := Option.map_eq_some_iff.mp hp
  rw [hq]
  exact fun e => hne q (Option.some.inj e)

/-- A walk that succeeds ends where its components lead. -/
theorem walk_eq_foldl (t : FileTree α) {cs : List Name} {d e : Path} (h : t.walk d cs = some e) :
    e = cs.foldl place d := by
  induction cs generalizing d with
  | nil =>
    injection h with h
    exact h.symm
  | cons c cs ih =>
    rw [walk, List.foldlM_cons] at h
    obtain ⟨d', hd', h⟩ := Option.bind_eq_some_iff.mp h
    rw [enter] at hd'
    split at hd'
    · injection hd' with hd'
      rw [List.foldl_cons, hd']
      exact ih h
    · exact absurd hd' (by simp)

/-- A walk from a directory ends in one. -/
theorem isDir_walk {t : FileTree α} {cs : List Name} {d e : Path} (hd : t.isDir d = true)
    (h : t.walk d cs = some e) : t.isDir e = true := by
  induction cs generalizing d with
  | nil =>
    injection h with h
    exact h ▸ hd
  | cons c cs ih =>
    rw [walk, List.foldlM_cons] at h
    obtain ⟨d', hd', h⟩ := Option.bind_eq_some_iff.mp h
    rw [enter] at hd'
    split at hd'
    · rename_i hdir
      exact ih (Option.some.inj hd' ▸ hdir) h
    · exact absurd hd' (by simp)

/-- The place a pathname names if it names one. -/
def placeOf (s : List Char) : Path := (s.splitOn '/').foldl place []

theorem eq_placeOf_of_resolve {t : FileTree α} {s : List Char} {p : Path}
    (h : t.resolve s = some p) :
    p = placeOf s := by
  have hne : s.splitOn '/' ≠ [] := by simp
  rw [resolve] at h
  split at h
  · exact absurd h (by simp)
  · obtain ⟨d, hd, rfl⟩ := Option.map_eq_some_iff.mp h
    rw [walk_eq_foldl t hd, placeOf]
    conv_rhs => rw [← List.dropLast_append_getLast hne, List.foldl_append]
    rfl

/-- Only a name that is neither empty nor made of dots alone is appended. -/
theorem place_of_ne {d : Path} {c : Name} (h₀ : c ≠ []) (h₁ : c ≠ ['.']) (h₂ : c ≠ ['.', '.']) :
    place d c = d ++ [c] := by
  rw [place, if_neg (by simp [h₀, h₁]), if_neg h₂]

/-! ## Pathnames after a removal -/

/-- A removal leaves at most what there was. -/
theorem lookup_of_lookup_remove {t : FileTree α} {s : List Char} {q : Path} {n : Node α}
    (h : (t.remove s).lookup q = some n) : t.lookup q = some n := by
  by_cases hsame : (t.remove s).lookup q = t.lookup q
  · rw [← hsame]
    exact h
  · obtain ⟨hq, hremovable⟩ := (lookup_remove_ne_iff t s q).mp hsame
    rw [remove, hq] at h
    dsimp only at h
    rw [dif_pos hremovable, lookup_erase] at h
    exact absurd h (by simp)

theorem isDir_of_isDir_remove {t : FileTree α} {s : List Char} {q : Path}
    (h : (t.remove s).isDir q = true) : t.isDir q = true := by
  obtain hnil | hdir := isDir_iff.mp h
  · exact isDir_iff.mpr (Or.inl hnil)
  · exact isDir_iff.mpr (Or.inr (lookup_of_lookup_remove hdir))

theorem walk_of_walk_remove {t : FileTree α} {s : List Char} {cs : List Name} {d e : Path}
    (h : (t.remove s).walk d cs = some e) : t.walk d cs = some e := by
  induction cs generalizing d with
  | nil => exact h
  | cons c cs ih =>
    rw [walk, List.foldlM_cons] at h ⊢
    obtain ⟨d', hd', h⟩ := Option.bind_eq_some_iff.mp h
    refine Option.bind_eq_some_iff.mpr ⟨d', ?_, ih h⟩
    rw [enter] at hd' ⊢
    split at hd'
    · rename_i hdir
      rw [if_pos (isDir_of_isDir_remove hdir)]
      exact hd'
    · exact absurd hd' (by simp)

theorem resolve_of_resolve_remove {t : FileTree α} {s s' : List Char} {p : Path}
    (h : (t.remove s).resolve s' = some p) : t.resolve s' = some p := by
  rw [resolve] at h ⊢
  split at h
  · exact absurd h (by simp)
  · rename_i hlen
    rw [if_neg hlen]
    obtain ⟨d, hd, hp⟩ := Option.map_eq_some_iff.mp h
    exact Option.map_eq_some_iff.mpr ⟨d, walk_of_walk_remove hd, hp⟩

theorem read_eq_some_iff {t : FileTree α} {s : List Char} {c : α} :
    t.read s = some c ↔ ∃ p, t.resolve s = some p ∧ t.lookup p = some (.file c) := by
  rw [read]
  constructor
  · intro h
    split at h
    · rename_i hfile
      rw [← Option.some.inj h]
      exact Option.bind_eq_some_iff.mp hfile
    · exact absurd h (by simp)
  · intro ⟨p, hp, hfile⟩
    rw [hp, Option.bind_some, hfile]

theorem mem_keys_of_lookup {t : FileTree α} {p : Path} {n : Node α} (h : t.lookup p = some n) :
    p ∈ t.nodes.keys := by
  rw [← AList.mem_keys, ← AList.lookup_isSome, show t.nodes.lookup p = _ from h]
  rfl

theorem isDir_dropLast {t : FileTree α} {p : Path} {n : Node α} (h : t.lookup p = some n) :
    t.isDir p.dropLast = true := isDir_iff.mpr (t.closed p (mem_keys_of_lookup h))

/-- A file that can be read can be replaced. -/
theorem write_of_read {t : FileTree α} {s : List Char} {c : α} (h : t.read s = some c)
    (hs : placeOf s ≠ []) (c' : α) : ∃ t', t.write s c' = some t' := by
  obtain ⟨p, hp, hfile⟩ := read_eq_some_iff.mp h
  have hp' := eq_placeOf_of_resolve hp
  have hparent : t.isDir p.dropLast = true := isDir_dropLast hfile
  have hself : t.isDir p = false := by
    rw [Bool.eq_false_iff, ne_eq, isDir_iff, hfile, hp']
    simp [hs]
  have hw : t.writable p = true := by
    rw [writable, hparent, hself]
    rfl
  exact ⟨t.put p c' hw, by rw [write, hp, Option.bind_some, dif_pos hw]⟩

theorem read_of_read_remove {t : FileTree α} {s s' : List Char} {c : α}
    (h : (t.remove s).read s' = some c) : t.read s' = some c := by
  obtain ⟨p, hp, hfile⟩ := read_eq_some_iff.mp h
  exact read_eq_some_iff.mpr ⟨p, resolve_of_resolve_remove hp, lookup_of_lookup_remove hfile⟩

/-- What has been removed is not read. -/
theorem read_remove_self (t : FileTree α) (s : List Char) : (t.remove s).read s = none := by
  rw [Option.eq_none_iff_forall_ne_some]
  intro c h
  obtain ⟨p, hp, hfile⟩ := read_eq_some_iff.mp h
  have hres := resolve_of_resolve_remove hp
  have hremovable : t.removable p = true := by
    rw [removable, lookup_of_lookup_remove hfile]
  rw [remove, hres] at hfile
  dsimp only at hfile
  rw [dif_pos hremovable, lookup_erase] at hfile
  exact absurd hfile (by simp)

/-- A file is no directory, so removing one leaves every directory. -/
theorem isDir_remove_file {t : FileTree α} {s : List Char} {c : α} (h : t.read s = some c)
    (q : Path) : (t.remove s).isDir q = t.isDir q := by
  obtain ⟨p, hp, hfile⟩ := read_eq_some_iff.mp h
  by_cases hsame : (t.remove s).lookup q = t.lookup q
  · rw [isDir, isDir, hsame]
  · obtain ⟨hq, hremovable⟩ := (lookup_remove_ne_iff t s q).mp hsame
    obtain rfl : p = q := Option.some.inj (hp.symm.trans hq)
    have hgone : (t.remove s).lookup p = none := by
      rw [remove, hp]
      dsimp only
      rw [dif_pos hremovable, lookup_erase]
    rw [isDir, isDir, hfile, hgone]

/-- Removing one file leaves a file with another content. -/
theorem read_remove_other {t : FileTree α} {s s' : List Char} {c c' : α} (h : t.read s = some c)
    (h' : t.read s' = some c') (hne : c ≠ c') : (t.remove s).read s' = some c' := by
  obtain ⟨p, hp, hfile⟩ := read_eq_some_iff.mp h
  obtain ⟨q, hq, hfile'⟩ := read_eq_some_iff.mp h'
  refine read_eq_some_iff.mpr ⟨q, (resolve_congr (isDir_remove_file h) s').trans hq, ?_⟩
  rw [← hfile']
  by_contra hchanged
  obtain ⟨hpq, -⟩ := (lookup_remove_ne_iff t s q).mp hchanged
  rw [← Option.some.inj (hp.symm.trans hpq), hfile] at hfile'
  exact hne (Node.file.inj (Option.some.inj hfile'))

/-! ## Names with an ending -/

section Ending

variable {ending : Name} (hslash : '/' ∉ ending) (hlong : 2 < ending.length)

include hslash hlong

/-- The place a pathname with an ending names has a last name with that ending. -/
theorem resolve_ending {t : FileTree α} {s : List Char} {q : Path}
    (h : t.resolve (s ++ ending) = some q) :
    ∃ d n, q = d ++ [n ++ ending] ∧ t.walk [] (s.splitOn '/').dropLast = some d := by
  have hparts : ∀ c ∈ ending, (c == '/') = false := by
    intro c hc
    rw [beq_eq_false_iff_ne]
    exact fun heq => hslash (heq ▸ hc)
  obtain ⟨init, last, hs, happend⟩ := splitOnP_append hparts s
  have hs' : s.splitOn '/' = init ++ [last] := hs
  have happend' : (s ++ ending).splitOn '/' = init ++ [last ++ ending] := happend
  rw [resolve] at h
  split at h
  · exact absurd h (by simp)
  · simp only [happend', List.dropLast_concat, List.getLast_concat] at h
    obtain ⟨d, hd, hplace⟩ := Option.map_eq_some_iff.mp h
    have hne : ∀ m : Name, m.length ≤ 2 → last ++ ending ≠ m := by
      rintro m hm rfl
      rw [List.length_append] at hm
      omega
    rw [place_of_ne (hne _ (by decide)) (hne _ (by decide)) (hne _ (by decide))] at hplace
    rw [hs', List.dropLast_concat]
    exact ⟨d, last, hplace.symm, hd⟩

/-- Removing a pathname with an ending leaves every place without such a name. -/
theorem lookup_remove_ending (t : FileTree α) (s : List Char) {q : Path}
    (hq : ∀ n ∈ q, ¬ ending <:+ n) : (t.remove (s ++ ending)).lookup q = t.lookup q := by
  by_contra hchanged
  obtain ⟨hres, -⟩ := (lookup_remove_ne_iff t (s ++ ending) q).mp hchanged
  obtain ⟨d, n, rfl, -⟩ := resolve_ending hslash hlong hres
  exact hq (n ++ ending) (by simp) (List.suffix_append n ending)

end Ending

/-- A walk depends on the directories it goes through. -/
theorem walk_congr {P : Name → Prop} {t t' : FileTree α}
    (h : ∀ q, (∀ n ∈ q, P n) → t'.isDir q = t.isDir q) {d : Path} {cs : List Name}
    (hd : ∀ n ∈ d, P n) (hcs : ∀ c ∈ cs, P c) : t'.walk d cs = t.walk d cs := by
  induction cs generalizing d with
  | nil => rfl
  | cons c cs ih =>
    have hplace : ∀ n ∈ place d c, P n := by
      intro n hn
      rw [place] at hn
      split at hn
      · exact hd n hn
      split at hn
      · exact hd n (List.mem_of_mem_dropLast hn)
      · rcases List.mem_append.mp hn with hn | hn
        · exact hd n hn
        · exact List.mem_singleton.mp hn ▸ hcs c List.mem_cons_self
    rw [walk, walk, List.foldlM_cons, List.foldlM_cons, enter, enter, h _ hplace]
    split
    · exact ih hplace fun e he => hcs e (List.mem_cons_of_mem c he)
    · rfl

/-- A name that can be read below a directory is one of its entries. -/
theorem mem_entries_of_lookup {t : FileTree α} {d : List Char} {p : Path} {n : Name} {node : Node α}
    (hd : t.resolve d = some p) (h : t.lookup (p ++ [n]) = some node) : n ∈ t.entries d := by
  have hkey : p ++ [n] ∈ t.nodes.keys := mem_keys_of_lookup h
  rw [entries, hd, Option.elim_some, List.mem_filterMap]
  refine ⟨p ++ [n], List.mem_filter.mpr ⟨hkey, ?_⟩, List.getLast?_concat⟩
  simp

/-! ## Plain pathnames -/

/-- A component that names an entry. -/
def Plain (c : Name) : Prop := c ≠ [] ∧ c ≠ ['.'] ∧ c ≠ ['.', '.']

instance (c : Name) : Decidable (Plain c) := inferInstanceAs (Decidable (_ ∧ _ ∧ _))

theorem place_plain {d : Path} {c : Name} (h : Plain c) : place d c = d ++ [c] :=
  place_of_ne h.1 h.2.1 h.2.2

theorem foldl_place_plain {cs : List Name} (hcs : ∀ c ∈ cs, Plain c) (d : Path) :
    cs.foldl place d = d ++ cs := by
  induction cs generalizing d with
  | nil => exact (List.append_nil d).symm
  | cons c cs ih =>
    rw [List.foldl_cons, place_plain (hcs c List.mem_cons_self),
      ih fun e he => hcs e (List.mem_cons_of_mem c he), List.append_assoc]
    rfl

/-- A place that is listed is reached through directories. -/
theorem isDir_of_lookup {t : FileTree α} {d r : Path} {n : Node α} (h : t.lookup (d ++ r) = some n)
    (hr : r ≠ []) : t.isDir d = true := by
  induction r using List.reverseRecOn generalizing n with
  | nil => exact absurd rfl hr
  | append_singleton r m ih =>
    have hparent := isDir_dropLast h
    rw [← List.append_assoc, List.dropLast_concat] at hparent
    by_cases hnil : r = []
    · rwa [hnil, List.append_nil] at hparent
    · rcases isDir_iff.mp hparent with hroot | hdir
      · exact absurd (List.append_eq_nil_iff.mp hroot).2 hnil
      · exact ih hdir hnil

theorem walk_plain {t : FileTree α} {d : Path} {cs : List Name} {m : Name} {n : Node α}
    (hcs : ∀ c ∈ cs, Plain c) (h : t.lookup (d ++ cs ++ [m]) = some n) :
    t.walk d cs = some (d ++ cs) := by
  induction cs generalizing d with
  | nil =>
    rw [List.append_nil]
    rfl
  | cons c cs ih =>
    have hplace : place d c = d ++ [c] := place_plain (hcs c List.mem_cons_self)
    have hassoc : d ++ c :: cs ++ [m] = d ++ [c] ++ (cs ++ [m]) := by simp
    have hdir : t.isDir (d ++ [c]) = true := isDir_of_lookup (hassoc ▸ h) (by simp)
    rw [walk, List.foldlM_cons, enter, hplace, if_pos hdir]
    show t.walk (d ++ [c]) cs = _
    rw [ih (fun e he => hcs e (List.mem_cons_of_mem c he)) (by simpa using h)]
    simp

section Pathname

variable {s : List Char} {names : Path} (hs : s.splitOn '/' = [] :: names)
  (hplain : ∀ c ∈ names, Plain c)

include hs hplain

theorem placeOf_plain : placeOf s = names := by
  rw [placeOf, hs]
  exact foldl_place_plain hplain []

/-- A plain pathname reads what is listed at its place. -/
theorem read_plain_iff (t : FileTree α) (hlen : s.length < pathMax) {c : α} :
    t.read s = some c ↔ t.lookup names = some (.file c) := by
  rw [read_eq_some_iff]
  constructor
  · rintro ⟨p, hp, hfile⟩
    rw [← placeOf_plain hs hplain, ← eq_placeOf_of_resolve hp]
    exact hfile
  · intro hfile
    refine ⟨names, ?_, hfile⟩
    rcases List.eq_nil_or_concat names with rfl | ⟨init, m, rfl⟩
    · rw [resolve, if_neg (Nat.not_le.mpr hlen)]
      simp [hs, walk, place]
    · rw [List.concat_eq_append] at hs hplain hfile ⊢
      have hinit : ∀ c ∈ init, Plain c := fun c hc => hplain c (List.mem_append_left _ hc)
      -- The leading slash stands still at the root.
      have hwalk : t.walk [] ([] :: init) = some init := walk_plain (d := []) hinit hfile
      have hm : Plain m := hplain m (by simp)
      have hcut : s.splitOn '/' = ([] :: init) ++ [m] := hs
      rw [resolve, if_neg (Nat.not_le.mpr hlen)]
      simp only [hcut, List.dropLast_concat, List.getLast_concat, hwalk, Option.map_some,
        place_plain hm]

theorem read_plain_congr {t t' : FileTree α} (hlen : s.length < pathMax)
    (h : t'.lookup names = t.lookup names) : t'.read s = t.read s := by
  refine Option.ext fun c => ?_
  rw [read_plain_iff hs hplain t' hlen, read_plain_iff hs hplain t hlen, h]

end Pathname

/-! ## What leaves a place alone -/

theorem lookup_write_of_ne {t t' : FileTree α} {s : List Char} {c : α} {q : Path}
    (h : t.write s c = some t') (hq : placeOf s ≠ q) : t'.lookup q = t.lookup q := by
  obtain ⟨p, hp, h⟩ := Option.bind_eq_some_iff.mp h
  split at h
  · rename_i hw
    rw [← Option.some.inj h]
    exact lookup_put_of_ne t hw fun e => hq (by rw [e, eq_placeOf_of_resolve hp])
  · exact absurd h (by simp)

theorem lookup_remove_of_ne (t : FileTree α) {s : List Char} {q : Path} (hq : placeOf s ≠ q) :
    (t.remove s).lookup q = t.lookup q := by
  by_contra hchanged
  exact hq (eq_placeOf_of_resolve ((lookup_remove_ne_iff t s q).mp hchanged).1).symm

/-- Without `..` a pathname leads to nothing outside of the directory it begins with. -/
theorem prefix_foldl_place {cs : List Name} (h : ['.', '.'] ∉ cs) (d : Path) :
    d <+: cs.foldl place d := by
  induction cs generalizing d with
  | nil => exact List.prefix_refl d
  | cons c cs ih =>
    rw [List.mem_cons, not_or] at h
    have hstep : d <+: place d c := by
      rw [place, if_neg (Ne.symm h.1)]
      split
      · exact List.prefix_refl d
      · exact List.prefix_append d [c]
    exact hstep.trans (ih h.2 _)

theorem mem_foldl_place {cs : List Name} {d : Path} {n : Name} (h : n ∈ cs.foldl place d) :
    n ∈ d ∨ n ∈ cs := by
  induction cs generalizing d with
  | nil => exact Or.inl h
  | cons c cs ih =>
    rcases ih h with h | h
    · rw [place] at h
      split at h
      · exact Or.inl h
      split at h
      · exact Or.inl (List.mem_of_mem_dropLast h)
      · rcases List.mem_append.mp h with h | h
        · exact Or.inl h
        · exact Or.inr (List.mem_singleton.mp h ▸ List.mem_cons_self)
    · exact Or.inr (List.mem_cons_of_mem c h)

/-- No name of the tree has a slash in it. -/
def Slashless (t : FileTree α) : Prop := ∀ p node, t.lookup p = some node → ∀ n ∈ p, '/' ∉ n

theorem slashless_of_keys {t : FileTree α} (h : ∀ p ∈ t.nodes.keys, ∀ n ∈ p, '/' ∉ n) :
    t.Slashless := fun p _ hp => h p (mem_keys_of_lookup hp)

theorem Slashless.remove {t : FileTree α} (h : t.Slashless) (s : List Char) :
    (t.remove s).Slashless := fun p node hp => h p node (lookup_of_lookup_remove hp)

theorem Slashless.write {t t' : FileTree α} (h : t.Slashless) {s : List Char} {c : α}
    (hw : t.write s c = some t') : t'.Slashless := by
  intro p node hp n hn
  by_cases hplace : placeOf s = p
  · rw [← hplace, placeOf] at hn
    rcases mem_foldl_place hn with hn | hn
    · exact absurd hn List.not_mem_nil
    · intro hslash
      have hpart := (mem_of_mem_splitOnP hn hslash).2
      exact absurd hpart (by decide)
  · rw [lookup_write_of_ne hw hplace] at hp
    exact h p node hp n hn

theorem Slashless.entries {t : FileTree α} (h : t.Slashless) {s : List Char} {n : Name}
    (hn : n ∈ t.entries s) : '/' ∉ n := by
  rw [FileTree.entries, List.mem_filterMap] at hn
  obtain ⟨k, hk, hlast⟩ := hn
  cases hs : t.resolve s with
  | none =>
    rw [hs] at hk
    exact absurd hk List.not_mem_nil
  | some p =>
    rw [hs, Option.elim_some] at hk
    have hkey := AList.mem_keys.mpr (List.mem_filter.mp hk).1
    obtain ⟨node, hnode⟩ := Option.isSome_iff_exists.mp (AList.lookup_isSome.mpr hkey)
    exact h k node hnode n (List.mem_of_getLast? hlast)

end FileTree

end Posix
end MkyBoot
