import MkyBoot.Go.Place
import MkyBoot.Server.Storage

/-!
# The containment check

`IsPathContained` compares the bytes of two lower-case paths: the path starts with the root,
and it ends there or a separator follows.  `containedBytes_eq` takes the comparison from the
bytes to the characters, whatever the length of a lower-case letter is, and
`isPathContained_exact_iff` to the places that the paths name.  The check is exact except
where the root is the root of a volume: its path ends with the separator already, and a path
below it has no second one there.
-/

namespace MkyBoot
namespace Server

open Go

section Check

variable (sys : Filepath.Sys)

/-- `os.PathSeparator`, as it is compared with a byte -/
def sepByte (os : Filepath.OS) : UInt8 := UInt8.ofNat os.sep.toNat

/-- `isContained` on the bytes of the two paths -/
def containedBytes (root abs : Str) : Bool :=
  let root := bytes (root.map sys.toLower)
  let path := bytes (abs.map sys.toLower)
  if !root.isPrefixOf path then false
  else if path.length = root.length then true
  else path[root.length]? == some (sepByte sys.os)

/-- `IsPathContained`.  What `filepath.Abs` returns is passed in. -/
def isPathContained (root : Str) (abs : Option Str) : Bool :=
  match abs with
  | none => false
  | some abs => containedBytes sys root abs

end Check

/-! ## Bytes and characters -/

theorem bytes_sep (os : Filepath.OS) : bytes [os.sep] = [sepByte os] := by
  cases os with
  | unix => decide
  | windows => decide

theorem bytes_eq_nil_iff {s : Str} : bytes s = [] ↔ s = [] := by
  have hprefix := bytes_prefix_iff (s := s) (t := [])
  rw [List.prefix_nil] at hprefix
  rw [← hprefix]
  exact List.prefix_nil.symm

/-- A separator is one byte, and no other character starts with it. -/
theorem head?_bytes_eq_sep_iff (os : Filepath.OS) (s : Str) :
    (bytes s)[0]? = some (sepByte os) ↔ [os.sep] <+: s := by
  rw [← bytes_prefix_iff, bytes_sep]
  cases bytes s with
  | nil => simp
  | cons b rest => simp [eq_comm]

variable {sys : Filepath.Sys}

theorem isContained_iff {root abs : Str} :
    isContained sys root abs = true ↔
      root.map sys.toLower = abs.map sys.toLower ∨
        root.map sys.toLower ++ [sys.os.sep] <+: abs.map sys.toLower := by
  rw [isContained]
  generalize root.map sys.toLower = r
  generalize abs.map sys.toLower = a
  by_cases hprefix : r <+: a
  · obtain ⟨rest, rfl⟩ := hprefix
    have hpos : r.isPrefixOf (r ++ rest) = true :=
      List.isPrefixOf_iff_prefix.mpr (List.prefix_append r rest)
    simp only [hpos, Bool.true_and, List.drop_left]
    cases rest with
    | nil => simp
    | cons c rest =>
      simp only [beq_iff_eq, List.self_eq_append_right, reduceCtorEq, false_or,
        List.prefix_append_right_inj, List.cons_prefix_cons, List.nil_prefix, and_true]
      exact eq_comm
  · have hneg : r.isPrefixOf a = false :=
      Bool.eq_false_iff.mpr fun h => hprefix (List.isPrefixOf_iff_prefix.mp h)
    simp only [hneg, Bool.false_and, Bool.false_eq_true, false_iff, not_or]
    exact ⟨fun h => hprefix (h ▸ List.prefix_rfl),
      fun h => hprefix ((List.prefix_append r _).trans h)⟩

/-- The check of the bytes is the check of the characters. -/
theorem containedBytes_eq (root abs : Str) :
    containedBytes sys root abs = isContained sys root abs := by
  rw [Bool.eq_iff_iff, isContained_iff, containedBytes]
  generalize root.map sys.toLower = r
  generalize abs.map sys.toLower = a
  by_cases hprefix : r <+: a
  · have hpos : (bytes r).isPrefixOf (bytes a) = true :=
      List.isPrefixOf_iff_prefix.mpr (bytes_prefix_iff.mpr hprefix)
    obtain ⟨rest, rfl⟩ := hprefix
    have hnext : (bytes (r ++ rest))[(bytes r).length]? = (bytes rest)[0]? := by
      rw [bytes_append, List.getElem?_append_right (le_refl _), Nat.sub_self]
    have hlength : (bytes (r ++ rest)).length = (bytes r).length ↔ rest = [] := by
      rw [bytes_append, List.length_append, Nat.add_eq_left, List.length_eq_zero_iff,
        bytes_eq_nil_iff]
    have hself : r = r ++ rest ↔ rest = [] := List.self_eq_append_right
    simp only [hpos, Bool.not_true, Bool.false_eq_true, if_false, hnext, hlength, hself,
      List.prefix_append_right_inj]
    by_cases hnil : rest = []
    · simp [hnil]
    · simp only [hnil, if_false, false_or, beq_iff_eq]
      exact head?_bytes_eq_sep_iff sys.os rest
  · have hneg : (bytes r).isPrefixOf (bytes a) = false :=
      Bool.eq_false_iff.mpr fun h => hprefix (bytes_prefix_iff.mp (List.isPrefixOf_iff_prefix.mp h))
    simp only [hneg, Bool.not_false, if_true, Bool.false_eq_true, false_iff, not_or]
    exact ⟨fun h => hprefix (h ▸ List.prefix_rfl),
      fun h => hprefix ((List.prefix_append r _).trans h)⟩

/-! ## Places -/

/-- What the check finds out about two places. -/
theorem isContained_place_iff (sys : Filepath.CaseSys) (root p : Filepath.Place sys.os) :
    isContained sys.toSys root.text p.text = true ↔
      Filepath.Within sys root p ∧ (root.IsRoot → p.IsRoot) := by
  rw [isContained_iff, ← splitOn_prefix_iff, Filepath.splitOn_map_toLower,
    Filepath.splitOn_map_toLower]
  exact Filepath.Place.map_parts_prefix_iff root p

/-- Whatever the root is, only an image within it can be registered. -/
theorem registerExisting_within {sys : Filepath.CaseSys} {s s' : Storage sys.os}
    {root p : Filepath.Place sys.os} (hroot : s.root = root.toAbs) (hbare : root.bare = false)
    (hp : p.bare = false) {id name path : Str} {stat : Stat} {now : Time} {img : BaseImage}
    (h : registerExisting sys.toSys s id name path (some p.toAbs) stat now = .ok (img, s')) :
    Filepath.Within sys root p := by
  refine ((isContained_place_iff sys root p).mp ?_).1
  rw [root.text_eq hbare, p.text_eq hp, ← hroot]
  by_contra hout
  rw [registerExisting.eq_def] at h
  split at h
  · cases h
  split at h
  · cases h
  · simp only [hout, Bool.not_false, if_true] at h
    cases h

/-- The check is exact unless the root is the root of a volume, written with its separator,
and the path is another place of the volume. -/
theorem isPathContained_exact_iff (sys : Filepath.CaseSys) (root : Filepath.Place sys.os)
    (abs : Option (Filepath.Place sys.os)) :
    (isPathContained sys.toSys root.text (abs.map (·.text)) = true ↔
        ∃ p, abs = some p ∧ Filepath.Within sys root p) ↔
      ∀ p, abs = some p → Filepath.Within sys root p → root.IsRoot → p.IsRoot := by
  cases abs with
  | none => simp [isPathContained]
  | some p =>
    rw [Option.map_some, isPathContained, containedBytes_eq, isContained_place_iff]
    constructor
    · intro h q hq hwithin
      exact Option.some.inj hq ▸ (h.mpr ⟨q, hq, hwithin⟩).2
    · intro h
      constructor
      · intro hcheck
        exact ⟨p, rfl, hcheck.1⟩
      · rintro ⟨q, hq, hwithin⟩
        obtain rfl := Option.some.inj hq
        exact ⟨hwithin, h p rfl hwithin⟩

/-! A storage at the root of the file system. -/

def unixCase : Filepath.CaseSys where
  toSys := unixSys
  toLower_eq_sep c := by
    have h := toLower_eq_slash_iff c
    rw [Bool.eq_iff_iff, beq_iff_eq, beq_iff_eq] at h
    exact h

def slash : Filepath.Place unixCase.os where
  volume := []
  names := []
  isName := by decide
  isVolume := .root
  bare := false
  bare_share := nofun

def baseFile : Filepath.Place unixCase.os where
  volume := []
  names := ["base.vhdx".toList]
  isName := by decide
  isVolume := .root
  bare := false
  bare_share := nofun

theorem slash_contains_nothing :
    slash.text = "/".toList ∧ baseFile.text = "/base.vhdx".toList ∧
      Filepath.Within unixCase slash baseFile ∧
      isPathContained unixCase.toSys slash.text (some baseFile.text) = false := by
  decide +kernel

end Server
end MkyBoot
