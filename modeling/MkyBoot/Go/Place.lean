import MkyBoot.Go.Filepath

/-!
# Places in a file system

What the path that `filepath.Abs` returns stands for: a volume and the names of the
directories below it.  `Within` says that one place is another one or lies below it, by the
names.  `Place.map_parts_prefix_iff` compares that with the texts of the two paths, split at
the separators.  The two differ in one case: the path of a volume's root ends with a
separator, and no path of a place below the root has an element there.
-/

namespace MkyBoot
namespace Go
namespace Filepath

/-- A system whose `unicode.ToLower` makes no other character the path separator, nor the
separator another character. -/
structure CaseSys extends Sys where
  toLower_eq_sep : ∀ c, toLower c = os.sep ↔ c = os.sep

/-- The directory `dir` that the machine `host` shares. -/
def shareName (host dir : Str) : Str := '\\' :: '\\' :: (host ++ '\\' :: dir)

/-- What `filepath.VolumeName` finds in an absolute path: nothing on one family of systems, a
drive or a shared directory on the other. -/
inductive IsVolume : OS → Str → Prop
  | root : IsVolume .unix []
  | drive {letter : Char} (h : OS.windows.isSep letter = false) : IsVolume .windows [letter, ':']
  | share {host dir : Str} (hhost : IsName .windows host) (hdir : IsName .windows dir) :
      IsVolume .windows (shareName host dir)

/-- An absolute clean path.  The root of a shared directory can be written without the
separator at the end. -/
structure Place (os : OS) extends Abs os where
  isVolume : IsVolume os volume
  bare : Bool
  bare_share : bare = true → ∃ host dir, volume = shareName host dir

variable {os : OS}

/-- What stands behind the volume name, split at the separators. -/
def Place.rest (p : Place os) : List Str :=
  if p.names = [] then if p.bare then [] else [[]] else p.names

def Place.text (p : Place os) : Str := p.volume ++ render os p.rest

theorem Place.text_eq (p : Place os) (h : p.bare = false) : p.text = p.toAbs.text := by
  rw [Place.text, Place.rest, Abs.text]
  by_cases hnil : p.names = []
  · rw [if_pos hnil, if_pos hnil, h]
    rfl
  · rw [if_neg hnil, if_neg hnil]

/-- The root of a volume, written with its separator. -/
def Place.IsRoot (p : Place os) : Prop := p.names = [] ∧ p.bare = false

instance (p : Place os) : Decidable p.IsRoot := inferInstanceAs (Decidable (_ ∧ _))

/-- The place is the other one or lies below it; letters are compared without their case. -/
def Within (sys : CaseSys) (root p : Place sys.os) : Prop :=
  p.volume.map sys.toLower = root.volume.map sys.toLower ∧
    root.names.map (List.map sys.toLower) <+: p.names.map (List.map sys.toLower)

instance (sys : CaseSys) (root p : Place sys.os) : Decidable (Within sys root p) :=
  inferInstanceAs (Decidable (_ ∧ _))

/-! ## The parts of a path's text -/

def Place.parts (p : Place os) : List Str := p.text.splitOn os.sep

theorem not_mem_of_isName {e : Str} (h : IsName os e) : os.sep ∉ e := fun hmem =>
  absurd os.isSep_sep (Bool.eq_false_iff.mp (h.2.2.2 os.sep hmem))

theorem splitOn_append_render (v : Str) {rest : List Str} (h : ∀ e ∈ rest, os.sep ∉ e) :
    (v ++ render os rest).splitOn os.sep = v.splitOn os.sep ++ rest := by
  induction rest generalizing v with
  | nil =>
    rw [render, List.flatMap_nil, List.append_nil, List.append_nil]
  | cons e rest ih =>
    have he : e.splitOn os.sep = [e] :=
      List.splitOn_eq_singleton (h e List.mem_cons_self)
    rw [render_cons, List.splitOn_append_cons_self,
      ih e (fun m hm => h m (List.mem_cons_of_mem e hm)), he]
    rfl

theorem Place.not_mem_rest (p : Place os) : ∀ e ∈ p.rest, os.sep ∉ e := by
  intro e he
  rw [Place.rest] at he
  split at he
  · split at he
    · exact absurd he List.not_mem_nil
    · rw [List.mem_singleton.mp he]
      exact List.not_mem_nil
  · exact not_mem_of_isName (p.isName e he)

theorem Place.parts_eq (p : Place os) : p.parts = p.volume.splitOn os.sep ++ p.rest :=
  splitOn_append_render p.volume p.not_mem_rest

/-- A shared directory starts with empty parts, a drive does not. -/
theorem IsVolume.parts_cases {v : Str} (h : IsVolume os v) :
    (∃ part, v.splitOn os.sep = [part] ∧ (os = .windows → part ≠ [])) ∨
      os = .windows ∧ ∃ host dir, v.splitOn os.sep = [[], [], host, dir] := by
  cases h with
  | root => exact Or.inl ⟨[], rfl, fun h => nomatch h⟩
  | @drive letter h =>
    refine Or.inl ⟨[letter, ':'], ?_, fun _ => List.cons_ne_nil _ _⟩
    refine List.splitOn_eq_singleton fun hmem => ?_
    rcases List.mem_cons.mp hmem with heq | hmem
    · rw [← heq] at h
      exact absurd h (by decide)
    · exact absurd hmem (by decide)
  | @share host dir hhost hdir =>
    refine Or.inr ⟨rfl, host, dir, ?_⟩
    have hnames : ∀ e ∈ [[], host, dir], OS.windows.sep ∉ e := by
      intro e he
      rcases List.mem_cons.mp he with rfl | he
      · exact List.not_mem_nil
      · rcases List.mem_cons.mp he with rfl | he
        · exact not_mem_of_isName hhost
        · exact List.mem_singleton.mp he ▸ not_mem_of_isName hdir
    have htext : shareName host dir = [] ++ render OS.windows [[], host, dir] := by
      rw [render_cons, render_cons, render_cons, render, List.flatMap_nil, List.append_nil]
      rfl
    rw [htext, splitOn_append_render [] hnames]
    rfl

theorem append_prefix_append_iff {α : Type} {a b xs ys : List α} (h : a.length = b.length) :
    a ++ xs <+: b ++ ys ↔ a = b ∧ xs <+: ys := by
  constructor
  · rintro ⟨t, ht⟩
    rw [List.append_assoc] at ht
    obtain ⟨heq, hrest⟩ := List.append_inj ht h
    exact ⟨heq, t, hrest⟩
  · rintro ⟨rfl, hrest⟩
    exact (List.prefix_append_right_inj a).mpr hrest

section Lower

variable {sys : CaseSys}

/-- Letters can be made lower case before or after the split. -/
theorem splitOn_map_toLower (l : Str) :
    (l.map sys.toLower).splitOn sys.os.sep = (l.splitOn sys.os.sep).map (List.map sys.toLower) := by
  induction l with
  | nil => rfl
  | cons c l ih =>
    rw [List.map_cons, List.splitOn_cons_eq_if_modifyHead, List.splitOn_cons_eq_if_modifyHead, ih]
    by_cases hc : c = sys.os.sep
    · have hlower := (sys.toLower_eq_sep c).mpr hc
      rw [if_pos (beq_iff_eq.mpr hc), if_pos (beq_iff_eq.mpr hlower)]
      rfl
    · have hlower : ¬ sys.toLower c = sys.os.sep := fun h => hc ((sys.toLower_eq_sep c).mp h)
      rw [if_neg (fun h => hc (beq_iff_eq.mp h)), if_neg (fun h => hlower (beq_iff_eq.mp h))]
      cases l.splitOn sys.os.sep with
      | nil => rfl
      | cons first rest => rfl

/-- Where the parts of one path continue those of another, the volumes are the same. -/
theorem map_volume_prefix_iff {r v : Str} (hr : IsVolume sys.os r) (hv : IsVolume sys.os v)
    (xs ys : List Str) :
    (r.splitOn sys.os.sep).map (List.map sys.toLower) ++ xs <+:
        (v.splitOn sys.os.sep).map (List.map sys.toLower) ++ ys ↔
      v.map sys.toLower = r.map sys.toLower ∧ xs <+: ys := by
  have hsame : v.map sys.toLower = r.map sys.toLower ↔
      (r.splitOn sys.os.sep).map (List.map sys.toLower) =
        (v.splitOn sys.os.sep).map (List.map sys.toLower) := by
    rw [← splitOn_map_toLower, ← splitOn_map_toLower]
    refine ⟨fun h => by rw [h], fun h => ?_⟩
    have hjoin := congrArg [sys.os.sep].intercalate h
    rw [List.intercalate_splitOn, List.intercalate_splitOn] at hjoin
    exact hjoin.symm
  rw [hsame]
  rcases hr.parts_cases with ⟨part, hpart, hne⟩ | ⟨hos, host, dir, hparts⟩
  · rcases hv.parts_cases with ⟨part', hpart', _⟩ | ⟨hos, host', dir', hparts'⟩
    · rw [hpart, hpart']
      exact append_prefix_append_iff rfl
    · rw [hpart, hparts']
      simp [hne hos]
  · rcases hv.parts_cases with ⟨part', hpart', hne⟩ | ⟨_, host', dir', hparts'⟩
    · have hne := hne hos
      rw [hparts, hpart']
      simp [hne]
    · rw [hparts, hparts']
      exact append_prefix_append_iff rfl

theorem Place.rest_of_isRoot {p : Place os} (h : p.IsRoot) : p.rest = [[]] := by
  rw [Place.rest, if_pos h.1, h.2]
  rfl

theorem Place.rest_of_not_isRoot {p : Place os} (h : ¬ p.IsRoot) : p.rest = p.names := by
  rw [Place.rest]
  by_cases hnil : p.names = []
  · have hbare : p.bare = true := Bool.eq_true_of_not_eq_false fun hbare => h ⟨hnil, hbare⟩
    rw [if_pos hnil, hbare, hnil]
    rfl
  · rw [if_neg hnil]

theorem nil_not_mem_map_names (p : Place sys.os) : [] ∉ p.names.map (List.map sys.toLower) := by
  intro hmem
  obtain ⟨e, he, hnil⟩ := List.mem_map.mp hmem
  exact (p.isName e he).1 (List.map_eq_nil_iff.mp hnil)

/-- What stands behind the volume names agrees with the names, except below a root that is
written with its separator. -/
theorem map_rest_prefix_iff (root p : Place sys.os) :
    root.rest.map (List.map sys.toLower) <+: p.rest.map (List.map sys.toLower) ↔
      root.names.map (List.map sys.toLower) <+: p.names.map (List.map sys.toLower) ∧
        (root.IsRoot → p.IsRoot) := by
  by_cases hroot : root.IsRoot
  · have hnames : root.names.map (List.map sys.toLower) <+: p.names.map (List.map sys.toLower) := by
      rw [hroot.1]
      exact List.nil_prefix
    rw [Place.rest_of_isRoot hroot, and_iff_right hnames]
    constructor
    · intro h _
      by_contra hp
      rw [Place.rest_of_not_isRoot hp] at h
      exact nil_not_mem_map_names p (h.subset List.mem_cons_self)
    · intro h
      rw [Place.rest_of_isRoot (h hroot)]
  · rw [Place.rest_of_not_isRoot hroot, and_iff_left (fun h => absurd h hroot)]
    by_cases hp : p.IsRoot
    · rw [Place.rest_of_isRoot hp, hp.1, List.map_nil, List.prefix_nil, List.map_cons, List.map_nil,
        List.map_nil, List.prefix_cons_iff]
      refine or_iff_left ?_
      rintro ⟨t, ht, -⟩
      exact nil_not_mem_map_names root (ht ▸ List.mem_cons_self)
    · rw [Place.rest_of_not_isRoot hp]

/-- The text of one place continues the text of another one behind a separator. -/
theorem Place.map_parts_prefix_iff (root p : Place sys.os) :
    root.parts.map (List.map sys.toLower) <+: p.parts.map (List.map sys.toLower) ↔
      Within sys root p ∧ (root.IsRoot → p.IsRoot) := by
  rw [Place.parts_eq, Place.parts_eq, List.map_append, List.map_append,
    map_volume_prefix_iff root.isVolume p.isVolume, map_rest_prefix_iff, Within, and_assoc]

end Lower

end Filepath
end Go
end MkyBoot
