import MkyBoot.Machine.Run

/-!
# Files between two operations

A program that writes a file does it by several operations, and a crash or an error
leaves the file as the operations so far have made it.  A file that is rewritten in
place holds a beginning of the new text in between (`run_rewrite`); one that is written
under another name and renamed holds the old text or the new one (`run_publish`).
-/

namespace MkyBoot
namespace Posix

open Machine

abbrev Files (ι : Type) := ι → Option (List Char)

inductive FileOp (ι : Type) where
  /-- `open` for writing -/
  | truncate (f : ι)
  | append (f : ι) (text : List Char)
  | rename (src dst : ι)
  | remove (f : ι)
  deriving DecidableEq

namespace FileOp

variable {ι : Type} [DecidableEq ι]

def apply (s : Files ι) : FileOp ι → Files ι
  | .truncate f => Function.update s f (some [])
  | .append f text => Function.update s f ((s f).map (· ++ text))
  | .rename src dst =>
    match s src with
    | none => s
    | some text => Function.update (Function.update s src none) dst (some text)
  | .remove f => Function.update s f none

/-- The files that an operation changes. -/
def files : FileOp ι → List ι
  | .truncate f => [f]
  | .append f _ => [f]
  | .rename src dst => [src, dst]
  | .remove f => [f]

theorem apply_of_notMem {s : Files ι} {op : FileOp ι} {f : ι} (h : f ∉ op.files) :
    apply s op f = s f := by
  cases op with
  | truncate g | append g text => exact Function.update_of_ne (List.ne_of_not_mem_cons h) _ _
  | rename src dst =>
    rw [apply]
    cases s src with
    | none => rfl
    | some text =>
      dsimp only
      rw [Function.update_of_ne (List.ne_of_not_mem_cons (List.not_mem_of_not_mem_cons h)),
        Function.update_of_ne (List.ne_of_not_mem_cons h)]
  | remove g => exact Function.update_of_ne (List.ne_of_not_mem_cons h) _ _

/-- Operations on other files leave a file. -/
theorem run_of_notMem {f : ι} {ops : List (FileOp ι)} (h : ∀ op ∈ ops, f ∉ op.files)
    (s : Files ι) : run apply s ops f = s f := by
  induction ops generalizing s with
  | nil => rfl
  | cons op ops ih =>
    rw [run_cons, ih (fun op' hop' => h op' (List.mem_cons_of_mem op hop')),
      apply_of_notMem (h op List.mem_cons_self)]

theorem run_appends (s : Files ι) (f : ι) (texts : List (List Char)) :
    run apply s (texts.map (append f)) = Function.update s f ((s f).map (· ++ texts.flatten)) := by
  induction texts generalizing s with
  | nil =>
    have hsame : (s f).map (· ++ ([] : List (List Char)).flatten) = s f := by
      cases s f with
      | none => rfl
      | some text => simp
    rw [hsame, Function.update_eq_self]
    rfl
  | cons text texts ih =>
    rw [List.map_cons, run_cons, ih, apply, Function.update_idem, Function.update_self,
      Option.map_map, List.flatten_cons]
    congr 2
    funext old
    exact List.append_assoc old text texts.flatten

/-- The operations that rewrite a file in place. -/
def rewrite (f : ι) (texts : List (List Char)) : List (FileOp ι) :=
  truncate f :: texts.map (append f)

omit [DecidableEq ι] in
theorem files_of_mem_rewrite {f : ι} {texts : List (List Char)} {op : FileOp ι}
    (h : op ∈ rewrite f texts) : op.files = [f] := by
  rcases List.mem_cons.mp h with rfl | h
  · rfl
  · obtain ⟨text, -, rfl⟩ := List.mem_map.mp h
    rfl

theorem run_rewrite (s : Files ι) (f : ι) (texts : List (List Char)) :
    run apply s (rewrite f texts) = Function.update s f (some texts.flatten) := by
  rw [rewrite, run_cons, run_appends, apply, Function.update_idem, Function.update_self,
    Option.map_some, List.nil_append]

omit [DecidableEq ι] in
theorem take_rewrite (f : ι) (texts : List (List Char)) (k : ℕ) :
    (rewrite f texts).take (k + 1) = rewrite f (texts.take k) := by
  rw [rewrite, List.take_succ_cons, ← List.map_take, rewrite]

/-- The operations that replace a file by another one. -/
def publish (tmp f : ι) (texts : List (List Char)) : List (FileOp ι) :=
  rewrite tmp texts ++ [rename tmp f]

/-- Until the rename the file is as it was, and then it has the whole text. -/
theorem run_publish (s : Files ι) {tmp f : ι} (hne : f ≠ tmp) (texts : List (List Char)) (k : ℕ) :
    run apply s ((publish tmp f texts).take k) f =
      if k ≤ texts.length + 1 then s f else some texts.flatten := by
  have hlen : (rewrite tmp texts).length = texts.length + 1 := by
    rw [rewrite, List.length_cons, List.length_map]
  by_cases hk : k ≤ texts.length + 1
  · rw [if_pos hk, publish, List.take_append_of_le_length (hlen.symm ▸ hk)]
    cases k with
    | zero => rfl
    | succ k => rw [take_rewrite, run_rewrite, Function.update_of_ne hne]
  · have hall : (publish tmp f texts).take k = rewrite tmp texts ++ [rename tmp f] :=
      List.take_of_length_le (by
        rw [publish, List.length_append, hlen, List.length_singleton]; omega)
    rw [if_neg hk, hall, run_append, run_rewrite]
    show apply (Function.update s tmp (some texts.flatten)) (rename tmp f) f = _
    rw [apply, Function.update_self]
    exact Function.update_self f _ _

end FileOp
end Posix
end MkyBoot
