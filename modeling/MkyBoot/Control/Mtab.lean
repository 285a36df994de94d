import MkyBoot.Control.Finish
import MkyBoot.Lua.Plain

/-!
# The search in `/etc/mtab`

`zfs.mtab` means to look a dataset name up in `/etc/mtab`, and hands the name to
`string.find` as a pattern.  ZFS allows dashes and dots in the names of pools, datasets
and snapshots, and both have a meaning in a pattern: a pool `tank-1` is not found under
its own name, and `zfsmount` then waits for a mount that is already there.
`detects_iff` says which names are looked up literally.
-/

namespace MkyBoot
namespace Control
namespace Station

open Lua Command Lua.Prog

/-- `zfs.mtab`.  The file is `none` if it cannot be opened. -/
def mtab (file : Option Str) (args : Val) : Lua.Call Bool :=
  if accepts (.zfsMtab args) then
    file.elim (.returned false) fun data => Pattern.find data (tostring args)
  else .returned false

theorem zfsMtab_eq (env : Env) (s : World) (name : Str) :
    zfsMtab env s name = mtab (some (mtabText env s.mtab)) (.str name) := rfl

theorem source_infix_mtabText (env : Env) {mounts : List Mount} {m : Mount} (h : m ∈ mounts) :
    m.source <:+: mtabText env mounts := by
  obtain ⟨before, after, rfl⟩ := List.append_of_mem h
  have hline : m.source <:+: m.line env := (List.prefix_append _ _).isInfix
  rw [mtabText, List.flatMap_append, List.flatMap_cons]
  exact hline.trans ⟨_, _, (List.append_assoc _ _ _).trans rfl⟩

/-- A name is found exactly where it stands, so a loop that waits for the snapshot of that
name ends as soon as the snapshot is mounted. -/
structure Detects (name : Str) : Prop where
  literal : ∀ content, mtab (some content) (.str name) = .returned (decide (name <:+: content))
  ends : ∀ (env : Env) (cfg : Config) (w : Workstation) (s : World), zdest cfg w = name →
    (∃ m ∈ s.mtab, m.source = name) →
      Ends (.poll (mountMissing env cfg w) (.set (remount cfg w))) s (.returned s)

section

variable {name : Str} (haccepts : accepts (.zfsMtab (.str name)) = true)

include haccepts

theorem dollar_not_mem : '$' ∉ name := by
  intro hin
  have hall : name.all (· ∉ metacharacters) = true := ((Bool.and_eq_true _ _).mp haccepts).2
  exact absurd (List.all_eq_true.mp hall '$' hin) (by decide)

theorem mtab_some (content : Str) : mtab (some content) (.str name) = Pattern.find content name :=
  if_pos haccepts

theorem mtab_literal_iff :
    (∀ content, mtab (some content) (.str name) = .returned (decide (name <:+: content))) ↔
      Pattern.Plain name := by
  simp only [mtab_some haccepts]
  exact Pattern.literal_iff (dollar_not_mem haccepts)

end

section

variable (env : Env) (cfg : Config) (w : Workstation)

theorem mountMissing_plain (haccepts : accepts (.zfsMtab (.str (zdest cfg w))) = true)
    (hplain : Pattern.Plain (zdest cfg w)) (s : World) :
    mountMissing env cfg w s = .returned !decide (zdest cfg w <:+: mtabText env s.mtab) := by
  rw [mountMissing, zfsMtab_eq, (mtab_literal_iff haccepts).mpr hplain]

theorem mountMissing_of_mounted (haccepts : accepts (.zfsMtab (.str (zdest cfg w))) = true)
    (hplain : Pattern.Plain (zdest cfg w)) {s : World} {m : Mount} (hm : m ∈ s.mtab)
    (hsource : m.source = zdest cfg w) : mountMissing env cfg w s = .returned false := by
  have hin := source_infix_mtabText env hm
  rw [hsource] at hin
  rw [mountMissing_plain env cfg w haccepts hplain, decide_eq_true hin, Bool.not_true]

/-- With such a name and paths that can be mounted, `zfsmount` ends in every state. -/
theorem halts_zfsmount (haccepts : accepts (.zfsMtab (.str (zdest cfg w))) = true)
    (hplain : Pattern.Plain (zdest cfg w)) (hdest : Valid.safePath (.str (zdest cfg w)) = true)
    (hpoint : Valid.safePath (.str (zpoint cfg w)) = true) (s : World) :
    ∃ t, Ends (zfsmount env cfg w) s (.returned t) := by
  have hmounted : ⟨zdest cfg w, zpoint cfg w⟩ ∈ (restored cfg w s).mtab := by
    rw [restored, mounted, hdest, hpoint, Bool.true_and, if_pos rfl]
    split
    · assumption
    · exact List.mem_append_right _ (List.mem_singleton_self _)
  have hrestored := mountMissing_of_mounted env cfg w haccepts hplain hmounted rfl
  refine (ends_zfsmount env cfg w s).2.mpr ?_
  rw [MountTest, hrestored, mountMissing_plain env cfg w haccepts hplain]
  cases decide (zdest cfg w <:+: mtabText env (cleared cfg w s).mtab) <;> simp

end

/-- A name that `zfs.mtab` does not reject is looked up literally exactly if the pattern
library gives no character of it a meaning. -/
theorem detects_iff (name : Str) (haccepts : accepts (.zfsMtab (.str name)) = true) :
    Detects name ↔ Pattern.Plain name := by
  rw [← mtab_literal_iff haccepts]
  refine ⟨fun h => h.literal, fun h => ⟨h, ?_⟩⟩
  rintro env cfg w s rfl ⟨m, hm, hsource⟩
  refine (ends_poll_false ?_).mpr rfl
  exact mountMissing_of_mounted env cfg w haccepts ((mtab_literal_iff haccepts).mp h) hm hsource

theorem shipped_snapshot_detected :
    accepts (.zfsMtab (.str (zdest shipped (station [windows])))) = true ∧
      Detects (zdest shipped (station [windows])) :=
  ⟨by decide +kernel, (detects_iff _ (by decide +kernel)).mpr
    ⟨⟨by decide +kernel, by decide +kernel⟩, by decide +kernel, by decide +kernel⟩⟩

/-! A pool with a dash in its name. -/

def dashed : Config := { shipped with dpoint := "tank-1/images/boot@snap_".toList }

theorem dashed_snapshot_missed :
    accepts (.zfsMtab (.str (zdest dashed (station [windows])))) = true ∧
      ⟨zdest dashed (station [windows]), zpoint dashed (station [windows])⟩ ∈
        (restored dashed (station [windows]) idle).mtab ∧
      zfsMtab lab (restored dashed (station [windows]) idle) (zdest dashed (station [windows])) =
        .returned false ∧
      ¬ Halts (zfsmount lab dashed (station [windows])) idle ∧
      ¬ Detects (zdest dashed (station [windows])) := by
  have hmounted : ⟨zdest dashed (station [windows]), zpoint dashed (station [windows])⟩ ∈
      (restored dashed (station [windows]) idle).mtab := by decide +kernel
  have hcleared : mountMissing lab dashed (station [windows])
      (cleared dashed (station [windows]) idle) = .returned true := by decide +kernel
  have hrestored : zfsMtab lab (restored dashed (station [windows]) idle)
      (zdest dashed (station [windows])) = .returned false := by decide +kernel
  have hmissing : mountMissing lab dashed (station [windows])
      (restored dashed (station [windows]) idle) = .returned true := by
    rw [mountMissing, hrestored]
    rfl
  refine ⟨by decide +kernel, hmounted, hrestored, ?_, fun h => ?_⟩
  · rintro ⟨o, ho⟩
    cases o with
    | raised =>
      have htest := (ends_zfsmount lab dashed _ idle).1.mp ho
      simp [MountTest, hcleared, hmissing] at htest
    | returned t =>
      have htest := (ends_zfsmount lab dashed _ idle).2.mp ⟨t, ho⟩
      simp [MountTest, hcleared, hmissing] at htest
  · have hfound := h.literal (mtabText lab (restored dashed (station [windows]) idle).mtab)
    rw [← zfsMtab_eq, hrestored, decide_eq_true (source_infix_mtabText lab hmounted)] at hfound
    cases hfound

end Station
end Control
end MkyBoot
