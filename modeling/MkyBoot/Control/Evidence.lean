import MkyBoot.Control.Status

/-!
# What a probe is evidence of

`status.run` returns the output of a command, however the command ended; only a command that
could not be started at all leaves no output.  `status.refresh` therefore takes the output of
a `tgtadm` that failed or was killed for a full list of the connected clients.
`honest_iff` says after which runs of `tgtadm` a workstation that is not in the snapshot can
be reported as offline.
-/

namespace MkyBoot
namespace Control
namespace Status

open Lua Posix

/-- How a command ends that `io.popen` is asked to run.  A shell that cannot find or execute
the program exits itself, with a code of its own. -/
inductive Outcome where
  | notStarted
  /-- The read of the output fails. -/
  | unreadable
  | exited (code : ℕ) (out : Str)
  /-- The timeout wrapper kills the command after part of its output. -/
  | killed (out : Str)
  deriving DecidableEq

/-- `status.run` -/
def run : Outcome → Option Str
  | .notStarted => none
  | .unreadable => none
  | .exited _ out => some out
  | .killed out => some out

/-- The run of `tgtadm` completed with exit status 0.  `none` stands for a program that is not
installed. -/
def Completed (tgtadm : Option Outcome) : Prop := ∃ out, tgtadm = some (.exited 0 out)

/-- The snapshot is neither absent nor from the future nor too old. -/
def Current (now : ℚ) (snap : Option Snap) : Prop := ∃ a, age now snap = some a ∧ a ≤ maxAge

instance (now : ℚ) (snap : Option Snap) : Decidable (Current now snap) :=
  decidable_of_iff ((age now snap).any (fun a => decide (a ≤ maxAge)) = true) <| by
    rw [Option.any_eq_true]
    exact exists_congr fun a => and_congr_right fun _ => decide_eq_true_iff

/-- The addresses in a snapshot. -/
def listed (snap : Option Snap) : List Str := (snap.map Snap.ips).getD []

/-- A failed run is no evidence: what is not listed after it is unknown, and only a completed
run makes a workstation offline. -/
structure Honest (tgtadm : Option Outcome) (now : ℚ) (snap : Option Snap) : Prop where
  unlisted : ¬ Completed tgtadm → ∀ ip, tostring ip ∉ listed snap → stateOf now snap ip = .unknown
  offline : ∀ ip, stateOf now snap ip = .offline → Completed tgtadm

/-! ## What is known of a workstation -/

theorem stateOf_known {now : ℚ} {snap : Option Snap} {ip : Val} (hip : Valid.ipv4 ip = true)
    (hcurrent : Current now snap) (htargets : snap.bind Snap.targets = some "ok".toList) :
    stateOf now snap ip = if tostring ip ∈ listed snap then .online else .offline := by
  obtain ⟨a, ha, hle⟩ := hcurrent
  rw [stateOf, hip, ha]
  simp only [Bool.not_true, Bool.false_eq_true, if_false, not_lt.mpr hle, htargets, ne_eq,
    not_true_eq_false]
  rfl

theorem stateOf_unknown {now : ℚ} {snap : Option Snap}
    (h : ¬ Current now snap ∨ snap.bind Snap.targets ≠ some "ok".toList) (ip : Val) :
    stateOf now snap ip = .unknown := by
  rw [stateOf]
  split
  · rfl
  split
  · rfl
  · rename_i a ha
    split
    · rfl
    · rename_i hle
      have hcurrent : Current now snap := ⟨a, ha, not_lt.mp hle⟩
      exact if_pos (h.resolve_left (not_not.mpr hcurrent))

/-- There are more addresses than a snapshot can list. -/
theorem exists_unlisted {ips : List Str} (h : ips.length < 65536) :
    ∃ ip, Valid.ipv4 (.str ip) = true ∧ ip ∉ ips := by
  by_contra hall
  have hnodup : ((List.range 65536).map clientIp).Nodup :=
    List.nodup_range.map clientIp_injective
  have hsub : (List.range 65536).map clientIp ⊆ ips := by
    intro ip hip
    obtain ⟨i, hi, rfl⟩ := List.mem_map.mp hip
    by_contra hmem
    exact hall ⟨_, ipv4_clientIp (List.mem_range.mp hi), hmem⟩
  have hle := (hnodup.subperm hsub).length_le
  rw [List.length_map, List.length_range] at hle
  omega

theorem length_le_fileSize (now : ℚ) (ips : List Str) : 4 * ips.length ≤ fileSize now ips := by
  have hsum : 4 * ips.length ≤ (ips.map fun ip => ip.length + 4).sum := by
    induction ips with
    | nil => exact Nat.le_refl 0
    | cons ip ips ih =>
      rw [List.map_cons, List.sum_cons, List.length_cons]
      omega
  rw [fileSize]
  omega

/-! ## From the run to the answer -/

/-- What the file says of the targets is what the snapshot said. -/
theorem decode_targets {snap got : Snap} {now : ℚ} (hts : snap.ts = some now)
    (htargets : '\n' ∉ strText snap.targets)
    (hips : ∀ ip ∈ snap.ips, Valid.ipv4 (.str ip) = true) (h : decode (encode snap) = some got) :
    got.targets = some (strText snap.targets) := by
  have hlen : (encode snap).length ≤ 65536 := by
    by_contra hlen
    rw [decode, if_pos (Or.inr (not_le.mp hlen))] at h
    cases h
  rw [decode_encode (newline_not_mem_fields hts htargets hips) hlen, foldl_absorb hips] at h
  split at h
  · cases h
  · rw [← Option.some.inj h]

theorem ipv4_of_mem_collect {p : Probes} : ∀ ip ∈ (collect p).ips, Valid.ipv4 (.str ip) = true := by
  intro ip hip
  simp only [collect] at hip
  split at hip
  · exact (List.mem_filter.mp (List.mem_dedup.mp hip)).2
  · exact absurd hip List.not_mem_nil

section Refresh

variable {p : Probes} {tgtadm : Option Outcome} {order : List Str} {t t' : FileTree Str}

theorem read_of_write (h : write t { collect p with ips := order } = some t') :
    read t' = decode (encode { collect p with ips := order }) := by
  rw [read, FileTree.read_write h, Option.bind_some]

/-- Without an output the snapshot has no targets to go by. -/
theorem targets_of_not_run (hp : p.tgtadm = tgtadm.map run) (hrun : tgtadm.bind run = none)
    (horder : order.Perm (collect p).ips)
    (hwrite : write t { collect p with ips := order } = some t') :
    (read t').bind Snap.targets ≠ some "ok".toList := by
  have hcases : (collect p).targets = some "missing".toList ∨
      (collect p).targets = some "failed".toList := by
    rw [collect, hp]
    cases tgtadm with
    | none => exact Or.inl rfl
    | some o =>
      rw [Option.bind_some] at hrun
      rw [Option.map_some, hrun]
      exact Or.inr rfl
  have hclean : '\n' ∉ strText (collect p).targets ∧
      some (strText (collect p).targets) ≠ some "ok".toList := by
    rcases hcases with h | h
    · rw [h]
      decide
    · rw [h]
      decide
  rw [read_of_write hwrite]
  cases hgot : decode (encode { collect p with ips := order }) with
  | none => simp
  | some got =>
    have hips : ∀ ip ∈ order, Valid.ipv4 (.str ip) = true := fun ip hip =>
      ipv4_of_mem_collect ip (horder.mem_iff.mp hip)
    have htargets : got.targets = some (strText (collect p).targets) :=
      @decode_targets { collect p with ips := order } got p.now rfl hclean.1 hips hgot
    rw [Option.bind_some, htargets]
    exact hclean.2

/-- With an output, a snapshot that is current has some workstation offline. -/
theorem exists_offline (hp : p.tgtadm = tgtadm.map run) {out : Str}
    (hrun : tgtadm.bind run = some out) (horder : order.Perm (collect p).ips)
    (hwrite : write t { collect p with ips := order } = some t') {now : ℚ}
    (hcurrent : Current now (read t')) : ∃ ip, stateOf now (read t') ip = .offline := by
  have htargets : (collect p).targets = some "ok".toList := by
    obtain ⟨o, ho, hout⟩ := Option.bind_eq_some_iff.mp hrun
    rw [collect, hp, ho, Option.map_some, hout]
  have hread := read_of_write hwrite
  have hpresent : read t' ≠ none := by
    intro hnone
    obtain ⟨a, ha, -⟩ := hcurrent
    rw [hnone] at ha
    cases ha
  have hips : ∀ ip ∈ order, Valid.ipv4 (.str ip) = true := fun ip hip =>
    ipv4_of_mem_collect ip (horder.mem_iff.mp hip)
  have hsize : fileSize p.now order ≤ 65536 := by
    by_contra hsize
    have hlong : decode (encode { collect p with ips := order }) = none :=
      decode_too_long rfl htargets hsize
    exact hpresent (hread.trans hlong)
  have hdecode : decode (encode { collect p with ips := order }) =
      (tonumber (.str (tostring (.num p.now)))).map (restored { collect p with ips := order }) :=
    decode_snapshot rfl htargets hips hsize
  rw [hdecode] at hread
  cases htime : tonumber (.str (tostring (.num p.now))) with
  | none =>
    rw [htime] at hread
    exact absurd hread hpresent
  | some q =>
    rw [htime, Option.map_some] at hread
    have hlength := length_le_fileSize p.now order
    have hfew : order.length < 65536 := by omega
    obtain ⟨ip, hip, hmem⟩ := exists_unlisted hfew
    have htargets' : (read t').bind Snap.targets = some "ok".toList := by
      rw [hread]
      rfl
    refine ⟨.str ip, ?_⟩
    rw [stateOf_known hip hcurrent htargets', if_neg]
    rw [hread]
    exact fun h => hmem (List.mem_reverse.mp h)

/-- Whatever `tgtadm` does in a refresh, and whenever the snapshot is read: a failed run is
taken for evidence unless the command could not be started, or the snapshot is not current. -/
theorem honest_iff (hp : p.tgtadm = tgtadm.map run) (horder : order.Perm (collect p).ips)
    (hwrite : write t { collect p with ips := order } = some t') (now : ℚ) :
    Honest tgtadm now (read t') ↔
      Completed tgtadm ∨ tgtadm.bind run = none ∨ ¬ Current now (read t') := by
  constructor
  · intro h
    by_contra hnot
    rw [not_or, not_or, not_not] at hnot
    obtain ⟨hfailed, hrun, hcurrent⟩ := hnot
    obtain ⟨out, hout⟩ := Option.ne_none_iff_exists'.mp hrun
    obtain ⟨ip, hip⟩ := exists_offline hp hout horder hwrite hcurrent
    exact hfailed (h.offline ip hip)
  · rintro (hdone | hother)
    · exact ⟨fun hfailed => absurd hdone hfailed, fun _ _ => hdone⟩
    · have hunknown : ∀ ip, stateOf now (read t') ip = .unknown := by
        refine stateOf_unknown ?_
        exact hother.symm.imp_right fun hrun => targets_of_not_run hp hrun horder hwrite
      refine ⟨fun _ ip _ => hunknown ip, fun ip hip => ?_⟩
      rw [hunknown ip] at hip
      cases hip

end Refresh

/-! A `tgtadm` that cannot reach its daemon, and one that is not started. -/

def probesAfter (o : Outcome) : Probes where
  now := 1700000000
  tgtadm := some (run o)
  lsof := false
  port := fun _ => .nil
  listeners := fun _ => none

theorem not_started_honest :
    Honest (some .notStarted) 1700000000
      (read ((write cfgTree (collect (probesAfter .notStarted))).get (cfgTree_write _))) :=
  (honest_iff (p := probesAfter .notStarted) rfl (List.Perm.refl _) (Option.some_get _).symm
    1700000000).mpr (Or.inr (Or.inl rfl))

theorem failed_run_offline :
    ¬ Completed (some (.exited 107 [])) ∧
      stateOf 1700000000 (read ((write cfgTree (collect (probesAfter (.exited 107 [])))).get
        (cfgTree_write _))) (.str "192.168.0.3".toList) = .offline := by
  refine ⟨nofun, ?_⟩
  decide +kernel

end Status
end Control
end MkyBoot
