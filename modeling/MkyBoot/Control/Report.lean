import MkyBoot.Control.Evidence
import MkyBoot.Launcher.Server

/-!
# The status page and the launcher

`status.ensure` serves the snapshot it finds, however old it is, and starts a refresh in the
background; only without one, or with one from the future, it waits for a refresh.
`get_server_status` counts the workstations with `status.state_of`, which looks at the age of
the snapshot each time, and copies the services from the snapshot, whatever its age is.  The
launcher looks at the services.  `nothing_up_iff` says from which snapshots that are not
current nothing is reported as up.
-/

namespace MkyBoot
namespace Control
namespace Status

open Lua

/-- `status.ttl` -/
def ttl : ℚ := 5

/-- What `status.ensure` returns. -/
structure Served where
  snap : Option Snap
  refreshed : Bool
  /-- A refresh is started in the background. -/
  background : Bool

/-- `status.ensure`.  The first and the second `status.get` return what is given; the refresh
between them may have failed. -/
def ensure (now : ℚ) (first second : Option Snap) : Served :=
  match age now first with
  | none => ⟨second, true, true⟩
  | some a => if a ≤ ttl then ⟨first, false, false⟩ else ⟨first, false, true⟩

structure Client where
  name : Val
  ipv4 : Val

/-- The part of `mkyboot.cfg` that is reported. -/
structure Site where
  ipv4 : Val
  version : Val
  vendor : Val
  iscsiPort : Val
  iqn : Val
  wks : List Client

structure Counts where
  total : ℕ
  online : ℕ
  offline : ℕ
  unknown : ℕ

def Counts.add (c : Counts) : Answer → Counts
  | .online => { c with total := c.total + 1, online := c.online + 1 }
  | .offline => { c with total := c.total + 1, offline := c.offline + 1 }
  | .unknown => { c with total := c.total + 1, unknown := c.unknown + 1 }

/-- One workstation is counted, if it has a name. -/
def Counts.addClient (snap : Option Snap) (clock : ℕ → ℚ) (c : Counts) (wi : Client × ℕ) : Counts :=
  if wi.1.name = .nil then c else c.add (stateOf (clock wi.2) snap wi.1.ipv4)

/-- The workstations are counted one after the other, and the clock goes on meanwhile. -/
def countClients (snap : Option Snap) (clock : ℕ → ℚ) (wks : List Client) : Counts :=
  wks.zipIdx.foldl (Counts.addClient snap clock) ⟨0, 0, 0, 0⟩

/-- The table that `api.get_server_status` returns. -/
structure Page (ι : Type) where
  ipv4 : Val
  version : Val
  vendor : Val
  clients : Counts
  iscsiPort : Val
  iqn : Val
  images : ι
  service : Service → Bool
  fresh : Bool
  stale : Bool
  age : ℚ
  targets : Str
  refreshed : Bool

section Page

variable {ι : Type}

/-- `api.get_server_status`.  The clock is read in `ensure`, for the age of the snapshot and
for each workstation; what `api.list_images` returns is passed in. -/
def getServerStatus (site : Site) (images : ι) (start aged : ℚ) (clock : ℕ → ℚ)
    (first second : Option Snap) : Page ι :=
  let served := ensure start first second
  let snap := served.snap
  { ipv4 := site.ipv4
    version := site.version
    vendor := site.vendor
    clients := countClients snap clock site.wks
    iscsiPort := site.iscsiPort
    iqn := site.iqn
    images := images
    service := fun s => decide (snap.bind (fun got => got.flag s) = some true)
    fresh := (age aged snap).any fun a => decide (a ≤ ttl)
    stale := (age aged snap).all fun a => decide (maxAge < a)
    age := (age aged snap).getD (-1)
    targets := (snap.bind Snap.targets).getD "missing".toList
    refreshed := served.refreshed }

/-- A text field of the answer as the launcher reads it; `nil` is left out. -/
def textField : Val → Option Str
  | .nil => some []
  | .str s => some s
  | _ => none

/-- What the launcher reads from the page, if it can be read. -/
def Page.payload (page : Page ι) : Option Launcher.RawStatus := do
  let ipv4 ← textField page.ipv4
  let version ← textField page.version
  let vendor ← textField page.vendor
  return { ipv4 := ipv4, version := version, vendor := vendor, total := page.clients.total
           online := page.clients.online, offline := page.clients.offline
           dhcp := page.service .dhcp, tftp := page.service .tftp, iscsi := page.service .iscsi
           error := [] }

/-- The state that the launcher shows for the page. -/
def Page.launcherState (page : Page ι) (checked : Server.Time) : Launcher.ServerState :=
  (Launcher.checkStatusContext checked (.answered 200 page.payload)).state

/-- Nothing is reported as up, nor a workstation as down. -/
structure NothingUp (page : Page ι) (checked : Server.Time) : Prop where
  online : page.clients.online = 0
  offline : page.clients.offline = 0
  service : ∀ s, page.service s = false
  launcher : page.launcherState checked ≠ .online

/-! ## The workstations -/

/-- A snapshot from the future becomes current while the workstations are gone through. -/
def Overtaken (site : Site) (clock : ℕ → ℚ) (snap : Option Snap) : Prop :=
  ∃ w i, (w, i) ∈ site.wks.zipIdx ∧ w.name ≠ .nil ∧ Valid.ipv4 w.ipv4 = true ∧
    Current (clock i) snap ∧ snap.bind Snap.targets = some "ok".toList

/-- One workstation is counted neither as online nor as offline. -/
theorem Counts.addClient_zero_iff (snap : Option Snap) (clock : ℕ → ℚ) (c : Counts)
    (wi : Client × ℕ) :
    ((c.addClient snap clock wi).online = 0 ∧ (c.addClient snap clock wi).offline = 0) ↔
      (c.online = 0 ∧ c.offline = 0) ∧
        (wi.1.name ≠ .nil → stateOf (clock wi.2) snap wi.1.ipv4 = .unknown) := by
  rw [Counts.addClient]
  by_cases hname : wi.1.name = .nil
  · simp [hname]
  · rw [if_neg hname]
    cases hstate : stateOf (clock wi.2) snap wi.1.ipv4 with
    | online | offline => simp [Counts.add, hname]
    | unknown => simp [Counts.add]

theorem foldl_addClient_zero_iff (snap : Option Snap) (clock : ℕ → ℚ) (l : List (Client × ℕ))
    (c : Counts) :
    ((l.foldl (Counts.addClient snap clock) c).online = 0 ∧
        (l.foldl (Counts.addClient snap clock) c).offline = 0) ↔
      (c.online = 0 ∧ c.offline = 0) ∧
        ∀ wi ∈ l, wi.1.name ≠ .nil → stateOf (clock wi.2) snap wi.1.ipv4 = .unknown := by
  induction l generalizing c with
  | nil => simp
  | cons wi l ih =>
    rw [List.foldl_cons, ih, Counts.addClient_zero_iff, List.forall_mem_cons, and_assoc]

theorem stateOf_eq_unknown_iff {now : ℚ} {snap : Option Snap} {ip : Val} :
    stateOf now snap ip = .unknown ↔
      ¬ (Valid.ipv4 ip = true ∧ Current now snap ∧ snap.bind Snap.targets = some "ok".toList) := by
  constructor
  · intro hunknown hknown
    rw [stateOf_known hknown.1 hknown.2.1 hknown.2.2] at hunknown
    split at hunknown
    · cases hunknown
    · cases hunknown
  · intro h
    by_cases hip : Valid.ipv4 ip = true
    · refine stateOf_unknown ?_ ip
      rw [← not_and_or]
      exact fun hand => h ⟨hip, hand⟩
    · rw [stateOf, Bool.eq_false_iff.mpr hip]
      rfl

/-- No workstation is counted as online or offline, unless the snapshot becomes current. -/
theorem countClients_zero_iff (site : Site) (snap : Option Snap) (clock : ℕ → ℚ) :
    ((countClients snap clock site.wks).online = 0 ∧
        (countClients snap clock site.wks).offline = 0) ↔ ¬ Overtaken site clock snap := by
  rw [countClients, foldl_addClient_zero_iff, and_iff_right ⟨rfl, rfl⟩]
  constructor
  · rintro h ⟨w, i, hmem, hname, hknown⟩
    exact stateOf_eq_unknown_iff.mp (h (w, i) hmem hname) hknown
  · intro h wi hmem hname
    exact stateOf_eq_unknown_iff.mpr fun hknown => h ⟨wi.1, wi.2, hmem, hname, hknown⟩

/-- Only a snapshot from the future can become current. -/
theorem future_of_overtaken {site : Site} {clock : ℕ → ℚ} {snap : Option Snap} {returned : ℚ}
    (hclock : ∀ i, returned ≤ clock i) (hreturned : ¬ Current returned snap)
    (h : Overtaken site clock snap) : ∃ ts, snap.bind Snap.ts = some ts ∧ returned < ts := by
  obtain ⟨w, i, -, -, -, ⟨a, ha, hle⟩, -⟩ := h
  rw [age] at ha
  split at ha
  · cases ha
  · rename_i ts hts
    refine ⟨ts, hts, ?_⟩
    by_contra hpast
    refine hreturned ⟨returned - ts, ?_, ?_⟩
    · have hnonneg : ¬ returned - ts < 0 := by linarith
      rw [age, hts]
      exact if_neg hnonneg
    · split at ha
      · cases ha
      · have hage := Option.some.inj ha
        have hlater := hclock i
        linarith

/-! ## The services and the launcher -/

theorem classifyPayload_ne_online {raw : Launcher.RawStatus} (herror : raw.error = [])
    (hdown : Launcher.downServices raw ≠ []) (checked : Server.Time) :
    (Launcher.classifyPayload checked raw).state ≠ .online := by
  rw [Launcher.classifyPayload, if_neg (not_not.mpr herror)]
  split
  · exact nofun
  · simp only [if_pos hdown]
    exact nofun

theorem Page.payload_eq_some {page : Page ι} {raw : Launcher.RawStatus}
    (h : page.payload = some raw) :
    raw.error = [] ∧ raw.dhcp = page.service .dhcp ∧ raw.tftp = page.service .tftp ∧
      raw.iscsi = page.service .iscsi := by
  obtain ⟨ipv4, -, h⟩ := Option.bind_eq_some_iff.mp h
  obtain ⟨version, -, h⟩ := Option.bind_eq_some_iff.mp h
  obtain ⟨vendor, -, h⟩ := Option.bind_eq_some_iff.mp h
  rw [← Option.some.inj h]
  exact ⟨rfl, rfl, rfl, rfl⟩

/-- A page with a service that is not running is not shown as online. -/
theorem Page.launcherState_ne_online {page : Page ι} (checked : Server.Time) {s : Service}
    (h : page.service s = false) : page.launcherState checked ≠ .online := by
  rw [Page.launcherState, Launcher.checkStatusContext, Launcher.classifyAnswer.eq_def,
    if_neg (by decide), if_neg (by decide), if_neg (by decide)]
  cases hraw : page.payload with
  | none => exact nofun
  | some raw =>
    obtain ⟨herror, hdhcp, htftp, hiscsi⟩ := Page.payload_eq_some hraw
    refine classifyPayload_ne_online herror (fun hnil => ?_) checked
    rw [Launcher.downServices, hdhcp, htftp, hiscsi, List.append_eq_nil_iff,
      List.append_eq_nil_iff] at hnil
    cases s with
    | dhcp =>
      rw [h] at hnil
      exact List.cons_ne_nil _ _ hnil.1.1
    | tftp =>
      rw [h] at hnil
      exact List.cons_ne_nil _ _ hnil.1.2
    | iscsi =>
      rw [h] at hnil
      exact List.cons_ne_nil _ _ hnil.2

/-- For every site, every pair of snapshots and every clock that goes on after `ensure` has
returned a snapshot that is not current then: nothing is reported as up exactly if the
snapshot has no running service, and it is not one from the future that becomes current
before the last workstation is counted. -/
theorem nothing_up_iff (site : Site) (images : ι) (start returned aged : ℚ) (clock : ℕ → ℚ)
    (first second : Option Snap) (hclock : ∀ i, returned ≤ clock i)
    (hreturned : ¬ Current returned (ensure start first second).snap) (checked : Server.Time) :
    NothingUp (getServerStatus site images start aged clock first second) checked ↔
      (∀ s, (ensure start first second).snap.bind (fun got => got.flag s) ≠ some true) ∧
        ¬ ∃ ts, (ensure start first second).snap.bind Snap.ts = some ts ∧ returned < ts ∧
          Overtaken site clock (ensure start first second).snap := by
  have hcount := countClients_zero_iff site (ensure start first second).snap clock
  constructor
  · intro h
    refine ⟨fun s => of_decide_eq_false (h.service s), ?_⟩
    rintro ⟨ts, -, -, hovertaken⟩
    exact hcount.mp ⟨h.online, h.offline⟩ hovertaken
  · rintro ⟨hservice, hfuture⟩
    have hovertaken : ¬ Overtaken site clock (ensure start first second).snap := by
      intro hovertaken
      obtain ⟨ts, hts, hlt⟩ := future_of_overtaken hclock hreturned hovertaken
      exact hfuture ⟨ts, hts, hlt, hovertaken⟩
    obtain ⟨honline, hoffline⟩ := hcount.mpr hovertaken
    have hstopped : ∀ s, (getServerStatus site images start aged clock first second).service s =
        false := fun s => decide_eq_false (hservice s)
    exact ⟨honline, hoffline, hstopped, Page.launcherState_ne_online checked (hstopped .dhcp)⟩

end Page

/-! A site with one workstation, and snapshots that are an hour old. -/

def oneStation : Site where
  ipv4 := .str "192.168.0.1".toList
  version := .str "2.0".toList
  vendor := .str "MKYBOOT".toList
  iscsiPort := .num 3260
  iqn := .str "iqn.2020-02-10.com.mkyboot".toList
  wks := [⟨.str "ws1".toList, .str "192.168.0.3".toList⟩]

/-- A snapshot with one client, and all services running or none. -/
def hourOld (running : Bool) : Option Snap :=
  some ⟨some 1700000000, some "ok".toList, ["192.168.0.3".toList], fun _ => some running⟩

theorem stopped_nothing_up :
    NothingUp (getServerStatus oneStation () 1700003600 1700003600 (fun _ => 1700003600)
      (hourOld false) none) 0 := by
  have hreturned : ¬ Current 1700003600 (ensure 1700003600 (hourOld false) none).snap := by
    decide +kernel
  refine (nothing_up_iff oneStation () 1700003600 1700003600 1700003600 (fun _ => 1700003600)
    (hourOld false) none (fun _ => le_refl _) hreturned 0).mpr ⟨?_, ?_⟩
  · intro s
    cases s <;> decide +kernel
  · rintro ⟨ts, -, -, w, i, -, -, -, hcurrent, -⟩
    exact hreturned hcurrent

theorem stale_services_online :
    let page := getServerStatus oneStation () 1700003600 1700003600 (fun _ => 1700003600)
      (hourOld true) none
    ¬ Current 1700003600 (ensure 1700003600 (hourOld true) none).snap ∧
      page.stale = true ∧ page.clients.unknown = 1 ∧ page.service .dhcp = true ∧
      page.service .tftp = true ∧ page.service .iscsi = true ∧
      page.launcherState 0 = .online := by
  decide +kernel

end Status
end Control
end MkyBoot
