import MkyBoot.Control.Boot
import MkyBoot.Control.Command
import MkyBoot.Lua.Pattern

/-!
# A system that does what it is asked

Booting a workstation is a sequence of external commands: `tgtadm` for targets and
LUNs, `qemu-nbd` for block devices, `zfs` and `mount` for snapshots, `qemu-img` for
images.  `World` is what these commands act on and what the control program reads
back through `tgtadm`, `lsof`, `stat` and `/etc/mtab`.  Every command a wrapper lets
through takes effect.

`Env` is what no command here changes: the files that exist all along, the ports that
are served, how `grep` matches a name against a line, and the options of a mount.
-/

namespace MkyBoot
namespace Control
namespace Station

open Lua Command

/-! ## Configuration -/

structure Image where
  path : Str
  enable : Val
  commit : Val
  type : Val
  boot : Val
  cache : Val

/-- The entry of `mkyboot.cfg.wks` that a request's address belongs to.  Its name is
only logged. -/
structure Workstation where
  mac : Str
  ipv4 : Str
  enable : Val
  supper : Val
  tid : Val
  img : List Image

structure Config where
  imgdir : Str
  imgbackdir : Str
  imgisodir : Str
  imagePrefix : Str
  lockfile : Str
  nbdNbds : ℕ
  -- `mkyboot.cfg.zfs`
  tmpname : Str
  dpoint : Str
  mpoint : Str
  devpoint : Str
  snadev : Str
  -- `mkyboot.cfg.iscsi` and the ports of the other services
  iqn : Str
  iscsiPort : Val
  dhcpPort : Val
  tftpPort : Val

/-! ## The world -/

inductive Holder where
  | qemuNbd (image : Str)
  | tgtd (tid : ℚ)
  deriving DecidableEq

structure Mount where
  source : Str
  point : Str
  deriving DecidableEq

/-- What the control program does to the system. -/
inductive Event where
  /-- A call of a command wrapper, whether or not it lets the command through. -/
  | call (c : Command.Call)
  | create (file : Str)
  | remove (file : Str)

structure World where
  /-- Targets with their number. -/
  targets : List (ℚ × Str)
  /-- The processes that have a device open, in the order `lsof` lists them. -/
  holders : List (Str × Holder)
  /-- Image files that other processes have open. -/
  held : List Str
  /-- The files that children and locks are. -/
  files : List Str
  mtab : List Mount
  /-- `v.nbd` of each image. -/
  nbd : ℕ → Val
  log : List Event

structure Env where
  present : Str → Bool
  listens : Str → Bool
  /-- `grep` finds a name in the line of a target. -/
  grep : Str → Str → Bool
  grep_self : ∀ s, Valid.iqn (.str s) = true → grep s s = true
  mountOptions : Str

/-! ## What a command does -/

def Holder.serves (h : Holder) : Bool :=
  match h with
  | .qemuNbd _ => true
  | .tgtd _ => false

namespace World

variable (s : World)

def record (e : Event) : World := { s with log := s.log ++ [e] }

def addFile (n : Str) : World := { s with files := if n ∈ s.files then s.files else s.files ++ [n] }

def removeFile (n : Str) : World := { s with files := s.files.filter (· != n) }

def newTarget (tid : Option ℚ) (name : Str) : World :=
  { s with
    targets := tid.elim s.targets fun t =>
      if s.targets.any (·.1 == t) then s.targets else s.targets ++ [(t, name)] }

def killTarget (tid : Option ℚ) : World :=
  { s with
    targets := tid.elim s.targets fun t => s.targets.filter (·.1 != t)
    holders := tid.elim s.holders fun t => s.holders.filter (·.2 != .tgtd t) }

def newLun (tid : Option ℚ) (dev : Str) : World :=
  { s with
    holders := tid.elim s.holders fun t =>
      if s.targets.any (·.1 == t) then s.holders ++ [(dev, .tgtd t)] else s.holders }

def connect (dev image : Str) : World :=
  { s with
    holders :=
      if s.holders.any (fun h => h.1 == dev && h.2.serves) then s.holders
      else s.holders ++ [(dev, .qemuNbd image)] }

def disconnect (dev : Str) : World :=
  { s with holders := s.holders.filter fun h => !(h.1 == dev && h.2.serves) }

def mount (source point : Str) : World :=
  { s with
    mtab := if ⟨source, point⟩ ∈ s.mtab then s.mtab else s.mtab ++ [⟨source, point⟩] }

/-- The last mount on a point goes first. -/
def unmount (point : Str) : World :=
  { s with mtab := (s.mtab.reverse.eraseP (·.point == point)).reverse }

/-- `zfs destroy -f` unmounts the snapshot. -/
def destroy (source : Str) : World := { s with mtab := s.mtab.filter (·.source != source) }

/-- `kill -9` on every process that has the image open. -/
def release (image : Str) : World :=
  { s with
    holders := s.holders.filter (·.2 != .qemuNbd image)
    held := s.held.filter (· != image) }

end World

def effect (s : World) : Command.Call → World
  | .tgtNew opt tid => s.newTarget (tonumber tid) (tostring opt)
  | .tgtKill tid => s.killTarget (tonumber tid)
  | .lunAdd tid _ dev => s.newLun (tonumber tid) (tostring dev)
  | .nbdAdd dev path _ => s.connect (tostring dev) (tostring path)
  | .nbdDel dev => s.disconnect (tostring dev)
  | .zfsUnsnap data => s.destroy (tostring data)
  | .zfsMount data point => s.mount (tostring data) (tostring point)
  | .zfsUnmount point => s.unmount (tostring point)
  | .imageChild _ child => s.addFile (tostring child)
  | _ => s

/-- A call of a wrapper: the command runs when its arguments are accepted. -/
def call (c : Command.Call) (s : World) : World :=
  if accepts c then effect (s.record (.call c)) c else s.record (.call c)

/-- `io.open(file, "w")` -/
def create (file : Str) (s : World) : World := (s.record (.create file)).addFile file

/-- `os.remove(file)` -/
def remove (file : Str) (s : World) : World := (s.record (.remove file)).removeFile file

/-! ## What a command leaves alone -/

def onTargets : Command.Call → Bool
  | .tgtNew _ _ => true
  | .tgtKill _ => true
  | _ => false

def onMounts : Command.Call → Bool
  | .zfsUnsnap _ => true
  | .zfsMount _ _ => true
  | .zfsUnmount _ => true
  | _ => false

def onFiles : Command.Call → Bool
  | .imageChild _ _ => true
  | _ => false

section

variable (c : Command.Call) (s : World)

theorem effect_log : (effect s c).log = s.log := by cases c <;> rfl

theorem effect_nbd : (effect s c).nbd = s.nbd := by cases c <;> rfl

theorem effect_targets (h : onTargets c = false) : (effect s c).targets = s.targets := by
  cases c <;> first | rfl | exact absurd h (by simp [onTargets])

theorem effect_mtab (h : onMounts c = false) : (effect s c).mtab = s.mtab := by
  cases c <;> first | rfl | exact absurd h (by simp [onMounts])

theorem effect_files (h : onFiles c = false) : (effect s c).files = s.files := by
  cases c <;> first | rfl | exact absurd h (by simp [onFiles])

/-- A part of the world the command does not touch, whether or not it runs. -/
theorem call_part {α : Type} (part : World → α) (hrecord : ∀ e, part (s.record e) = part s)
    (heffect : ∀ s, part (effect s c) = part s) : part (call c s) = part s := by
  unfold call
  split
  · rw [heffect, hrecord]
  · exact hrecord _

theorem call_eq {α : Type} (part : World → α) (hrecord : ∀ e, part (s.record e) = part s) :
    part (call c s) = if accepts c then part (effect (s.record (.call c)) c) else part s := by
  rw [call, apply_ite part, hrecord]

theorem call_log : (call c s).log = s.log ++ [.call c] := by
  unfold call
  split
  · rw [effect_log]
    rfl
  · rfl

@[simp] theorem call_nbd : (call c s).nbd = s.nbd :=
  call_part c s World.nbd (fun _ => rfl) (effect_nbd c)

theorem call_targets (h : onTargets c = false) : (call c s).targets = s.targets :=
  call_part c s World.targets (fun _ => rfl) fun s => effect_targets c s h

theorem call_mtab (h : onMounts c = false) : (call c s).mtab = s.mtab :=
  call_part c s World.mtab (fun _ => rfl) fun s => effect_mtab c s h

theorem call_files (h : onFiles c = false) : (call c s).files = s.files :=
  call_part c s World.files (fun _ => rfl) fun s => effect_files c s h

end

/-! ## Device names -/

theorem toDigits_injective : Function.Injective (Nat.toDigits 10) :=
  Function.LeftInverse.injective (g := fun ds => Nat.ofDigitChars 10 ds 0) fun _ =>
    Nat.ofDigitChars_ten_toDigits

theorem devName_injective : Function.Injective Boot.devName := fun _ _ h =>
  toDigits_injective (List.append_cancel_left h)

theorem devPath_devName (i : ℕ) : Valid.devPath (.str (Boot.devName i)) = true := by
  have hdigits : Valid.digits (Nat.toDigits 10 i) = true := by
    rw [Valid.digits, Bool.and_eq_true, decide_eq_true_eq, List.all_eq_true]
    exact ⟨Nat.toDigits_ne_nil, fun c hc => Nat.isDigit_of_mem_toDigits (by omega) (by omega) hc⟩
  have hhead : "/dev/nbd".toList.isPrefixOf (Boot.devName i) = true :=
    List.isPrefixOf_iff_prefix.mpr (List.prefix_append _ _)
  have hboth : ("/dev/nbd".toList.isPrefixOf (Boot.devName i) &&
      Valid.digits ((Boot.devName i).drop 8)) = true := Bool.and_eq_true_iff.mpr ⟨hhead, hdigits⟩
  exact hboth

/-! ## What the control program reads -/

section

variable (env : Env) (s : World)

def isFile : Val → Bool
  | .str n => env.present n || s.files.contains n
  | _ => false

/-- `tgt.used` -/
def tgtUsed (name : Str) : Bool :=
  accepts (.tgtUsed (.str name)) && s.targets.any fun t => env.grep name t.2

/-- `nbd.used` -/
def nbdUsed (dev : Val) : Bool :=
  accepts (.nbdUsed dev) && s.holders.any (·.1 == tostring dev)

/-- `nbd.usewho` answers 1 for `qemu-nbd` and 2 for `tgtd`. -/
def usewho (dev : Val) : Option ℕ :=
  if accepts (.nbdUsewho dev) then
    (s.holders.find? (·.1 == tostring dev)).map fun h => if h.2.serves then 1 else 2
  else none

/-- `lsof` lists a process for an image file. -/
def World.uses (image : Str) : Bool :=
  s.holders.any (·.2 == .qemuNbd image) || s.held.contains image

/-- `image.used` -/
def imgUsed (image : Val) : Bool := accepts (.imageUsed image) && s.uses (tostring image)

/-- `search_nbd` -/
def searchNbd (cfg : Config) : Val :=
  ((List.range' 1 cfg.nbdNbds).find? fun i => !s.holders.any (·.1 == Boot.devName i)).elim
    (.bool false) fun i => .str (Boot.devName i)

/-- `getdev_nbd(getpid_nbd(image))`.  The two functions join everything `lsof` prints,
so they find nothing when several processes have the image open. -/
def nbdOf (image : Str) : Option Str :=
  if isFile env s (.str image) && Valid.safePath (.str image) && !s.held.contains image then
    match s.holders.filter (·.2 == .qemuNbd image) with
    | [h] => some h.1
    | _ => none
  else none

def Mount.line (m : Mount) : Str :=
  m.source ++ ' ' :: (m.point ++ (" zfs ".toList ++ (env.mountOptions ++ " 0 0\n".toList)))

def mtabText (mtab : List Mount) : Str := mtab.flatMap (Mount.line env)

/-- `zfs.mtab` takes its argument for a pattern. -/
def zfsMtab (args : Str) : Lua.Call Bool :=
  if accepts (.zfsMtab (.str args)) then Pattern.find (mtabText env s.mtab) args
  else .returned false

/-- `mkyboot.inc.lsof` on the port of a service -/
def lsofPort (port : Val) : Bool :=
  let pattern := "-t -i:".toList ++ tostring port
  pattern.length ≤ 256 && pattern.all (· ∉ metacharacters) && env.listens pattern

/-- `scCheck` -/
def scCheck (cfg : Config) : Bool :=
  lsofPort env cfg.dhcpPort && lsofPort env cfg.tftpPort && lsofPort env cfg.iscsiPort

end

/-- `image.delete` -/
def imgDelete (image : Val) (s : World) : World :=
  match image with
  | .str n => if Valid.safePath image then remove n s else s
  | _ => s

/-- `lsofkill` -/
def lsofkill (image : Val) (s : World) : World :=
  match image with
  | .str n => if Valid.safePath image then s.release n else s
  | _ => s

end Station
end Control
end MkyBoot
