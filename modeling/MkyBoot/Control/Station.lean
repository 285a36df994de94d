import MkyBoot.Control.System
import MkyBoot.Lua.Program

/-!
# Booting one workstation

The functions a boot request runs through once it has printed its script: `tgtstop`,
`nbdFree`, `zfsmount`, `mkChild`, `nbdConnect` and `LunAdd`.  Those that poll the
system are programs, the others plain functions of the world.

`pairs` and `ipairs` visit the images of a workstation in their order, with numbers
from one.  `monit`, which starts services, and the pauses between two polls change
nothing here.  Of the script only the lines that name a LUN are kept, and what is printed
apart from it is left out.
-/

namespace MkyBoot
namespace Control
namespace Station

open Lua Command

/-! ## Names -/

section

variable (cfg : Config) (w : Workstation)

/-- `mac:gsub('%W', '')` -/
def vid : Str := w.mac.filter isWord

def target : Str := cfg.iqn ++ ':' :: vid w

def child (v : Image) : Str := cfg.imgbackdir ++ '/' :: (v.path ++ (cfg.imagePrefix ++ vid w))

/-- `l_lockf` for image number `i` -/
def lockf (i : ℕ) : Str := cfg.lockfile ++ (Nat.toDigits 10 i ++ vid w)

def zpoint : Str := cfg.mpoint ++ '/' :: vid w

def zdest : Str := cfg.dpoint ++ vid w

/-- The snapshot of the volume of an image. -/
def zvol (v : Image) : Str :=
  cfg.snadev ++ '/' :: (v.path ++ '@' :: (cfg.tmpname ++ '_' :: vid w))

end

def off (v : Val) : Bool := tostring v == ['0']

namespace Image

variable (v : Image)

def dyndisk : Bool := v.type == .str "dyndisk".toList

def dynblock : Bool := v.type == .str "dynblock".toList

def iso : Bool := v.type == .str "iso".toList

end Image

/-! ## The iPXE script -/

inductive RootVar where
  | rootPath
  | root0
  | root1

/-- A line of the script that names a LUN. -/
structure Root where
  var : RootVar
  lun : ℕ

/-- The lines for image number `l_num`. -/
def imageRoots (e : Image × ℕ) : List Root :=
  let boot := tostring e.1.boot
  (if boot = ['1'] then [⟨.rootPath, e.2⟩] else []) ++
    (if boot = ['2'] then [⟨.root0, e.2⟩] else []) ++
    if boot = ['3'] then [⟨.root1, e.2⟩] else []

def roots (w : Workstation) : List Root := (w.img.zipIdx 1).flatMap imageRoots

section

variable (env : Env) (cfg : Config) (w : Workstation)

/-! ## Targets -/

def tgtstop (s : World) : World :=
  if scCheck env cfg && tgtUsed env s (target cfg w) then call (.tgtKill w.tid) s else s

/-- The log line of `tgtstart` concatenates the target's number. -/
def concatenates : Val → Bool
  | .num _ => true
  | .str _ => true
  | _ => false

def tgtstart (s : World) : Lua.Call World :=
  if scCheck env cfg && !tgtUsed env s (target cfg w) && Boot.on w.enable then
    if concatenates w.tid then
      .returned (call (.tgtRules w.tid (.str w.ipv4))
        (call (.tgtNew (.str (target cfg w)) w.tid) s))
    else .raised
  else .returned s

/-! ## Devices -/

def setNbd (i : ℕ) (v : Val) (s : World) : World := { s with nbd := Function.update s.nbd i v }

def nbdFreeImage (s : World) (e : Image × ℕ) : World :=
  match nbdOf env s (child cfg w e.1) with
  | some d => call (.nbdDel (.str d)) (tgtstop env cfg w (setNbd e.2 (.str d) s))
  | none => setNbd e.2 .nil s

def nbdFree (s : World) : World := (w.img.zipIdx 1).foldl (nbdFreeImage env cfg w) s

/-- The tests of `nbdConnect`: `and` binds tighter than `or` in the second one. -/
def Image.connects (v : Image) : Bool :=
  Boot.on v.enable && (Boot.on v.enable && v.dyndisk || v.dynblock)

def nbdConnectImage (e : Image × ℕ) : Prog World :=
  .seq (.set fun s => setNbd e.2 (searchNbd s cfg) s) <|
  .seq (.poll (fun s => .returned (nbdUsed s (s.nbd e.2))) <|
    .cond (fun s => usewho s (s.nbd e.2) = some 2)
      (.poll (fun s => .returned (tgtUsed env s (target cfg w))) (.set (tgtstop env cfg w))) <|
    .cond (fun s => usewho s (s.nbd e.2) = some 1)
      (.set fun s => call (.nbdDel (s.nbd e.2)) s) .skip) <|
  .seq (.poll (fun s => .returned (nbdUsed s (s.nbd e.2))) .skip) <|
  .cond (fun s => !nbdUsed s (s.nbd e.2) && e.1.connects)
    (.set fun s => call (.nbdAdd (s.nbd e.2) (.str (child cfg w e.1)) e.1.cache) s) .skip

def nbdConnect : Prog World := .each (w.img.zipIdx 1) (nbdConnectImage env cfg w)

/-! ## Snapshots -/

def mountMissing (s : World) : Lua.Call Bool :=
  match zfsMtab env s (zdest cfg w) with
  | .raised => .raised
  | .returned found => .returned !found

def remount (s : World) : World :=
  call (.zfsMount (.str (zdest cfg w)) (.str (zpoint cfg w)))
    (call (.zfsSnap (.str (zdest cfg w))) s)

def snapVolume (s : World) (v : Image) : World :=
  if Boot.on v.enable && v.dynblock then
    call (.zfsSnap (.str (zvol cfg w v))) (call (.zfsUnsnap (.str (zvol cfg w v))) s)
  else s

def zfsmount : Prog World :=
  .seq (.set fun s =>
    call (.zfsUnsnap (.str (zdest cfg w))) (call (.zfsUnmount (.str (zpoint cfg w)))
      (nbdFree env cfg w s))) <|
  .seq (.poll (mountMissing env cfg w) (.set (remount cfg w))) <|
  .set fun s => w.img.foldl (snapVolume cfg w) s

/-! ## Children -/

/-- `p_parrent` and `p_child`, which live through the whole loop over the images. -/
structure Vars where
  parent : Val
  child : Val
  deriving DecidableEq

def Vars.unset : Vars := ⟨.nil, .nil⟩

/-- The four tests on super mode and commit, one after the other. -/
def chooseParent (v : Image) (master snapshot : Str) (vars : Vars) : Vars :=
  let c : Val := .str (child cfg w v)
  let vars := if Boot.on w.supper && Boot.on v.commit then ⟨.str master, c⟩ else vars
  let vars := if off w.supper && off v.commit then ⟨.str snapshot, c⟩ else vars
  let vars := if off w.supper && Boot.on v.commit then ⟨.str snapshot, c⟩ else vars
  if Boot.on w.supper && off v.commit then ⟨.str snapshot, c⟩ else vars

def diskMaster (v : Image) : Str := cfg.imgdir ++ '/' :: v.path

def diskSnapshot (v : Image) : Str :=
  cfg.imgdir ++ '/' :: (cfg.tmpname ++ '/' :: (vid w ++ '/' :: v.path))

def blockMaster (v : Image) : Str := cfg.devpoint ++ '/' :: v.path

def blockSnapshot (v : Image) : Str :=
  cfg.devpoint ++ '/' :: (v.path ++ '@' :: (cfg.tmpname ++ '_' :: vid w))

def findParent (vars : Vars) (v : Image) : Vars :=
  if Boot.on w.enable && Boot.on v.enable && v.dyndisk then
    chooseParent cfg w v (diskMaster cfg v) (diskSnapshot cfg w v) vars
  else if Boot.on w.enable && Boot.on v.enable && v.dynblock then
    chooseParent cfg w v (blockMaster cfg v) (blockSnapshot cfg w v) vars
  else vars

/-- The round of an image creates a child and unsets the variables. -/
def creates (v : Image) : Bool := Boot.on w.enable && Boot.on v.enable && !v.iso

def nextVars (vars : Vars) (v : Image) : Vars :=
  if creates w v then .unset else findParent cfg w vars v

/-- The variables before the round of image number `i`. -/
def varsAt (i : ℕ) : Vars := (w.img.take (i - 1)).foldl (nextVars cfg w) .unset

/-- Kill the users of a child until there are none, and delete it. -/
def freeChild (c : Val) : Prog World :=
  .seq (.poll (fun s => .returned (imgUsed s c)) (.set (lsofkill c))) (.set (imgDelete c))

def createChild (i : ℕ) (v : Image) (vars : Vars) : Prog World :=
  let lock := lockf cfg w i
  let super := Boot.on w.enable && Boot.on w.supper && Boot.on v.enable && Boot.on v.commit
  .cond (fun s => super && !isFile env s (.str lock) && isFile env s vars.child)
    (.seq (freeChild vars.child)
      (.set fun s => create lock (call (.imageChild vars.parent vars.child) s))) <|
  .cond (fun s => super && !isFile env s (.str lock) && !isFile env s vars.child)
    (.set fun s => call (.imageChild vars.parent vars.child) (create lock s)) <|
  .cond (fun s => super && isFile env s (.str lock) && isFile env s vars.child)
    (.set (create lock)) <|
  .seq (.cond (fun s => isFile env s vars.child)
    (.seq (freeChild vars.child)
      (.set fun s => if isFile env s (.str lock) then remove lock s else s)) .skip) <|
  if vars.parent ≠ .nil ∧ vars.child ≠ .nil then
    .seq (.poll (fun s => .returned !isFile env s vars.parent) .skip)
      (.set (call (.imageChild vars.parent vars.child)))
  else .skip

/-- The round of image number `i`. -/
def mkImage (e : Image × ℕ) : Prog World :=
  if creates w e.1 then createChild env cfg w e.2 e.1 (findParent cfg w (varsAt cfg w e.2) e.1)
  else .skip

def mkChild : Prog World :=
  if Boot.on w.enable then .each (w.img.zipIdx 1) (mkImage env cfg w) else .skip

/-! ## LUNs -/

def isoFile (v : Image) : Str := cfg.imgisodir ++ '/' :: v.path

/-- The round of image number `i` in `LunAdd`.  `isFile` raises on the `false` of a
search that has found no device. -/
def lunImage (e : Image × ℕ) (s : World) : Lua.Call World :=
  if Boot.on e.1.enable && (e.1.dyndisk || e.1.dynblock) && w.tid ≠ .nil then
    match s.nbd e.2 with
    | .bool _ => .raised
    | d => .returned (if isFile env s d then call (.lunAdd w.tid (.num e.2) d) s else s)
  else if Boot.on e.1.enable && e.1.iso && w.tid ≠ .nil &&
      isFile env s (.str (isoFile cfg e.1)) then
    .returned (call (.lunAdd w.tid (.num e.2) (.str (isoFile cfg e.1 ++ " -Y cd".toList))) s)
  else .returned s

def lunAdd : Prog World :=
  .seq (.poll (fun s => .returned !tgtUsed env s (target cfg w)) (.act (tgtstart env cfg w))) <|
  .cond (fun s => tgtUsed env s (target cfg w))
    (.each (w.img.zipIdx 1) fun e => .act (lunImage env cfg w e)) .skip

/-! ## The boot branch

Both arms of its test on super mode are the same. -/

def boot : Prog World :=
  .seq (.set fun s => nbdFree env cfg w (tgtstop env cfg w s)) <|
  .seq (zfsmount env cfg w) <|
  .seq (mkChild env cfg w) <|
  .seq (nbdConnect env cfg w) (lunAdd env cfg w)

end

/-! ## An installation

The shipped configuration on an idle server, and workstations with images of it. -/

def shipped : Config where
  imgdir := "/srv/images/boot".toList
  imgbackdir := "/srv/writeback".toList
  imgisodir := "/srv/images/iso".toList
  imagePrefix := "_child_".toList
  lockfile := "/var/lock/mkyboot_lock_".toList
  nbdNbds := 20
  tmpname := "snap".toList
  dpoint := "mkyboot0/images/boot@snap_".toList
  mpoint := "/srv/images/boot/snap".toList
  devpoint := "/dev/zvol/mkyboot0/images/storages".toList
  snadev := "mkyboot0/images/storages".toList
  iqn := "2020-02-10.com.mkyboot".toList
  iscsiPort := .num 3260
  dhcpPort := .num 67
  tftpPort := .num 69

def windows : Image where
  path := "win10cc.qcow2".toList
  enable := .num 1
  commit := .num 0
  type := .str "dyndisk".toList
  boot := .num 1
  cache := .str "unsafe".toList

def games : Image where
  path := "games.qcow2".toList
  enable := .num 1
  commit := .num 0
  type := .str "dyndisk".toList
  boot := .num 2
  cache := .str "writeback".toList

def installer : Image where
  path := "Win10_2004_Russian_x64.iso".toList
  enable := .num 1
  commit := .num 0
  type := .str "iso".toList
  boot := .num 0
  cache := .str "unsafe".toList

def station (img : List Image) : Workstation where
  mac := "b4:2e:99:2c:dd:df".toList
  ipv4 := "192.168.0.4".toList
  enable := .num 1
  supper := .num 0
  tid := .num 2
  img := img

/-- The device nodes and the ISO image exist. -/
def lab : Env where
  present := fun n => Valid.devPath (.str n) || n == isoFile shipped installer
  listens := fun _ => true
  grep := fun name line => name == line
  grep_self := fun _ _ => beq_self_eq_true _
  mountOptions := "ro,relatime".toList

def idle : World where
  targets := []
  holders := []
  held := []
  files := ["/srv/writeback/win10cc.qcow2_child_b42e992cdddf".toList]
  mtab := []
  nbd := fun _ => .nil
  log := []

end Station
end Control
end MkyBoot
