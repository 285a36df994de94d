import MkyBoot.Control.Valid
import MkyBoot.Machine.Run

/-!
# Two workstations booting at once

A boot request ends with `nbdConnect` and `LunAdd`.  The first finds a network
block device for each image and connects the workstation's child image to it; the
second exports these devices in the workstation's iSCSI target.  Both work through
external commands, and requests of different workstations are served by different
workers, so the commands of two boots interleave in any order.

`Pc` names the points between two external commands.  `next` is what a worker
does with the answer of a command and `command` the change it asks the system
for.  `lsof` lists the device's holder, which is `qemu-nbd` and no other process:
`usewho` then never answers 2 and `nbdConnect` does not reach `tgtstop`, but the
branch is part of the machine.  Debug output is left out.

The services test of `tgtstart` and `tgtstop`, the existence of the device node
and the success of a command that is not decided by the state are the Boolean in
an input of the machine.
-/

namespace MkyBoot
namespace Control
namespace Boot

open Lua

abbrev Mac := { s : Str // Valid.mac (.str s) = true }

/-- `mac:gsub('%W', '')` -/
def Mac.vid (m : Mac) : Str := m.1.filter isWord

structure Img where
  path : Option Str
  enable : Val
  type : Val
  cache : Val

structure Workstation where
  mac : Mac
  enable : Val
  tid : Option ℕ
  img : List Img

structure Config where
  imgbackdir : Str
  imagePrefix : Str
  iqn : Str
  nbdNbds : ℕ

def on (v : Val) : Bool := tostring v == ['1']

namespace Img

def disk (v : Img) : Bool := v.type == .str "dyndisk".toList || v.type == .str "dynblock".toList

/-- `LunAdd` exports the image. -/
def exported (v : Img) : Bool := on v.enable && v.disk

/-- The tests of `nbdConnect`: `and` binds tighter than `or` in the second one. -/
def connects (v : Img) : Bool :=
  v.path.isSome && on v.enable &&
    (on v.enable && v.type == .str "dyndisk".toList || v.type == .str "dynblock".toList)

end Img

def Config.child (cfg : Config) (w : Workstation) (path : Str) : Str :=
  cfg.imgbackdir ++ '/' :: (path ++ (cfg.imagePrefix ++ w.mac.vid))

def Config.target (cfg : Config) (w : Workstation) : Str := cfg.iqn ++ ':' :: w.mac.vid

/-! ## The system -/

abbrev Dev := ℕ

def devName (d : Dev) : Str := "/dev/nbd".toList ++ Nat.toDigits 10 d

inductive Holder where
  | qemuNbd
  | tgtd
  | other
  deriving DecidableEq

structure World where
  /-- The image `qemu-nbd` serves on a device. -/
  conn : Dev → Option Str
  /-- Target names by target id. -/
  targets : AList (fun _ : ℕ => Str)
  /-- Devices by target id and LUN. -/
  luns : ℕ → ℕ → Option Dev

inductive Command where
  | skip
  | connect (d : Dev) (image : Str)
  | disconnect (d : Dev)
  | newTarget (t : ℕ) (name : Str)
  | killTarget (t : ℕ)
  | newLun (t lun : ℕ) (d : Dev)
  deriving DecidableEq

namespace World

def lsof (s : World) (d : Dev) : Option Holder := (s.conn d).map fun _ => .qemuNbd

/-- `tgt.used`: the name is in the list `tgtadm` prints. -/
def used (s : World) (name : Str) : Bool := s.targets.entries.any (·.2 == name)

/-- The effect of a command that the system lets succeed.  Connecting a connected
device, creating an existing target or LUN and a LUN of no target change nothing. -/
def apply (s : World) : Command → World
  | .skip => s
  | .connect d image =>
    if s.conn d = none then { s with conn := Function.update s.conn d (some image) } else s
  | .disconnect d => { s with conn := Function.update s.conn d none }
  | .newTarget t name =>
    if s.targets.lookup t = none then
      { s with
        targets := s.targets.insert t name
        luns := Function.update s.luns t fun _ => none }
    else s
  | .killTarget t =>
    { s with
      targets := s.targets.erase t
      luns := Function.update s.luns t fun _ => none }
  | .newLun t lun d =>
    if s.targets.lookup t ≠ none ∧ s.luns t lun = none then
      { s with luns := Function.update s.luns t (Function.update (s.luns t) lun (some d)) }
    else s

end World

/-! ## One worker -/

/-- Where a worker stands.  `k` is the number of the image, from zero. -/
inductive Pc where
  -- `nbdConnect`: `search_nbd` looks at device `i`
  | search (k : ℕ) (i : Dev)
  -- the loop on `nbd.used`, with the two commands of each `usewho`
  | test (k : ℕ)
  | tgtdPid (k : ℕ)
  | tgtdName (k : ℕ)
  | stopWait (k : ℕ)
  | stopServices (k : ℕ)
  | stopUsed (k : ℕ)
  | stopKill (k : ℕ)
  | qemuPid (k : ℕ)
  | qemuName (k : ℕ)
  | del (k : ℕ)
  -- the second loop, the last test and `nbd.add`
  | drain (k : ℕ)
  | last (k : ℕ)
  | add (k : ℕ)
  -- `LunAdd`: the loop on `tgt.used`, with `tgtstart`
  | await
  | startServices
  | startUsed
  | startNew
  | confirm
  | lun (k : ℕ)
  | done
  | raised
  deriving DecidableEq

structure Worker where
  pc : Pc
  /-- `v.nbd` of each image, `none` when `search_nbd` has returned false. -/
  nbd : ℕ → Option Dev

section

variable (cfg : Config) (w : Workstation)

/-- The first image from number `k` on, or `LunAdd` when there is none. -/
def image (k : ℕ) : Pc := if k < w.img.length then .search k 1 else .await

def boot : Worker := { pc := image w 0, nbd := fun _ => none }

def Worker.lsof (p : Worker) (s : World) (k : ℕ) : Option Holder := (p.nbd k).bind s.lsof

/-- The point a worker goes to from the answer of the command at `pc`. -/
def goto (s : World) (ok : Bool) (p : Worker) : Pc :=
  match p.pc with
  | .search k i =>
    if i ≤ cfg.nbdNbds then if s.lsof i = none then .test k else .search k (i + 1) else .test k
  | .test k => if p.lsof s k = none then .drain k else .tgtdPid k
  | .tgtdPid k => if p.lsof s k = none then .qemuPid k else .tgtdName k
  | .tgtdName k => if p.lsof s k = some .tgtd then .stopWait k else .qemuPid k
  | .stopWait k => if s.used (cfg.target w) then .stopServices k else .test k
  | .stopServices k => if ok then .stopUsed k else .stopWait k
  | .stopUsed k => if s.used (cfg.target w) then .stopKill k else .stopWait k
  | .stopKill k => .stopWait k
  | .qemuPid k => if p.lsof s k = none then .test k else .qemuName k
  | .qemuName k => if p.lsof s k = some .qemuNbd then .del k else .test k
  | .del k => .test k
  | .drain k => if p.lsof s k = none then .last k else .drain k
  | .last k =>
    if p.lsof s k = none ∧ (w.img[k]?).any Img.connects then .add k else image w (k + 1)
  | .add k => image w (k + 1)
  | .await => if s.used (cfg.target w) then .confirm else .startServices
  | .startServices => if ok then .startUsed else .await
  | .startUsed => if !s.used (cfg.target w) && on w.enable then .startNew else .await
  | .startNew => .await
  | .confirm => if s.used (cfg.target w) then .lun 0 else .done
  | .lun k =>
    match w.img[k]? with
    | none => .done
    | some v =>
      -- `isFile(false)` raises, and so does the path of an ISO image without one
      if v.exported && w.tid.isSome && (p.nbd k).isNone then .raised
      else if on v.enable && v.type == .str "iso".toList && v.path.isNone then .raised
      else .lun (k + 1)
  | .done => .done
  | .raised => .raised

/-- `v.nbd` is written by `search_nbd` only. -/
def remember (s : World) (p : Worker) : ℕ → Option Dev :=
  match p.pc with
  | .search k i =>
    if i ≤ cfg.nbdNbds then if s.lsof i = none then Function.update p.nbd k (some i) else p.nbd
    else Function.update p.nbd k none
  | _ => p.nbd

def next (s : World) (ok : Bool) (p : Worker) : Worker :=
  { pc := goto cfg w s ok p, nbd := remember cfg s p }

def tidVal : Val := w.tid.elim .nil fun t => .num t

/-- `nbd.add`, which passes on what its validators accept. -/
def nbdAdd (d : Dev) (path : Str) (flags : Val) : Command :=
  if Valid.devPath (.str (devName d)) && Valid.safePath (.str path) && Valid.cacheMode flags then
    .connect d path
  else .skip

def nbdDel (d : Dev) : Command := if Valid.devPath (.str (devName d)) then .disconnect d else .skip

def tgtNew (t : ℕ) : Command :=
  if Valid.tid (tidVal w) && Valid.iqn (.str (cfg.target w)) then .newTarget t (cfg.target w)
  else .skip

def tgtKill (t : ℕ) : Command := if Valid.tid (tidVal w) then .killTarget t else .skip

/-- `lun.add` for a device; for an ISO image the `-Y cd` in the path is rejected. -/
def lunAdd (t k : ℕ) (d : Dev) : Command :=
  if Valid.tid (tidVal w) && Valid.lunId (.num (k + 1 : ℕ)) && Valid.devPath (.str (devName d)) then
    .newLun t (k + 1) d
  else .skip

/-- The change the worker asks for at its point. -/
def command (p : Worker) : Command :=
  match p.pc with
  | .del k => (p.nbd k).elim .skip nbdDel
  | .add k =>
    match p.nbd k, w.img[k]? with
    | some d, some v => v.path.elim .skip fun path => nbdAdd d (cfg.child w path) v.cache
    | _, _ => .skip
  | .stopKill _ => w.tid.elim .skip (tgtKill w)
  | .startNew => w.tid.elim .skip (tgtNew cfg w)
  | .lun k =>
    match w.tid, p.nbd k, w.img[k]? with
    | some t, some d, some v => if v.exported then lunAdd w t k d else .skip
    | _, _, _ => .skip
  | _ => .skip

end

/-! ## Both workers -/

inductive Who where
  | a
  | b
  deriving DecidableEq

def Who.other : Who → Who
  | .a => .b
  | .b => .a

structure State where
  world : World
  worker : Who → Worker

/-- One external command of one worker, and whether the system lets it succeed. -/
structure Turn where
  who : Who
  ok : Bool

def step (cfg : Config) (ws : Who → Workstation) (st : State) (i : Turn) : State :=
  let p := st.worker i.who
  { world := if i.ok then st.world.apply (command cfg (ws i.who) p) else st.world
    worker := Function.update st.worker i.who (next cfg (ws i.who) st.world i.ok p) }

end Boot
end Control
end MkyBoot
