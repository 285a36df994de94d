import MkyBoot.Server.Atomic
import MkyBoot.Server.Invariant

/-!
# The store on a disk

The other modules save the state in one step: `persistLocked` succeeds, or it fails and
leaves the file.  Here the operations of `atomicWriteFile` run on a disk, the process may
be killed between any two of them, and power may be lost.  `crash_refines` says that this
shows no behaviour that the store with one step does not have: a call that is cut short is
one that has failed, or one that has succeeded, before a restart, and a loss of power also
takes the store back to an earlier point of its run.
-/

namespace MkyBoot
namespace Server

open Go Posix Machine

/-- The operations of a call of `atomicWriteFile`, one for each answer. -/
def saveStep (x : Disk (Name Unit) × Save Unit) (a : Answer) : Disk (Name Unit) × Save Unit :=
  ((x.2.next x.1 a).1, { x.2 with phase := (x.2.next x.1 a).2 })

def save (d : Disk (Name Unit)) (data : List Char) (answers : List Answer) :
    Disk (Name Unit) × Save Unit :=
  run saveStep (d, ⟨(), data, .mkdirAll⟩) answers

/-- `encoding/json` on the text of the state.  `MarshalIndent` fails on a time that it cannot
write; what it does write is read back, except that invalid UTF-8 in the free texts is
replaced. -/
structure StateCodec where
  marshal : Doc → Option (List Char)
  unmarshal : List Char → Option Decoded
  coerce : Str → Str
  unmarshal_marshal : ∀ d text, marshal d = some text → unmarshal text = some
    { clients := some (d.clients.map fun _ c => { c with name := coerce c.name })
      states := some (d.states.map fun _ st => { st with lockReason := coerce st.lockReason }) }
  marshal_ne_nil : ∀ d, marshal d ≠ some []
  coerce_nil : coerce [] = []

/-- Memory, and the disk with the state file. -/
structure Running where
  memory : State
  disk : Disk (Name Unit)

/-- What happens to a server.  A call that is not at its end after the answers is killed
there, and the server is started again. -/
inductive Moment where
  | call (c : Call) (answers : List Answer) (order : Order Str Client)
  | restart (order : Order Str Client)
  | powerLoss (choice : ℕ) (garbage : ℕ → List Char) (order : Order Str Client)

namespace Running

def init : Running := ⟨.empty, ⟨[], fun _ => none, []⟩⟩

def fileData (s : Running) : FileData (List Char) :=
  match s.disk.read (.file ()) with
  | none => .missing
  | some text => .data text

/-- The error of `persistLocked` takes the place of the reply. -/
def replyTo (reply : Reply) : Option Fault → Reply
  | none => reply
  | some f => .error (.persist f)

variable (codec : StateCodec)

/-- A new process on the disk. -/
def reload (s : Running) (order : Order Str Client) : Running :=
  match readState List.isEmpty codec.unmarshal order s.fileData with
  | some m => { s with memory := m }
  | none => s

/-- The end of a call that has changed memory; no reply where the call is killed. -/
def persist (s : Running) (reply : Reply) (answers : List Answer) (order : Order Str Client) :
    Option Reply × Running :=
  match codec.marshal s.memory.toDoc with
  | none => (some (replyTo reply (some .marshal)), s)
  | some data =>
    let x := save s.disk data answers
    match x.2.phase with
    | .returned err => (some (replyTo reply err), ⟨s.memory, x.1⟩)
    | _ => (none, reload codec ⟨s.memory, x.1⟩ order)

def exec (s : Running) : Moment → Option Reply × Running
  | .call c answers order =>
    match c.attempt s.memory with
    | .stops reply m => (some reply, { s with memory := m })
    | .persists reply m => persist codec { s with memory := m } reply answers order
  | .restart order => (none, reload codec s order)
  | .powerLoss choice garbage order =>
    (none, reload codec { s with disk := s.disk.powerLoss choice garbage } order)

def step (s : Running) (m : Moment) : Running := (exec codec s m).2

end Running

/-! ## A save -/

/-- The rename has been made. -/
def Phase.renamed : Phase → Bool
  | .remove _ none | .returned none => true
  | _ => false

/-- A save between two operations: until the rename the file is as it was, and then it has
the data. -/
structure Saving (P : List Char → Prop) (old : Option (List Char)) (data : List Char)
    (x : Disk (Name Unit) × Save Unit) : Prop where
  same : x.2.data = data
  save : SaveInv x.1 x.2
  before : x.2.phase.renamed = false → DiskInv (fun _ => P) x.1 ∧ x.1.read (.file ()) = old
  after : x.2.phase.renamed = true →
    DiskInv (fun _ t => P t ∨ t = data) x.1 ∧ x.1.read (.file ()) = some data

/-- Only the rename changes the file. -/
theorem read_next {P : List Char → Prop} {d : Disk (Name Unit)} {v : Save Unit}
    (hd : DiskInv (fun _ => P) d) (hv : SaveInv d v) {a : Answer}
    (hnot : ∀ i, v.phase = .rename i → a.ok = false) :
    (v.next d a).1.read (.file ()) = d.read (.file ()) := by
  obtain ⟨path, data, phase⟩ := v
  obtain ⟨ok, taken⟩ := a
  cases phase with
  | mkdirAll => rfl
  | createTemp =>
    cases ok with
    | false => rfl
    | true => exact (hd.settled ()).read_create (by simp)
  | write i rest => exact Disk.read_write ((hv.draft i rest false rfl).apart ()) _
  | sync i =>
    cases ok with
    | false => rfl
    | true => exact Disk.read_fsync ((hv.draft i [] false rfl).apart ())
  | close i | chmod i | restrict i => rfl
  | rename i =>
    obtain rfl : ok = false := hnot i rfl
    rfl
  | remove i err =>
    cases ok with
    | false => rfl
    | true => exact Disk.read_remove (by simp)
  | returned err => rfl

/-- An operation is the rename, or the rename has been made before it exactly if it has
been made after it. -/
theorem next_cases (v : Save Unit) (d : Disk (Name Unit)) (a : Answer) :
    (∃ i, v.phase = .rename i ∧ v.next d a = (d.rename (.temp i) (.file v.path), .remove i none)) ∨
      ((v.next d a).2.renamed = v.phase.renamed ∧ ∀ i, v.phase = .rename i → a.ok = false) := by
  obtain ⟨path, data, phase⟩ := v
  obtain ⟨ok, taken⟩ := a
  cases phase with
  | mkdirAll | createTemp => cases ok <;> exact Or.inr ⟨rfl, fun i h => by cases h⟩
  | write i rest =>
    refine Or.inr ⟨?_, fun i h => by cases h⟩
    cases ok with
    | false => rfl
    | true =>
      show Phase.renamed (if rest.drop taken = [] then .sync i else .write i (rest.drop taken)) = _
      by_cases h : rest.drop taken = []
      · rw [if_pos h]
        rfl
      · rw [if_neg h]
        rfl
  | sync i | close i | chmod i | restrict i =>
    cases ok <;> exact Or.inr ⟨rfl, fun i h => by cases h⟩
  | rename i =>
    cases ok with
    | false => exact Or.inr ⟨rfl, fun _ _ => rfl⟩
    | true => exact Or.inl ⟨i, rfl, rfl⟩
  | remove i err => cases err <;> exact Or.inr ⟨rfl, fun i h => by cases h⟩
  | returned err => exact Or.inr ⟨rfl, fun i h => by cases h⟩

theorem Saving.step {P : List Char → Prop} {old : Option (List Char)} {data : List Char}
    {x : Disk (Name Unit) × Save Unit} (h : Saving P old data x) (a : Answer) :
    Saving P old data (saveStep x a) := by
  obtain ⟨d, v⟩ := x
  obtain rfl : v.data = data := h.same
  rcases next_cases v d a with ⟨i, hphase, hnext⟩ | ⟨hrenamed, hnot⟩
  · -- the rename
    obtain ⟨hd, -⟩ := h.before (by rw [hphase]; rfl)
    have hdraft : Drafted d i v.data [] true := h.save.draft i [] true (by rw [hphase]; rfl)
    obtain ⟨x, hx, htext, -⟩ := hdraft.inode
    have hd : DiskInv (fun _ t => P t ∨ t = v.data) d := hd.mono fun _ t ht => Or.inl ht
    have hadv := next_advances hd h.save (a := a) fun _ _ _ => Or.inr rfl
    rw [hnext] at hadv
    refine ⟨rfl, ⟨?_, ?_⟩, ?_, ?_⟩
    · show ∀ i rest b, (v.next d a).2.pending = _ → Drafted (v.next d a).1 i v.data rest b
      rw [hnext]
      exact hadv.draft
    · show ∀ i, (v.next d a).2.temp = some i → i < (v.next d a).1.inodes.length
      rw [hnext]
      exact hadv.bound
    · intro hfalse
      have htrue : (v.next d a).2.renamed = true := by rw [hnext]; rfl
      exact absurd (htrue.symm.trans hfalse) (by simp)
    · intro _
      show DiskInv _ (v.next d a).1 ∧ (v.next d a).1.read _ = _
      rw [hnext]
      refine ⟨hadv.inv, ?_⟩
      rw [List.append_nil] at htext
      rw [← htext]
      exact Disk.read_rename hdraft.name hx
  · have hsave (Q : List Char → Prop) (hd : DiskInv (fun _ => Q) d) :
        Advances (fun _ => Q) v d (v.next d a).1 (v.next d a).2 := by
      refine next_advances hd h.save fun i hi hok => ?_
      rw [hnot i hi] at hok
      cases hok
    cases hr : v.phase.renamed with
    | false =>
      obtain ⟨hd, hread⟩ := h.before hr
      have hadv := hsave P hd
      refine ⟨rfl, ⟨hadv.draft, hadv.bound⟩, fun _ => ⟨hadv.inv, ?_⟩, fun htrue => ?_⟩
      · exact (read_next hd h.save hnot).trans hread
      · exact absurd (htrue.symm.trans (hrenamed.trans hr)) (by simp)
    | true =>
      obtain ⟨hd, hread⟩ := h.after hr
      have hadv := hsave (fun t => P t ∨ t = v.data) hd
      refine ⟨rfl, ⟨hadv.draft, hadv.bound⟩, fun hfalse => ?_, fun _ => ⟨hadv.inv, ?_⟩⟩
      · exact absurd (hfalse.symm.trans (hrenamed.trans hr)) (by simp)
      · exact (read_next hd h.save hnot).trans hread

theorem saving_save {P : List Char → Prop} {d : Disk (Name Unit)} (hd : DiskInv (fun _ => P) d)
    (data : List Char) (answers : List Answer) :
    Saving P (d.read (.file ())) data (save d data answers) := by
  refine inv_run (P := fun _ _ => True) (fun x a hx _ => hx.step a) ?_
    (along_of_forall _ _ fun _ _ => trivial)
  exact ⟨rfl, ⟨fun i rest b hp => (by cases hp), fun i hi => (by cases hi)⟩, fun _ => ⟨hd, rfl⟩,
    fun htrue => (by cases htrue)⟩

theorem fileData_of_read {s : Running} {text : List Char}
    (h : s.disk.read (.file ()) = some text) : s.fileData = .data text := by
  rw [Running.fileData, h]

theorem disk_reload {codec : StateCodec} (s : Running) (order : Order Str Client) :
    (s.reload codec order).disk = s.disk := by
  rw [Running.reload]
  cases readState List.isEmpty codec.unmarshal order s.fileData <;> rfl

theorem disk_powerLoss (codec : StateCodec) (s : Running) (choice : ℕ) (garbage : ℕ → List Char)
    (order : Order Str Client) :
    (s.step codec (.powerLoss choice garbage order)).disk = s.disk.powerLoss choice garbage :=
  disk_reload _ order

/-- The answers of operations that all succeed. -/
def smooth (n : ℕ) : List Answer :=
  [⟨true, 0⟩, ⟨true, 0⟩, ⟨true, n⟩] ++ List.replicate 6 ⟨true, 0⟩

theorem save_smooth (d : Disk (Name Unit)) {data : List Char} {n : ℕ} (h : data.length ≤ n) :
    (save d data (smooth n)).2.phase = .returned none := by
  have hdrop : data.drop n = [] := List.drop_eq_nil_of_le h
  simp [save, smooth, run, saveStep, Save.next, hdrop, List.replicate]

/-- A save that has written some of its data. -/
theorem pending_save_write (d : Disk (Name Unit)) (data : List Char) (n : ℕ) :
    (save d data [⟨true, 0⟩, ⟨true, 0⟩, ⟨true, n⟩]).2.phase.pending.isSome = true := by
  by_cases h : data.drop n = []
  · simp [save, run, saveStep, Save.next, h, Phase.pending]
  · simp [save, run, saveStep, Save.next, h, Phase.pending]

/-- A call whose operations all succeed gives its reply, and its text is in the file. -/
theorem exec_smooth (codec : StateCodec) {P : List Char → Prop} {s : Running}
    (hd : DiskInv (fun _ => P) s.disk) {c : Call} {reply : Reply} {m : State}
    (hattempt : c.attempt s.memory = .persists reply m) {text : List Char}
    (hmarshal : codec.marshal m.toDoc = some text) {n : ℕ} (hn : text.length ≤ n)
    (order : Order Str Client) :
    ∃ d, s.exec codec (.call c (smooth n) order) = (some reply, ⟨m, d⟩) ∧
      DiskInv (fun _ t => P t ∨ t = text) d ∧ d.read (.file ()) = some text := by
  have hphase := save_smooth s.disk hn
  obtain ⟨hinv, hread⟩ := (saving_save hd text (smooth n)).after (by rw [hphase]; rfl)
  refine ⟨_, ?_, hinv, hread⟩
  rw [Running.exec, hattempt]
  dsimp only
  rw [Running.persist, hmarshal]
  dsimp only
  rw [hphase]
  rfl

/-- A call that is killed before the rename leaves the file. -/
theorem read_killed (codec : StateCodec) {P : List Char → Prop} {s : Running}
    (hd : DiskInv (fun _ => P) s.disk) {c : Call} {reply : Reply} {m : State}
    (hattempt : c.attempt s.memory = .persists reply m) {text : List Char}
    (hmarshal : codec.marshal m.toDoc = some text) {answers : List Answer}
    (hopen : (save s.disk text answers).2.phase.pending.isSome = true)
    (order : Order Str Client) :
    DiskInv (fun _ => P) (s.step codec (.call c answers order)).disk ∧
      (s.step codec (.call c answers order)).disk.read (.file ()) = s.disk.read (.file ()) := by
  have hsaving := saving_save hd text answers
  generalize hx : save s.disk text answers = x at hopen hsaving
  obtain ⟨hrenamed, hstep⟩ : x.2.phase.renamed = false ∧
      s.step codec (.call c answers order) = Running.reload codec ⟨m, x.1⟩ order := by
    rw [Running.step, Running.exec, hattempt]
    dsimp only
    rw [Running.persist, hmarshal]
    dsimp only
    rw [hx]
    cases hphase : x.2.phase with
    | mkdirAll | createTemp | remove | returned =>
      rw [hphase] at hopen
      cases hopen
    | _ => exact ⟨rfl, rfl⟩
  rw [hstep, disk_reload]
  exact hsaving.before hrenamed

/-! ## The store with one step

Its file holds the document itself, and the file on the disk the text of it. -/

section Refinement

/-- The store that keeps documents, with what `encoding/json` does to their texts. -/
def StateCodec.docs (codec : StateCodec) : Json Doc where
  marshal := id
  unmarshal := fun d => some
    { clients := some (d.clients.map fun _ c => { c with name := codec.coerce c.name })
      states := some (d.states.map fun _ st =>
        { st with lockReason := codec.coerce st.lockReason }) }
  isEmpty := fun _ => false
  coerce := codec.coerce
  unmarshal_marshal := fun _ => rfl
  marshal_ne_empty := fun _ => rfl
  coerce_nil := codec.coerce_nil

/-- The two have the same memory, and the file on the disk is the text of the document. -/
structure Shows (codec : StateCodec) (p : Process Doc) (s : Running) : Prop where
  memory : p.memory = s.memory
  file : p.file.map codec.marshal = (s.disk.read (.file ())).map some

variable {codec : StateCodec}

/-- The text of a document is read as the store with one step reads the document. -/
theorem readState_marshal {d : Doc} {text : List Char} (h : codec.marshal d = some text)
    (order : Order Str Client) :
    readState List.isEmpty codec.unmarshal order (.data text) =
      newState codec.docs order (.data d) := by
  have hfull : text.isEmpty = false := by
    cases text with
    | nil => exact absurd h (codec.marshal_ne_nil d)
    | cons c cs => rfl
  rw [readState, hfull, if_neg Bool.false_ne_true, codec.unmarshal_marshal d text h]
  rfl

/-- The memory that is lost does not matter to the new process. -/
theorem shows_reload {p : Process Doc} {s : Running}
    (hfile : p.file.map codec.marshal = (s.disk.read (.file ())).map some)
    (order : Order Str Client) :
    Shows codec (restart codec.docs p order) (s.reload codec order) := by
  have hnew : ∃ m, newState codec.docs order p.fileData = some m ∧
      readState List.isEmpty codec.unmarshal order s.fileData = some m := by
    rw [Process.fileData, Running.fileData]
    cases hread : s.disk.read (.file ()) with
    | none =>
      rw [hread] at hfile
      rw [Option.map_eq_none_iff.mp hfile]
      exact ⟨.empty, rfl, rfl⟩
    | some text =>
      rw [hread] at hfile
      obtain ⟨d, hd, hmarshal⟩ := Option.map_eq_some_iff.mp hfile
      rw [hd]
      exact ⟨_, rfl, readState_marshal hmarshal order⟩
  obtain ⟨m, hnew, hread⟩ := hnew
  rw [restart, hnew, Running.reload, hread]
  exact ⟨rfl, hfile⟩

/-- A text that the store with one step has saved on the way. -/
def Saved (codec : StateCodec) (ops : List Op) (text : List Char) : Prop :=
  ∃ done d, done <+: ops ∧ (run (step codec.docs) boot done).file = some d ∧
    codec.marshal d = some text

theorem Saved.append {ops : List Op} {text : List Char} (h : Saved codec ops text)
    (more : List Op) : Saved codec (ops ++ more) text := by
  obtain ⟨done, d, hdone, hfile⟩ := h
  exact ⟨done, d, hdone.trans (List.prefix_append ops more), hfile⟩

/-- The store with one step is where the server is, and it has saved whatever a loss of
power may leave. -/
structure Realises (codec : StateCodec) (ops : List Op) (s : Running) : Prop where
  shows : Shows codec (run (step codec.docs) boot ops) s
  disk : DiskInv (fun _ => Saved codec ops) s.disk

theorem realises_init : Realises codec [] .init where
  shows := ⟨rfl, rfl⟩
  disk := (Saves.inv_init (κ := Unit) _).disk

theorem Realises.restart {ops : List Op} {s : Running} (h : Realises codec ops s)
    (order : Order Str Client) :
    Realises codec (ops ++ [.restart order]) (s.reload codec order) where
  shows := by
    rw [run_append]
    exact shows_reload h.shows.file order
  disk := by
    rw [disk_reload]
    exact h.disk.mono fun _ _ ht => ht.append _

/-- A loss of power takes the store back to where it saved the text that is left. -/
theorem Realises.powerLoss {ops : List Op} {s : Running} (h : Realises codec ops s) (choice : ℕ)
    (garbage : ℕ → List Char) : ∃ done, done <+: ops ∧
      (run (step codec.docs) boot done).file.map codec.marshal =
        ((s.disk.powerLoss choice garbage).read (.file ())).map some ∧
      DiskInv (fun _ => Saved codec done) (s.disk.powerLoss choice garbage) := by
  have hfile : ∃ done, done <+: ops ∧ (run (step codec.docs) boot done).file.map codec.marshal =
      ((s.disk.powerLoss choice garbage).read (.file ())).map some := by
    cases hread : (s.disk.powerLoss choice garbage).read (.file ()) with
    | none => exact ⟨[], List.nil_prefix, rfl⟩
    | some text =>
      obtain ⟨done, d, hdone, hd, htext⟩ := (h.disk.settled ()).read_powerLoss hread
      exact ⟨done, hdone, by rw [hd, Option.map_some, htext]; rfl⟩
  obtain ⟨done, hdone, hfile⟩ := hfile
  have hinv := h.disk.powerLoss choice garbage
  refine ⟨done, hdone, hfile, ?_, hinv.temps⟩
  -- the only directory that is left is the one that is read
  intro _ dir i hdir hi
  obtain ⟨x, hx, hflushed, -⟩ := hinv.settled () dir i hdir hi
  rw [List.mem_singleton.mp hdir] at hi
  have hread : (s.disk.powerLoss choice garbage).read (.file ()) = some x.text := by
    rw [Disk.read, hi, Option.bind_some, hx]
    rfl
  rw [hread] at hfile
  obtain ⟨d, hd, htext⟩ := Option.map_eq_some_iff.mp hfile
  exact ⟨x, hx, hflushed, done, d, List.prefix_rfl, hd, htext⟩

/-- The call of an operation. -/
def Op.call? : Op → Option Call
  | .call c _ => some c
  | .restart _ => none

def Moment.call? : Moment → Option Call
  | .call c _ _ => some c
  | .restart _ | .powerLoss _ _ _ => none

/-- What is on the disk stays there. -/
def Moment.keeps : Moment → Bool
  | .powerLoss _ _ _ => false
  | .call _ _ _ | .restart _ => true

/-- A call of the store with one step gives the reply and the state of a moment at the
server.  Unless the reply is an error of `persistLocked`, the call meets no fault. -/
structure Answers (codec : StateCodec) (p : Process Doc) (m : Moment) (reply : Reply) (s' : Running)
    (c : Call) (fault : Option Fault) : Prop where
  made : m.call? = some c
  replies : (call codec.docs p c fault).1 = reply
  next : Shows codec (call codec.docs p c fault).2 s'
  saved : (∀ f, reply ≠ .error (.persist f)) → fault = none

/-- What a moment at a server does in the store with one step: it makes the same call, and
gives the same answer where it gives one. -/
structure Matches (codec : StateCodec) (p : Process Doc) (s : Running) (m : Moment)
    (more : List Op) : Prop where
  calls : more.filterMap Op.call? = m.call?.toList
  answer : ∀ reply s', s.exec codec m = (some reply, s') →
    ∃ c fault, more = [.call c fault] ∧ Answers codec p m reply s' c fault

section Calls

variable {ops : List Op} {s : Running} {c : Call} {reply : Reply} {m : State}

theorem run_call (fault : Option Fault) {r : Reply} {q : Process Doc}
    (hcall : call codec.docs (run (step codec.docs) boot ops) c fault = (r, q)) :
    run (step codec.docs) boot (ops ++ [.call c fault]) = q := by
  rw [run_append]
  show (call codec.docs (run (step codec.docs) boot ops) c fault).2 = q
  rw [hcall]

theorem Realises.stops (h : Realises codec ops s)
    (hattempt : c.attempt s.memory = .stops reply m) :
    (call codec.docs (run (step codec.docs) boot ops) c none).1 = reply ∧
      Realises codec (ops ++ [.call c none]) { s with memory := m } := by
  have hcall : call codec.docs (run (step codec.docs) boot ops) c none =
      (reply, { run (step codec.docs) boot ops with memory := m }) := by
    rw [call, h.shows.memory, hattempt]
  refine ⟨by rw [hcall], ⟨?_, h.disk.mono fun _ _ ht => ht.append _⟩⟩
  rw [run_call none hcall]
  exact ⟨rfl, h.shows.file⟩

theorem reply_persists (h : Realises codec ops s)
    (hattempt : c.attempt s.memory = .persists reply m) (fault : Option Fault) :
    (call codec.docs (run (step codec.docs) boot ops) c fault).1 =
      Running.replyTo reply fault := by
  rw [call, h.shows.memory, hattempt]
  cases fault <;> rfl

/-- A save that has not come to the rename is one that has failed. -/
theorem Realises.unsaved (h : Realises codec ops s)
    (hattempt : c.attempt s.memory = .persists reply m) (f : Fault) {d : Disk (Name Unit)}
    (hd : DiskInv (fun _ => Saved codec ops) d)
    (hread : d.read (.file ()) = s.disk.read (.file ())) :
    Realises codec (ops ++ [.call c (some f)]) ⟨m, d⟩ where
  shows := by
    have hcall : call codec.docs (run (step codec.docs) boot ops) c (some f) =
        (.error (.persist f), { run (step codec.docs) boot ops with memory := m }) := by
      rw [call, h.shows.memory, hattempt]
    rw [run_call (some f) hcall]
    exact ⟨rfl, by rw [hread]; exact h.shows.file⟩
  disk := hd.mono fun _ _ ht => ht.append _

/-- A save that has come to the rename is one that has succeeded. -/
theorem Realises.saved (h : Realises codec ops s)
    (hattempt : c.attempt s.memory = .persists reply m) {text : List Char}
    (hmarshal : codec.marshal m.toDoc = some text) {d : Disk (Name Unit)}
    (hd : DiskInv (fun _ t => Saved codec ops t ∨ t = text) d)
    (hread : d.read (.file ()) = some text) :
    Realises codec (ops ++ [.call c none]) ⟨m, d⟩ := by
  have hcall : call codec.docs (run (step codec.docs) boot ops) c none =
      (reply, ⟨m, some m.toDoc⟩) := by
    rw [call, h.shows.memory, hattempt]
    rfl
  have hrun := run_call none hcall
  refine ⟨?_, hd.mono fun _ t ht => ?_⟩
  · rw [hrun]
    exact ⟨rfl, by rw [hread, Option.map_some, hmarshal]; rfl⟩
  · rcases ht with ht | rfl
    · exact ht.append _
    · exact ⟨_, m.toDoc, List.prefix_rfl, by rw [hrun], hmarshal⟩

theorem persist_cases {text : List Char} (hmarshal : codec.marshal m.toDoc = some text)
    (disk : Disk (Name Unit)) (reply : Reply) (answers : List Answer) (order : Order Str Client)
    {x : Disk (Name Unit) × Save Unit} (hx : save disk text answers = x) :
    (∃ err, x.2.phase = .returned err ∧ Running.persist codec ⟨m, disk⟩ reply answers order =
      (some (Running.replyTo reply err), ⟨m, x.1⟩)) ∨
    Running.persist codec ⟨m, disk⟩ reply answers order =
      (none, Running.reload codec ⟨m, x.1⟩ order) := by
  rw [Running.persist, hmarshal]
  dsimp only
  rw [hx]
  cases hphase : x.2.phase with
  | returned err => exact Or.inl ⟨err, rfl, rfl⟩
  | _ => exact Or.inr rfl

/-- The answer of a call that came to its end. -/
theorem answers_persists (h : Realises codec ops s)
    (hattempt : c.attempt s.memory = .persists reply m) (answers : List Answer)
    (order : Order Str Client) (fault : Option Fault) {s' : Running}
    (hnext : Realises codec (ops ++ [.call c fault]) s') :
    Answers codec (run (step codec.docs) boot ops) (.call c answers order)
      (Running.replyTo reply fault) s' c fault where
  made := rfl
  replies := reply_persists h hattempt fault
  next := by
    have hshows := hnext.shows
    rw [run_append] at hshows
    exact hshows
  saved := by
    intro hno
    cases fault with
    | none => rfl
    | some f => exact absurd rfl (hno f)

theorem Realises.persists (h : Realises codec ops s)
    (hattempt : c.attempt s.memory = .persists reply m) (answers : List Answer)
    (order : Order Str Client) :
    ∃ more, Realises codec (ops ++ more) (s.step codec (.call c answers order)) ∧
      Matches codec (run (step codec.docs) boot ops) s (.call c answers order) more := by
  have hexec : s.exec codec (.call c answers order) =
      Running.persist codec ⟨m, s.disk⟩ reply answers order := by
    rw [Running.exec, hattempt]
  have hreturned (fault : Option Fault) {s' : Running}
      (hp : Running.persist codec ⟨m, s.disk⟩ reply answers order =
        (some (Running.replyTo reply fault), s'))
      (hnext : Realises codec (ops ++ [.call c fault]) s') :
      ∃ more, Realises codec (ops ++ more) (s.step codec (.call c answers order)) ∧
        Matches codec (run (step codec.docs) boot ops) s (.call c answers order) more := by
    refine ⟨[.call c fault], ?_, rfl, fun r t ht => ⟨c, fault, rfl, ?_⟩⟩
    · rw [Running.step, hexec, hp]
      exact hnext
    · rw [hexec, hp] at ht
      injection ht with hr ht
      rw [← Option.some.inj hr, ← ht]
      exact answers_persists h hattempt answers order fault hnext
  cases hmarshal : codec.marshal m.toDoc with
  | none =>
    have hp : Running.persist codec ⟨m, s.disk⟩ reply answers order =
        (some (Running.replyTo reply (some .marshal)), ⟨m, s.disk⟩) := by
      rw [Running.persist, hmarshal]
    exact hreturned (some .marshal) hp (h.unsaved hattempt .marshal h.disk rfl)
  | some text =>
    have hsaving := saving_save h.disk text answers
    generalize hx : save s.disk text answers = x at hsaving
    -- what the disk holds at the end, whether the call has returned or not
    have hdone : (x.2.phase.renamed = true ∧ Realises codec (ops ++ [.call c none]) ⟨m, x.1⟩) ∨
        (x.2.phase.renamed = false ∧ ∀ f, Realises codec (ops ++ [.call c (some f)]) ⟨m, x.1⟩) := by
      cases hr : x.2.phase.renamed with
      | true =>
        obtain ⟨hd, hread⟩ := hsaving.after hr
        exact Or.inl ⟨rfl, h.saved hattempt hmarshal hd hread⟩
      | false =>
        obtain ⟨hd, hread⟩ := hsaving.before hr
        exact Or.inr ⟨rfl, fun f => h.unsaved hattempt f hd hread⟩
    rcases persist_cases hmarshal s.disk reply answers order hx with ⟨err, hphase, hp⟩ | hp
    · refine hreturned err hp ?_
      rw [hphase] at hdone
      rcases hdone with ⟨hr, hrealises⟩ | ⟨hr, hrealises⟩
      · cases err with
        | none => exact hrealises
        | some f => cases hr
      · cases err with
        | none => cases hr
        | some f => exact hrealises f
    · -- the call is killed: its save counts if the rename has been made
      have hkilled (fault : Option Fault)
          (hnext : Realises codec (ops ++ [.call c fault]) ⟨m, x.1⟩) :
          ∃ more, Realises codec (ops ++ more) (s.step codec (.call c answers order)) ∧
            Matches codec (run (step codec.docs) boot ops) s (.call c answers order) more := by
        refine ⟨[.call c fault, .restart order], ?_, rfl, fun r t ht => ?_⟩
        · rw [Running.step, hexec, hp, List.append_cons]
          exact hnext.restart order
        · rw [hexec, hp] at ht
          cases ht
      rcases hdone with ⟨-, hrealises⟩ | ⟨-, hrealises⟩
      · exact hkilled none hrealises
      · exact hkilled (some .rename) (hrealises .rename)

theorem Realises.call (h : Realises codec ops s) (c : Call) (answers : List Answer)
    (order : Order Str Client) :
    ∃ more, Realises codec (ops ++ more) (s.step codec (.call c answers order)) ∧
      Matches codec (run (Server.step codec.docs) boot ops) s (.call c answers order) more := by
  cases hattempt : c.attempt s.memory with
  | stops reply m =>
    have hexec : s.exec codec (.call c answers order) = (some reply, { s with memory := m }) := by
      rw [Running.exec, hattempt]
    obtain ⟨hreply, hnext⟩ := h.stops hattempt
    refine ⟨[.call c none], ?_, rfl, fun r t ht => ⟨c, none, rfl, rfl, ?_, ?_, fun _ => rfl⟩⟩
    · rw [Running.step, hexec]
      exact hnext
    · rw [hexec] at ht
      injection ht with hr
      rw [hreply, Option.some.inj hr]
    · rw [hexec] at ht
      injection ht with _ ht
      have hshows := hnext.shows
      rw [run_append, ht] at hshows
      exact hshows
  | persists reply m => exact h.persists hattempt answers order

end Calls

theorem Realises.step {ops : List Op} {s : Running} (h : Realises codec ops s) (m : Moment) :
    ∃ done more, done <+: ops ∧ Realises codec (done ++ more) (s.step codec m) ∧
      Matches codec (run (Server.step codec.docs) boot ops) s m more ∧
      (m.keeps = true → done = ops) := by
  cases m with
  | call c answers order =>
    obtain ⟨more, hrealises, hmatches⟩ := h.call c answers order
    exact ⟨ops, more, List.prefix_rfl, hrealises, hmatches, fun _ => rfl⟩
  | restart order =>
    exact ⟨ops, [.restart order], List.prefix_rfl, h.restart order,
      ⟨rfl, fun r t ht => by cases ht⟩, fun _ => rfl⟩
  | powerLoss choice garbage order =>
    obtain ⟨done, hdone, hfile, hdisk⟩ := h.powerLoss choice garbage
    have hrealises : Realises codec (done ++ [.restart order])
        (s.step codec (.powerLoss choice garbage order)) := by
      refine ⟨?_, ?_⟩
      · rw [run_append]
        exact shows_reload hfile order
      · rw [disk_powerLoss]
        exact hdisk.mono fun _ _ ht => ht.append _
    exact ⟨done, [.restart order], hdone, hrealises, ⟨rfl, fun r t ht => by cases ht⟩,
      fun hkeeps => by cases hkeeps⟩

/-- Every answer that was given since the last loss of power is that of a call on the way of
the store with one step, made from where the server was then. -/
def Answered (codec : StateCodec) (ms : List Moment) (ops : List Op) : Prop :=
  ∀ before m after reply s', ms = before ++ m :: after → (∀ x ∈ after, x.keeps = true) →
    (run (Running.step codec) .init before).exec codec m = (some reply, s') →
    ∃ c fault done rest, ops = done ++ .call c fault :: rest ∧
      Shows codec (run (step codec.docs) boot done) (run (Running.step codec) .init before) ∧
      Answers codec (run (step codec.docs) boot done) m reply s' c fault

theorem Moment.keeps_of_call {m : Moment} {c : Call} (h : m.call? = some c) : m.keeps = true := by
  cases m with
  | call => rfl
  | restart => rfl
  | powerLoss => cases h

theorem Answered.snoc {ms : List Moment} {m : Moment} {ops done more : List Op}
    (h : Answered codec ms ops) (hrealises : Realises codec ops (run (Running.step codec) .init ms))
    (hmatches : Matches codec (run (step codec.docs) boot ops)
      (run (Running.step codec) .init ms) m more)
    (hkeeps : m.keeps = true → done = ops) : Answered codec (ms ++ [m]) (done ++ more) := by
  intro before x after reply s' hms hafter hexec
  rcases List.eq_nil_or_concat' after with rfl | ⟨after, y, rfl⟩
  · obtain ⟨rfl, hx⟩ := List.append_inj' hms rfl
    obtain rfl := List.head_eq_of_cons_eq hx
    obtain ⟨c, fault, rfl, hanswers⟩ := hmatches.answer reply s' hexec
    rw [hkeeps (Moment.keeps_of_call hanswers.made)]
    exact ⟨c, fault, ops, [], rfl, hrealises.shows, hanswers⟩
  · rw [← List.cons_append, ← List.append_assoc] at hms
    obtain ⟨rfl, hy⟩ := List.append_inj' hms rfl
    obtain rfl := List.head_eq_of_cons_eq hy
    obtain ⟨c, fault, front, rest, rfl, hshows, hanswers⟩ :=
      h before x after reply s' rfl (fun z hz => hafter z (List.mem_append_left _ hz)) hexec
    rw [hkeeps (hafter m (by simp))]
    exact ⟨c, fault, front, rest ++ more, by simp, hshows, hanswers⟩

theorem exists_realises (codec : StateCodec) (ms : List Moment) :
    ∃ ops, Realises codec ops (run (Running.step codec) .init ms) ∧
      (ops.filterMap Op.call?).Sublist (ms.filterMap Moment.call?) ∧
      ((∀ m ∈ ms, m.keeps = true) → ops.filterMap Op.call? = ms.filterMap Moment.call?) ∧
      Answered codec ms ops := by
  induction ms using List.reverseRecOn with
  | nil =>
    refine ⟨[], realises_init, List.Sublist.refl _, fun _ => rfl, ?_⟩
    intro before m after reply s' hms
    exact absurd hms (by simp)
  | append_singleton ms m ih =>
    obtain ⟨ops, hrealises, hsub, hsame, hanswered⟩ := ih
    obtain ⟨done, more, hdone, hnext, hmatches, hall⟩ := hrealises.step m
    have hcalls : (done ++ more).filterMap Op.call? =
        done.filterMap Op.call? ++ [m].filterMap Moment.call? := by
      rw [List.filterMap_append, hmatches.calls]
      cases m <;> rfl
    refine ⟨done ++ more, ?_, ?_, ?_, hanswered.snoc hrealises hmatches hall⟩
    · rw [run_append]
      exact hnext
    · rw [hcalls, List.filterMap_append]
      exact ((hdone.sublist.filterMap Op.call?).trans hsub).append (List.Sublist.refl _)
    · intro hkeeps
      rw [hcalls, List.filterMap_append, hall (hkeeps m (by simp)),
        hsame fun m' hm' => hkeeps m' (by simp [hm'])]

/-- Every run of the server on the disk, with calls that are killed between any two
operations of `atomicWriteFile`, with operations that fail and with losses of power, is one
of the store that saves in one step.  It makes the same calls in their order, but those
that a loss of power has undone, and without one all of them.  A call that was answered is
on its way with that answer unless power was lost later, and without a fault if the answer
is not an error of the save.  The next answer is also the same, and so is what is left
after it. -/
theorem crash_refines (codec : StateCodec) (ms : List Moment) :
    ∃ ops, Shows codec (run (step codec.docs) boot ops) (run (Running.step codec) .init ms) ∧
      (ops.filterMap Op.call?).Sublist (ms.filterMap Moment.call?) ∧
      ((∀ m ∈ ms, m.keeps = true) → ops.filterMap Op.call? = ms.filterMap Moment.call?) ∧
      Answered codec ms ops ∧
      ∀ m reply s', (run (Running.step codec) .init ms).exec codec m = (some reply, s') →
        ∃ c fault, Answers codec (run (step codec.docs) boot ops) m reply s' c fault := by
  obtain ⟨ops, hrealises, hsub, hsame, hanswered⟩ := exists_realises codec ms
  refine ⟨ops, hrealises.shows, hsub, hsame, hanswered, fun m reply s' hexec => ?_⟩
  obtain ⟨done, more, -, -, hmatches, -⟩ := hrealises.step m
  obtain ⟨c, fault, -, hanswers⟩ := hmatches.answer reply s' hexec
  exact ⟨c, fault, hanswers⟩

end Refinement

end Server
end MkyBoot
