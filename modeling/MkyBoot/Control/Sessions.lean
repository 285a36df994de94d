import MkyBoot.Control.Login
import MkyBoot.Control.Page
import MkyBoot.Machine.Run

/-!
# Sessions of several workers

A login and a password change list the directory of the sessions, remove the files
they have found one after the other and then rename a file of their own into place.
Logouts and requests with an expired cookie remove one file.  Any number of requests
run at once, each in its own worker, and what they do to the directory interleaves in
any way.
-/

namespace MkyBoot
namespace Control
namespace Sessions

open Lua Posix Machine

/-- `session.read` returns a record. -/
def live (h : Host) (t : FileTree Str) (sid : Str) : Bool :=
  match (Session.read h sid (.start t)).1 with
  | .returned (some _) => true
  | _ => false

inductive Kind where
  | login
  | changepw
  | logout
  /-- A request that needs a session and does nothing else with it. -/
  | access

structure Request where
  kind : Kind
  http_cookie : Option Str
  username : Str
  ip : Str

/-- Where a request is. -/
inductive Pc where
  | start
  /-- The record of this session has expired and will be removed. -/
  | expired (sid : Str)
  /-- The passwords were right. -/
  | allowed
  /-- The names are what is left to remove of those that were listed. -/
  | removing (names : List Name)
  /-- Without random bytes no session is created. -/
  | created (sid : Option Str)
  | answered (ok : Bool)
deriving DecidableEq

structure State (ι : Type) where
  tree : FileTree Str
  pc : ι → Pc

section

variable {ι : Type} [DecidableEq ι] (host : ι → Host) (req : ι → Request)

def start (t : FileTree Str) : State ι := ⟨t, fun _ => .start⟩

def State.goto (s : State ι) (i : ι) (pc : Pc) : State ι :=
  { s with pc := Function.update s.pc i pc }

/-- `os.remove`, after which a request goes on. -/
def State.remove (s : State ι) (file : Str) (i : ι) (pc : Pc) : State ι :=
  State.goto { s with tree := s.tree.remove file } i pc

/-- The part of a handler up to the first step that changes the directory.  `pass` says
what the tests of passwords and form fields come to. -/
def admitted (s : State ι) (i : ι) (pass : Bool) : Pc :=
  match Session.getCookie (req i).http_cookie with
  | none => .answered false
  | some sid =>
    if (s.tree.read (Session.file sid)).any (Session.stale (host i)) then .expired sid
    else if live (host i) s.tree sid then
      match (req i).kind with
      | .changepw => if pass then .allowed else .answered false
      | _ => .answered true
    else .answered false

def begin (s : State ι) (i : ι) (pass : Bool) : State ι :=
  match (req i).kind with
  | .login => s.goto i (if pass then .allowed else .answered false)
  | .logout =>
    match Session.getCookie (req i).http_cookie with
    | none => s.goto i (.answered true)
    | some sid => s.remove (Session.file sid) i (.answered true)
  | .changepw => s.goto i (admitted host req s i pass)
  | .access => s.goto i (admitted host req s i pass)

/-- The names that `destroy_all` goes through. -/
def listed (t : FileTree Str) : List Name :=
  (t.entries Session.dir).filter fun n => ".json".toList.isSuffixOf n

def publish (h : Host) (r : Request) (t : FileTree Str) (sid : Str) : FileTree Str :=
  if h.saves then
    (t.write (Session.file sid) (h.encode (Session.sessionData h sid r.username r.ip))).getD t
  else t

/-- The end of a handler that has called `session.create`. -/
def conclude (s : State ι) (i : ι) (sid : Option Str) : State ι :=
  match (req i).kind, sid, Session.getCookie (req i).http_cookie with
  | .changepw, some _, some old => s.remove (Session.file old) i (.answered true)
  | .changepw, _, _ => s.goto i (.answered true)
  | _, _, _ => s.goto i (.answered sid.isSome)

/-- The next step of a request. -/
def step (s : State ι) (x : ι × Bool) : State ι :=
  match s.pc x.1 with
  | .start => begin host req s x.1 x.2
  | .expired sid => s.remove (Session.file sid) x.1 (.answered false)
  | .allowed =>
    if s.tree.opens Session.dir then s.goto x.1 (.removing (listed s.tree))
    else s.goto x.1 (.answered false)
  | .removing (n :: ns) => s.remove (Session.dir ++ "/".toList ++ n) x.1 (.removing ns)
  | .removing [] =>
    match Session.generateId (host x.1) with
    | none => s.goto x.1 (.created none)
    | some sid =>
      State.goto { s with tree := publish (host x.1) (req x.1) s.tree sid } x.1
        (.created (some sid))
  | .created sid => conclude req s x.1 sid
  | .answered _ => s

/-- A request is between its listing of the directory and its answer. -/
def Pc.creating : Pc → Bool
  | .removing _ => true
  | .created _ => true
  | _ => false

/-- A step that puts a file into the directory finds no other request that is creating
a session. -/
def Alone (s : State ι) (x : ι × Bool) : Prop :=
  s.pc x.1 = .removing [] → (Session.generateId (host x.1)).isSome = true →
    ∀ j, j ≠ x.1 → (s.pc j).creating = false

instance [Fintype ι] (s : State ι) (x : ι × Bool) : Decidable (Alone host s x) := by
  unfold Alone
  infer_instance

/-- No two session files are valid, for any worker at any time. -/
def AtMostOne (s : State ι) : Prop :=
  ∀ i now sid sid', '/' ∉ sid → '/' ∉ sid' → live { host i with now := now } s.tree sid = true →
    live { host i with now := now } s.tree sid' = true → sid = sid'

/-- The two ids name one file. -/
def SameFile (sid sid' : Str) : Prop :=
  FileTree.placeOf (Session.file sid) = FileTree.placeOf (Session.file sid')

/-- Of the sessions there are at the answer to a login or a password change only the one
that the request has created is left. -/
def EndsOthers (s : State ι) (x : ι × Bool) : Prop :=
  ∀ own, s.pc x.1 = .created own → ∀ i now sid, '/' ∉ sid →
    live { host i with now := now } (step host req s x).tree sid = true →
      ∃ o, own = some o ∧ SameFile sid o

end

/-! ## Live sessions and the tree -/

/-- The content of a file is a session record that has not expired. -/
def valid (h : Host) (content : Str) : Bool :=
  match h.decode content with
  | some (.table fields) => Session.lapsed h (.table fields) == some false
  | _ => false

theorem live_iff {h : Host} {t : FileTree Str} {sid : Str} : live h t sid = true ↔
    sid ≠ [] ∧ ∃ c, t.read (Session.file sid) = some c ∧ valid h c = true := by
  have hdata : (Store.start t).data.lookup sid = none := rfl
  have htree : (Store.start t).tree = t := rfl
  unfold live
  rw [Session.read]
  by_cases hsid : sid = []
  · rw [if_pos hsid]
    simp [hsid]
  · rw [if_neg hsid, hdata]
    dsimp only
    rw [Session.readFile, htree]
    cases hread : t.read (Session.file sid) with
    | none => simp
    | some c =>
      simp only [Option.bind_some, Option.some.injEq, exists_eq_left', valid, hsid, ne_eq,
        not_false_eq_true, true_and]
      cases hdecode : h.decode c with
      | none => simp
      | some d =>
        cases d with
        | leaf v => simp
        | table fields =>
          dsimp only
          cases hlapsed : Session.lapsed h (.table fields) with
          | none => simp [Session.conclude]
          | some b => cases b <;> simp [Session.conclude]

theorem live_of_read {h : Host} {t t' : FileTree Str} {sid : Str}
    (hread : ∀ c, t'.read (Session.file sid) = some c → t.read (Session.file sid) = some c)
    (hlive : live h t' sid = true) : live h t sid = true := by
  obtain ⟨hsid, c, hc, hvalid⟩ := live_iff.mp hlive
  exact live_iff.mpr ⟨hsid, c, hread c hc, hvalid⟩

theorem live_of_live_remove {h : Host} {t : FileTree Str} {s sid : Str}
    (hlive : live h (t.remove s) sid = true) : live h t sid = true :=
  live_of_read (fun _ => FileTree.read_of_read_remove) hlive

theorem not_live_remove_self {h : Host} {t : FileTree Str} {sid : Str} :
    ¬ live h (t.remove (Session.file sid)) sid = true := by
  intro hlive
  obtain ⟨-, c, hc, -⟩ := live_iff.mp hlive
  rw [FileTree.read_remove_self] at hc
  exact absurd hc (by simp)

theorem eq_of_sameFile {sid sid' : Str} (h : '/' ∉ sid) (h' : '/' ∉ sid')
    (hsame : SameFile sid sid') : sid = sid' := by
  rw [SameFile, Session.placeOf_file h, Session.placeOf_file h'] at hsame
  have hname := List.append_cancel_left hsame
  exact List.append_cancel_right (List.singleton_inj.mp hname)

theorem live_publish {h h' : Host} {r : Request} {t : FileTree Str} {o sid : Str}
    (hlive : live h' (publish h r t o) sid = true) :
    live h' t sid = true ∨ SameFile sid o := by
  rw [publish] at hlive
  split at hlive
  · cases hwrite : t.write (Session.file o)
      (h.encode (Session.sessionData h o r.username r.ip)) with
    | none =>
      rw [hwrite] at hlive
      exact Or.inl hlive
    | some t' =>
      rw [hwrite] at hlive
      by_cases hsame : t.resolve (Session.file sid) = t.resolve (Session.file o)
      · obtain ⟨p, hp, -⟩ := Option.bind_eq_some_iff.mp hwrite
        refine Or.inr ?_
        rw [SameFile, ← FileTree.eq_placeOf_of_resolve hp,
          ← FileTree.eq_placeOf_of_resolve (hsame.trans hp)]
      · refine Or.inl (live_of_read (fun c hc => ?_) hlive)
        rw [← FileTree.read_write_of_ne hwrite hsame]
        exact hc
  · exact Or.inl hlive

/-- The names of live sessions are listed. -/
theorem mem_listed {h : Host} {t : FileTree Str} {sid : Str} (hopens : t.opens Session.dir = true)
    (hsid : '/' ∉ sid) (hlive : live h t sid = true) : sid ++ ".json".toList ∈ listed t := by
  obtain ⟨-, c, hc, -⟩ := live_iff.mp hlive
  obtain ⟨p, hp, hfile⟩ := FileTree.read_eq_some_iff.mp hc
  rw [FileTree.eq_placeOf_of_resolve hp, Session.placeOf_file hsid] at hfile
  obtain ⟨d, hd, -⟩ := (Option.any_eq_true _ _).mp hopens
  have hdir : t.resolve Session.dir = some Session.dirPath := by
    rw [hd, FileTree.eq_placeOf_of_resolve hd]
    rfl
  refine List.mem_filter.mpr ⟨FileTree.mem_entries_of_lookup hdir hfile, ?_⟩
  exact List.isSuffixOf_iff_suffix.mpr (List.suffix_append sid _)

theorem file_of_name (sid : Str) :
    Session.dir ++ "/".toList ++ (sid ++ ".json".toList) = Session.file sid := by
  rw [Session.file, List.append_assoc, List.append_assoc, List.append_assoc]

/-! ## What holds while sessions are published one at a time -/

section

variable {ι : Type} {host : ι → Host} {req : ι → Request} {s : State ι}

variable (host) in
/-- A request that is creating a session knows the live ones: they are still to be removed,
or its own. -/
def Knows (t : FileTree Str) : Pc → Prop
  | .removing names => ∀ i now sid, '/' ∉ sid → live { host i with now := now } t sid = true →
      sid ++ ".json".toList ∈ names
  | .created own => ∀ i now sid, '/' ∉ sid → live { host i with now := now } t sid = true →
      ∃ o, own = some o ∧ SameFile sid o
  | _ => True

variable (host) in
structure Sound (s : State ι) : Prop where
  one : AtMostOne host s
  knows : ∀ i, Knows host s.tree (s.pc i)

theorem knows_of_live {t t' : FileTree Str} {pc : Pc}
    (hlive : ∀ h sid, live h t' sid = true → live h t sid = true) (h : Knows host t pc) :
    Knows host t' pc := by
  cases pc with
  | removing names | created own => exact fun i now sid hsid hl => h i now sid hsid (hlive _ sid hl)
  | start | expired _ | allowed | answered _ => trivial

theorem knows_of_not_creating {t : FileTree Str} {pc : Pc} (h : pc.creating = false) :
    Knows host t pc := by
  cases pc with
  | removing names | created own => exact absurd h (by simp [Pc.creating])
  | start | expired _ | allowed | answered _ => trivial

/-- One of the listed files is removed. -/
theorem Knows.tail {t : FileTree Str} {n : Name} {ns : List Name}
    (h : Knows host t (.removing (n :: ns))) :
    Knows host (t.remove (Session.dir ++ "/".toList ++ n)) (.removing ns) := by
  intro i now sid hsid hl
  refine (List.mem_cons.mp (h i now sid hsid (live_of_live_remove hl))).resolve_left fun hn => ?_
  rw [← hn, file_of_name] at hl
  exact not_live_remove_self hl

theorem sound_start {t : FileTree Str} (h : AtMostOne host (start t)) : Sound host (start t) :=
  ⟨h, fun _ => trivial⟩

variable [DecidableEq ι]

theorem goto_self (s : State ι) (i : ι) (pc : Pc) : (s.goto i pc).pc i = pc := by
  show Function.update s.pc i pc i = pc
  rw [Function.update_self]

theorem goto_other (s : State ι) {i j : ι} (h : j ≠ i) (pc : Pc) :
    (s.goto i pc).pc j = s.pc j := by
  show Function.update s.pc i pc j = s.pc j
  rw [Function.update_of_ne h]

/-- A step that makes no session live. -/
theorem Sound.shrink (h : Sound host s) {t : FileTree Str} {i : ι} {pc : Pc}
    (hlive : ∀ h sid, live h t sid = true → live h s.tree sid = true) (hpc : Knows host t pc) :
    Sound host (State.goto { s with tree := t } i pc) where
  one := fun j now sid sid' hsid hsid' hl hl' =>
    h.one j now sid sid' hsid hsid' (hlive _ _ hl) (hlive _ _ hl')
  knows := by
    intro j
    by_cases hj : j = i
    · subst hj
      rw [goto_self]
      exact hpc
    · rw [goto_other _ hj]
      exact knows_of_live hlive (h.knows j)

theorem Sound.goto (h : Sound host s) {i : ι} {pc : Pc} (hpc : Knows host s.tree pc) :
    Sound host (s.goto i pc) := h.shrink (fun _ _ hl => hl) hpc

theorem Sound.remove (h : Sound host s) {file : Str} {i : ι} {pc : Pc}
    (hpc : Knows host (s.tree.remove file) pc) : Sound host (s.remove file i pc) :=
  h.shrink (fun _ _ hl => live_of_live_remove hl) hpc

/-- A session file that is put into a directory without live ones. -/
theorem Sound.publish (h : Sound host s) {i : ι} (hpc : s.pc i = .removing [])
    (halone : ∀ j, j ≠ i → (s.pc j).creating = false) (sid : Str) :
    Sound host (State.goto { s with tree := publish (host i) (req i) s.tree sid } i
      (.created (some sid))) := by
  have hnone (j : ι) (now : ℚ) (sid : Str) (hsid : '/' ∉ sid) :
      ¬ live { host j with now := now } s.tree sid = true := by
    intro hl
    have hknows := h.knows i
    rw [hpc] at hknows
    exact absurd (hknows j now sid hsid hl) List.not_mem_nil
  have hown (j : ι) (now : ℚ) (sid' : Str) (hsid' : '/' ∉ sid')
      (hl : live { host j with now := now }
        (Sessions.publish (host i) (req i) s.tree sid) sid' = true) :
      SameFile sid' sid := (live_publish hl).resolve_left (hnone j now sid' hsid')
  constructor
  · intro j now sid₁ sid₂ h₁ h₂ hl₁ hl₂
    exact eq_of_sameFile h₁ h₂ ((hown j now sid₁ h₁ hl₁).trans (hown j now sid₂ h₂ hl₂).symm)
  · intro j
    by_cases hj : j = i
    · subst hj
      rw [goto_self]
      exact fun k now sid' hsid' hl => ⟨sid, rfl, hown k now sid' hsid' hl⟩
    · rw [goto_other _ hj]
      exact knows_of_not_creating (halone j hj)

theorem Sound.begin (h : Sound host s) (i : ι) (pass : Bool) :
    Sound host (begin host req s i pass) := by
  unfold Sessions.begin
  cases hkind : (req i).kind with
  | login => cases pass <;> exact h.goto trivial
  | logout =>
    cases Session.getCookie (req i).http_cookie with
    | none => exact h.goto trivial
    | some sid => exact h.remove trivial
  | changepw | access =>
    refine h.goto (knows_of_not_creating ?_)
    unfold admitted
    cases Session.getCookie (req i).http_cookie with
    | none => rfl
    | some sid =>
      dsimp only
      split
      · rfl
      · split
        · rw [hkind]
          cases pass <;> rfl
        · rfl

theorem Sound.conclude (h : Sound host s) (i : ι) (own : Option Str) :
    Sound host (conclude req s i own) := by
  unfold Sessions.conclude
  split
  · exact h.remove trivial
  · exact h.goto trivial
  · exact h.goto trivial

/-- What a step keeps.  Only the step that puts a file into the directory makes a session
live, and then the request is alone. -/
theorem Sound.step (h : Sound host s) {x : ι × Bool} (halone : Alone host s x) :
    Sound host (step host req s x) := by
  have hknows := h.knows x.1
  unfold Sessions.step
  cases hpc : s.pc x.1 with
  | start => exact h.begin x.1 x.2
  | expired sid => exact h.remove trivial
  | allowed =>
    dsimp only
    split
    · next hopens => exact h.goto fun i now sid hsid hl => mem_listed hopens hsid hl
    · exact h.goto trivial
  | removing names =>
    rw [hpc] at hknows
    cases names with
    | cons n ns => exact h.remove hknows.tail
    | nil =>
      dsimp only
      cases hid : Session.generateId (host x.1) with
      | none =>
        refine h.goto fun i now sid hsid hl => ?_
        exact absurd (hknows i now sid hsid hl) List.not_mem_nil
      | some sid => exact h.publish hpc (halone hpc (by rw [hid]; rfl)) sid
  | created own => exact h.conclude x.1 own
  | answered ok => exact h

theorem live_of_live_conclude {h : Host} {i : ι} {own : Option Str} {sid : Str}
    (hl : live h (conclude req s i own).tree sid = true) : live h s.tree sid = true := by
  unfold Sessions.conclude at hl
  split at hl
  · exact live_of_live_remove hl
  · exact hl
  · exact hl

theorem Sound.endsOthers (h : Sound host s) (x : ι × Bool) : EndsOthers host req s x := by
  intro own hpc i now sid hsid hl
  have hknows := h.knows x.1
  rw [hpc] at hknows
  rw [Sessions.step, hpc] at hl
  exact hknows i now sid hsid (live_of_live_conclude hl)

/-- The steps of a request that runs alone remove the listed files. -/
theorem run_removing {i : ι} (pass : Bool) {names : List Name} (hpc : s.pc i = .removing names) :
    run (step host req) s (List.replicate names.length (i, pass)) =
      State.goto { s with tree := (names.foldl
        (fun t n => t.remove (Session.dir ++ "/".toList ++ n)) s.tree) } i (.removing []) := by
  induction names generalizing s with
  | nil =>
    show s = ⟨s.tree, Function.update s.pc i (.removing [])⟩
    rw [← hpc, Function.update_eq_self]
  | cons n ns ih =>
    have hstep : step host req s (i, pass) =
        s.remove (Session.dir ++ "/".toList ++ n) i (.removing ns) := by
      unfold Sessions.step
      rw [hpc]
    have hnext : (s.remove (Session.dir ++ "/".toList ++ n) i (.removing ns)).pc i =
        .removing ns := goto_self _ i _
    rw [List.length_cons, List.replicate_succ, run_cons, hstep, ih hnext]
    show State.mk _ (Function.update (Function.update s.pc i _) i _) = _
    rw [Function.update_idem]
    rfl

/-- A request that is let in and runs alone does what `session.create` does. -/
theorem run_create {i : ι} (pass : Bool) (hpc : s.pc i = .allowed)
    (hopens : s.tree.opens Session.dir = true) (data : AList fun _ : Str => Doc) :
    ∃ n sid, (Session.create (host i) (req i).username (req i).ip ⟨s.tree, data⟩).1 =
        .returned sid ∧
      run (step host req) s (List.replicate n (i, pass)) = State.goto { s with tree :=
        (Session.create (host i) (req i).username (req i).ip ⟨s.tree, data⟩).2.tree } i
          (.created sid) := by
  have hlist : step host req s (i, pass) = s.goto i (.removing (listed s.tree)) := by
    unfold Sessions.step
    rw [hpc]
    exact if_pos hopens
  refine ⟨1 + (listed s.tree).length + 1, Session.generateId (host i), ?_, ?_⟩
  · rw [Session.create, Session.destroyAll, if_pos hopens]
    dsimp only
    cases Session.generateId (host i) with
    | none => rfl
    | some sid => rfl
  · rw [List.replicate_add, List.replicate_add, run_append, run_append]
    show run (step host req) (run (step host req) (step host req s (i, pass)) _) [(i, pass)] = _
    rw [hlist, run_removing pass (goto_self _ i _)]
    show step host req ⟨_, Function.update (Function.update s.pc i _) i _⟩ (i, pass) = _
    rw [Function.update_idem, Session.create, Session.destroyAll, if_pos hopens]
    unfold Sessions.step
    dsimp only
    rw [Function.update_self]
    dsimp only
    cases Session.generateId (host i) with
    | none =>
      show State.mk _ (Function.update (Function.update s.pc i _) i _) = _
      rw [Function.update_idem]
      rfl
    | some sid =>
      show State.mk _ (Function.update (Function.update s.pc i _) i _) = _
      rw [Function.update_idem]
      rfl

variable (host req) in
/-- As long as a request that creates a session is the only one to do so when it puts the
file into the directory, at most one session is live and the answer to a login or a
password change leaves no older one. -/
theorem one_session_throughout {t : FileTree Str} {xs : List (ι × Bool)}
    (hone : AtMostOne host (start t))
    (halone : Along (step host req) (Alone host) (start t) xs) :
    Throughout (step host req) (AtMostOne host) (start t) xs ∧
      Along (step host req) (EndsOthers host req) (start t) xs := by
  have hstep (s : State ι) (x : ι × Bool) (hs : Sound host s) (hx : Alone host s x) :
      Sound host (step host req s x) := hs.step hx
  constructor
  · exact (throughout_of_along hstep (sound_start hone) halone).mono fun s hs => hs.one
  · exact along_of_along hstep (fun s x hs _ => hs.endsOthers x) (sound_start hone) halone

end

/-! Two logins on a fresh server.  The ids are those of the bytes 0 and of the bytes 0 with
a 1 at the end. -/

def firstBytes : Str := List.replicate 32 '\x00'

def secondBytes : Str := List.replicate 31 '\x00' ++ ['\x01']

def firstId : Str := "AAAAAAAAAAAAAAAAAAAAAAAAAAAAAAAAAAAAAAAAAAA=".toList

def secondId : Str := "AAAAAAAAAAAAAAAAAAAAAAAAAAAAAAAAAAAAAAAAAAE=".toList

def worker (first : Bool) : Host where
  now := 1000
  decode := Doc.decode
  encode := Doc.encode
  sha1_bin := fun _ => []
  encode_base64 := fun s =>
    if s = firstBytes then firstId else if s = secondBytes then secondId else []
  urandom := fun n => if n = 32 then some (if first then firstBytes else secondBytes) else none
  date := "2024-01-01".toList
  saves := true

def logins (_ : Bool) : Request where
  kind := .login
  http_cookie := none
  username := "admin".toList
  ip := Login.launcherAddress

theorem freshTree_read (s : Str) : Login.freshTree.read s = none := by
  rw [Option.eq_none_iff_forall_ne_some]
  intro c hc
  obtain ⟨p, -, hfile⟩ := FileTree.read_eq_some_iff.mp hc
  have hmem := AList.mem_lookup_iff.mp hfile
  simp [Login.freshTree] at hmem

theorem atMostOne_freshTree : AtMostOne worker (start Login.freshTree) := by
  intro i now sid sid' _ _ hl
  obtain ⟨-, c, hc, -⟩ := live_iff.mp hl
  rw [start, freshTree_read] at hc
  exact absurd hc (by simp)

/-- The second login starts when the first one has been answered. -/
theorem logins_in_turn :
    Throughout (step worker logins) (AtMostOne worker) (start Login.freshTree)
        (List.replicate 4 (true, true) ++ List.replicate 5 (false, true)) ∧
      Along (step worker logins) (EndsOthers worker logins) (start Login.freshTree)
        (List.replicate 4 (true, true) ++ List.replicate 5 (false, true)) :=
  one_session_throughout worker logins atMostOne_freshTree (by decide +kernel)

/-- Both logins list the directory before one of them has put its file there. -/
theorem two_sessions_live : AtMostOne worker (start Login.freshTree) ∧
    (∀ i, (run (step worker logins) (start Login.freshTree)
      (List.flatten (List.replicate 4 [(true, true), (false, true)]))).pc i = .answered true) ∧
    ¬ AtMostOne worker (run (step worker logins) (start Login.freshTree)
      (List.flatten (List.replicate 4 [(true, true), (false, true)]))) := by
  refine ⟨atMostOne_freshTree, by decide +kernel, fun h => ?_⟩
  have hsame := h true 1000 firstId secondId (by decide) (by decide) (by decide +kernel)
    (by decide +kernel)
  exact absurd hsame (by decide)

end Sessions
end Control
end MkyBoot
