import MkyBoot.Control.Login
import MkyBoot.Machine.Run

/-!
# First-run setup by several workers

A setup request looks twice whether there is a credential, then hashes the password,
which takes seconds, and then saves.  Any number of requests run at once, each in its
own worker, and their steps interleave in any way.
-/

namespace MkyBoot
namespace Control
namespace Setup

open Lua Posix Form Machine

/-- Where a request is.  An answer is the record that was saved, or an error. -/
inductive Pc where
  | start
  /-- The handler has found no credential and a password. -/
  | checked (password : Str)
  /-- So has `setup_admin`. -/
  | passed (password : Str)
  /-- The record is there but not saved. -/
  | hashed (data : Doc)
  | answered (saved : Option Doc)

def Pc.ok : Pc → Bool
  | .answered (some _) => true
  | _ => false

structure State (ι : Type) where
  tree : FileTree Str
  pc : ι → Pc

section

variable {ι : Type} (host : ι → Host) (body : ι → Option Str)

def start (t : FileTree Str) : State ι := ⟨t, fun _ => .start⟩

def State.goto [DecidableEq ι] (s : State ι) (i : ι) (pc : Pc) : State ι :=
  { s with pc := Function.update s.pc i pc }

/-- The password of a form that the handler accepts. -/
def password (body_data : Option Str) : Option Str :=
  (body_data.bind parsePost).bind fun body =>
    (field body "password").bind fun password =>
      if password.length < Auth.MIN_PASSWORD_LENGTH then none
      else if field body "confirm" ≠ some password then none
      else some password

/-- The next step of a request. -/
def step [DecidableEq ι] (s : State ι) (i : ι) : State ι :=
  match s.pc i with
  | .start =>
    if Auth.isConfigured (host i) s.tree then s.goto i (.answered none)
    else s.goto i ((password (body i)).elim (.answered none) .checked)
  | .checked password =>
    if Auth.isConfigured (host i) s.tree then s.goto i (.answered none)
    else s.goto i (.passed password)
  | .passed password =>
    s.goto i ((Auth.generateSalt (host i)).elim (.answered none) fun salt =>
      .hashed (Login.record (host i) password salt))
  | .hashed data =>
    match Auth.saveAuth (host i) s.tree data with
    | none => s.goto i (.answered none)
    | some t => State.goto { s with tree := t } i (.answered (some data))
  | .answered _ => s

/-- A step that saves finds no credential. -/
def unset (s : State ι) (i : ι) : Bool :=
  match s.pc i with
  | .hashed data =>
    (Auth.saveAuth (host i) s.tree data).isNone || !Auth.isConfigured (host i) s.tree
  | _ => true

/-- At most one request is answered with OK, and its record is the one that is stored. -/
structure Once (s : State ι) : Prop where
  unique : ∀ i j, (s.pc i).ok = true → (s.pc j).ok = true → i = j
  stored : ∀ i d, s.pc i = .answered (some d) → ∀ j, Auth.loadAuth (host j) s.tree = some d

/-- The record that a request saves, if it comes to that. -/
def recordOf (i : ι) : Option Doc :=
  (password (body i)).bind fun p => (Auth.generateSalt (host i)).map (Login.record (host i) p)

/-- The json module of every worker reads what those of the others write. -/
def Json : Prop :=
  ∀ i j d, recordOf host body i = some d → (host j).decode ((host i).encode d) = some d

/-- What a request carries is its own. -/
def Own (i : ι) : Pc → Prop
  | .start => True
  | .checked p => password (body i) = some p
  | .passed p => password (body i) = some p
  | .hashed d => recordOf host body i = some d
  | .answered saved => ∀ d, saved = some d → recordOf host body i = some d

/-- Nobody has been answered with OK and there is no file, or one request has, and the
file is its record. -/
structure Sound (s : State ι) : Prop where
  own : ∀ i, Own host body i (s.pc i)
  stored : (∀ i, (s.pc i).ok = false) ∧ s.tree.read Auth.file = none ∨
    ∃ i d, s.pc i = .answered (some d) ∧ (∀ j, (s.pc j).ok = true → j = i) ∧
      s.tree.read Auth.file = some ((host i).encode d)

/-- Two requests have been answered with OK. -/
def Twice (s : State ι) : Prop := ∃ i j, i ≠ j ∧ (s.pc i).ok = true ∧ (s.pc j).ok = true

theorem sound_start {t : FileTree Str} (h : t.read Auth.file = none) :
    Sound host body (start t : State ι) where
  own := fun _ => trivial
  stored := Or.inl ⟨fun _ => rfl, h⟩

/-! ## The credential -/

variable {host body} {s : State ι}

theorem recordOf_eq {i : ι} {d : Doc} (h : recordOf host body i = some d) :
    ∃ p salt, d = Login.record (host i) p salt := by
  rw [recordOf, Option.bind_eq_some_iff] at h
  obtain ⟨p, -, h⟩ := h
  obtain ⟨salt, -, rfl⟩ := Option.map_eq_some_iff.mp h
  exact ⟨p, salt, rfl⟩

/-- A stored record is what every worker loads. -/
theorem loadAuth_stored (hjson : Json host body) {t : FileTree Str} {i : ι} {d : Doc}
    (hown : recordOf host body i = some d) (hread : t.read Auth.file = some ((host i).encode d))
    (j : ι) : Auth.loadAuth (host j) t = some d ∧ Auth.isConfigured (host j) t = true := by
  have hdecode := hjson i j d hown
  obtain ⟨p, salt, rfl⟩ := recordOf_eq hown
  have hload := Login.loadAuth_record hread hdecode
  exact ⟨hload, Login.isConfigured_record hload⟩

theorem isConfigured_of_none {h : Host} {t : FileTree Str} (hread : t.read Auth.file = none) :
    Auth.isConfigured h t = false := by
  rw [Auth.isConfigured, Auth.loadAuth, hread]
  rfl

theorem Sound.own_answered (h : Sound host body s) {i : ι} {d : Doc}
    (hi : s.pc i = .answered (some d)) : recordOf host body i = some d := by
  have hown : Own host body i (.answered (some d)) := hi ▸ h.own i
  exact hown d rfl

theorem Sound.once (hjson : Json host body) (h : Sound host body s) : Once host s := by
  obtain ⟨hnone, -⟩ | ⟨i, d, hi, honly, hread⟩ := h.stored
  · refine ⟨fun i j hi => absurd (hi.symm.trans (hnone i)) (by decide), fun i d hi => ?_⟩
    have hok := hnone i
    rw [hi] at hok
    exact absurd hok (by simp [Pc.ok])
  · refine ⟨fun j k hj hk => (honly j hj).trans (honly k hk).symm, fun j d' hj k => ?_⟩
    obtain rfl : j = i := honly j (by rw [hj]; rfl)
    rw [hi] at hj
    obtain rfl : d = d' := by simpa using hj
    exact (loadAuth_stored hjson (h.own_answered hi) hread k).1

/-! ## What a step can do -/

variable [DecidableEq ι]

theorem goto_self (s : State ι) (i : ι) (pc : Pc) : (s.goto i pc).pc i = pc := by
  show Function.update s.pc i pc i = pc
  rw [Function.update_self]

theorem goto_other (s : State ι) {i j : ι} (h : j ≠ i) (pc : Pc) :
    (s.goto i pc).pc j = s.pc j := by
  show Function.update s.pc i pc j = s.pc j
  rw [Function.update_of_ne h]

variable (host body) in
/-- A step does nothing, goes on without an OK, or saves. -/
theorem step_cases (s : State ι) (i : ι) :
    step host body s i = s ∨
    (∃ pc, (s.pc i).ok = false ∧ pc.ok = false ∧
      (Own host body i (s.pc i) → Own host body i pc) ∧ step host body s i = s.goto i pc) ∨
    ∃ d t, s.pc i = .hashed d ∧ Auth.saveAuth (host i) s.tree d = some t ∧
      step host body s i = State.goto { s with tree := t } i (.answered (some d)) := by
  have herror : Own host body i (.answered none) := fun d hd => absurd hd (by simp)
  unfold step
  cases hpc : s.pc i with
  | start =>
    refine Or.inr (Or.inl ?_)
    dsimp only
    split
    · exact ⟨_, rfl, rfl, fun _ => herror, rfl⟩
    · cases hp : password (body i) with
      | none => exact ⟨_, rfl, rfl, fun _ => herror, rfl⟩
      | some p => exact ⟨.checked p, rfl, rfl, fun _ => hp, rfl⟩
  | checked p =>
    refine Or.inr (Or.inl ?_)
    dsimp only
    split
    · exact ⟨_, rfl, rfl, fun _ => herror, rfl⟩
    · exact ⟨.passed p, rfl, rfl, fun hown => hown, rfl⟩
  | passed p =>
    refine Or.inr (Or.inl ?_)
    dsimp only
    cases hsalt : Auth.generateSalt (host i) with
    | none => exact ⟨_, rfl, rfl, fun _ => herror, rfl⟩
    | some salt =>
      refine ⟨_, rfl, rfl, fun hown => ?_, rfl⟩
      have hpassword : password (body i) = some p := hown
      show recordOf host body i = some _
      rw [recordOf, hpassword, hsalt]
      rfl
  | hashed d =>
    dsimp only
    cases hsave : Auth.saveAuth (host i) s.tree d with
    | none => exact Or.inr (Or.inl ⟨_, rfl, rfl, fun _ => herror, rfl⟩)
    | some t => exact Or.inr (Or.inr ⟨d, t, rfl, hsave, rfl⟩)
  | answered saved => exact Or.inl rfl

/-! ## Steps and the credential -/

theorem own_goto (h : ∀ i, Own host body i (s.pc i)) {i : ι} {pc : Pc} (hpc : Own host body i pc) :
    ∀ j, Own host body j ((s.goto i pc).pc j) := by
  intro j
  by_cases hj : j = i
  · subst hj
    rw [goto_self]
    exact hpc
  · rw [goto_other s hj]
    exact h j

/-- Without a save nobody is answered with OK. -/
theorem ok_goto {i : ι} {pc : Pc} (hi : (s.pc i).ok = false) (hpc : pc.ok = false) (j : ι) :
    ((s.goto i pc).pc j).ok = (s.pc j).ok := by
  by_cases hj : j = i
  · subst hj
    rw [goto_self, hi, hpc]
  · rw [goto_other s hj]

theorem Sound.goto (h : Sound host body s) {i : ι} {pc : Pc} (hi : (s.pc i).ok = false)
    (hpc : pc.ok = false) (hown : Own host body i pc) : Sound host body (s.goto i pc) where
  own := own_goto h.own hown
  stored := by
    obtain ⟨hnone, hread⟩ | ⟨j, d, hj, honly, hread⟩ := h.stored
    · exact Or.inl ⟨fun k => (ok_goto hi hpc k).trans (hnone k), hread⟩
    · have hji : j ≠ i := by
        intro hji
        rw [← hji, hj] at hi
        exact absurd hi (by simp [Pc.ok])
      refine Or.inr ⟨j, d, (goto_other s hji pc).trans hj, fun k hk => honly k ?_, hread⟩
      rw [← ok_goto hi hpc k]
      exact hk

theorem read_saveAuth {h : Host} {t t' : FileTree Str} {d : Doc}
    (hsave : Auth.saveAuth h t d = some t') : t'.read Auth.file = some (h.encode d) := by
  rw [Auth.saveAuth] at hsave
  split at hsave
  · exact FileTree.read_write hsave
  · exact absurd hsave (by simp)

/-- The first save. -/
theorem Sound.save (h : Sound host body s) (hnone : ∀ i, (s.pc i).ok = false) {i : ι} {d : Doc}
    {t : FileTree Str} (hpc : s.pc i = .hashed d)
    (hsave : Auth.saveAuth (host i) s.tree d = some t) :
    Sound host body (State.goto { s with tree := t } i (.answered (some d))) where
  own := by
    have hown : Own host body i (.hashed d) := hpc ▸ h.own i
    exact own_goto (s := { s with tree := t }) h.own fun d' hd => Option.some.inj hd ▸ hown
  stored := by
    refine Or.inr ⟨i, d, goto_self _ i _, fun j hj => ?_, read_saveAuth hsave⟩
    by_contra hji
    rw [goto_other _ hji] at hj
    exact absurd (hj.symm.trans (hnone j)) (by decide)

theorem Sound.step (hjson : Json host body) (h : Sound host body s) (i : ι)
    (hunset : unset host s i = true) : Sound host body (step host body s i) := by
  obtain heq | ⟨pc, hi, hpc, hown, heq⟩ | ⟨d, t, hi, hsave, heq⟩ := step_cases host body s i
  · rw [heq]
    exact h
  · rw [heq]
    exact h.goto hi hpc (hown (h.own i))
  · rw [unset, hi] at hunset
    dsimp only at hunset
    rw [hsave, Option.isNone_some, Bool.false_or, Bool.not_eq_true'] at hunset
    obtain ⟨hnone, -⟩ | ⟨j, e, hj, -, hread⟩ := h.stored
    · rw [heq]
      exact h.save hnone hi hsave
    · rw [(loadAuth_stored hjson (h.own_answered hj) hread i).2] at hunset
      exact absurd hunset (by decide)

/-- A save over a credential makes a second OK. -/
theorem Sound.step_twice (h : Sound host body s) (i : ι) (hset : ¬ unset host s i = true) :
    Twice (Setup.step host body s i) := by
  rw [unset] at hset
  cases hi : s.pc i with
  | hashed d =>
    rw [hi] at hset
    dsimp only at hset
    cases hsave : Auth.saveAuth (host i) s.tree d with
    | none =>
      rw [hsave] at hset
      exact absurd rfl hset
    | some t =>
      rw [hsave, Option.isNone_some, Bool.false_or] at hset
      obtain ⟨-, hread⟩ | ⟨j, e, hj, -, -⟩ := h.stored
      · rw [isConfigured_of_none hread] at hset
        exact absurd rfl hset
      · have hji : j ≠ i := by
          intro hji
          rw [hji, hi] at hj
          exact absurd hj (by simp)
        have hstep : Setup.step host body s i =
            State.goto { s with tree := t } i (.answered (some d)) := by
          rw [Setup.step, hi]
          dsimp only
          rw [hsave]
        rw [hstep]
        refine ⟨i, j, Ne.symm hji, by rw [goto_self]; rfl, ?_⟩
        rw [goto_other _ hji]
        show (s.pc j).ok = true
        rw [hj]
        rfl
  | start | checked _ | passed _ | answered _ =>
    rw [hi] at hset
    exact absurd rfl hset

/-- An answer stays. -/
theorem ok_step (s : State ι) (i : ι) {j : ι} (hj : (s.pc j).ok = true) :
    ((Setup.step host body s i).pc j).ok = true := by
  obtain heq | ⟨pc, hi, hpc, -, heq⟩ | ⟨d, t, hi, hsave, heq⟩ := step_cases host body s i
  · rw [heq]
    exact hj
  · rw [heq, ok_goto hi hpc]
    exact hj
  · have hji : j ≠ i := by
      intro hji
      rw [hji, hi] at hj
      exact absurd hj (by simp [Pc.ok])
    rw [heq, goto_other _ hji]
    exact hj

/-! ## One request alone

Without another request in between, the steps are the handler. -/

/-- The answer of the sequential handler, as far as it matters here. -/
def Agrees (s : State ι) (i : ι) (answer : Str × FileTree Str) : Prop :=
  s.tree = answer.2 ∧ ((s.pc i).ok = true ↔ answer.1 = "OK".toList)

theorem run_answered {i : ι} {saved : Option Doc} (h : s.pc i = .answered saved) (n : ℕ) :
    run (step host body) s (List.replicate n i) = s := by
  induction n with
  | zero => rfl
  | succ n ih =>
    have hstep : step host body s i = s := by rw [step, h]
    rw [List.replicate_succ, run_cons, hstep, ih]

theorem agrees_error {i : ι} {a : Str} (ha : a.head? = some 'E') (n : ℕ) :
    Agrees (run (step host body) (s.goto i (.answered none)) (List.replicate n i)) i
      (a, s.tree) := by
  rw [run_answered (goto_self s i _)]
  refine ⟨rfl, ?_⟩
  rw [goto_self]
  refine iff_of_false (by decide) fun h => ?_
  have ha' : a = "OK".toList := h
  rw [ha'] at ha
  exact absurd ha (by decide)

theorem setup_of_password {h : Host} {t : FileTree Str} {b : Option Str} {p : Str}
    (hunset : Auth.isConfigured h t = false) (hp : password b = some p) :
    Login.setup h t b = Login.setupWith h t p ∧ ¬ p.length < Auth.MIN_PASSWORD_LENGTH := by
  rw [password, Option.bind_eq_some_iff] at hp
  obtain ⟨form, hform, hp⟩ := hp
  rw [Option.bind_eq_some_iff] at hp
  obtain ⟨q, hq, hp⟩ := hp
  split_ifs at hp with hlen hconfirm
  obtain rfl := Option.some.inj hp
  refine ⟨?_, hlen⟩
  rw [Login.setup, hunset, hform]
  dsimp only
  rw [hq]
  dsimp only
  rw [if_neg Bool.false_ne_true, if_neg hlen, if_neg hconfirm]

theorem setup_of_no_password {h : Host} {t : FileTree Str} {b : Option Str}
    (hunset : Auth.isConfigured h t = false) (hp : password b = none) :
    ∃ a, Login.setup h t b = (a, t) ∧ a.head? = some 'E' := by
  rw [Login.setup, hunset, if_neg Bool.false_ne_true]
  rw [password] at hp
  cases hform : b.bind parsePost with
  | none => exact ⟨_, rfl, rfl⟩
  | some form =>
    dsimp only
    rw [hform, Option.bind_some] at hp
    cases hq : field form "password" with
    | none => exact ⟨_, rfl, rfl⟩
    | some q =>
      dsimp only
      rw [hq, Option.bind_some] at hp
      split
      · exact ⟨_, rfl, rfl⟩
      · rename_i hlen
        rw [if_neg hlen] at hp
        split
        · exact ⟨_, rfl, rfl⟩
        · rename_i hconfirm
          rw [if_neg hconfirm] at hp
          exact absurd hp (by simp)

theorem setupWith_eq {h : Host} {t : FileTree Str} {p : Str}
    (hunset : Auth.isConfigured h t = false) (hlen : ¬ p.length < Auth.MIN_PASSWORD_LENGTH) :
    Login.setupWith h t p =
      match Auth.generateSalt h with
      | none => ("ERROR: failed to generate salt".toList, t)
      | some salt =>
        match Auth.saveAuth h t (Login.record h p salt) with
        | none => ("ERROR: atomic write failed".toList, t)
        | some t' => ("OK".toList, t') := by
  rw [Login.setupWith, Auth.setupAdmin, if_neg hlen, hunset, if_neg Bool.false_ne_true,
    if_neg (by decide), if_neg (by decide)]
  cases Auth.generateSalt h with
  | none => rfl
  | some salt =>
    dsimp only
    rw [Login.record]
    cases Auth.saveAuth h t (Auth.authData h "admin".toList
      (Auth.hashPassword h p salt Auth.HASH_ITERATIONS) salt) with
    | none => rfl
    | some t' => rfl

theorem goto_goto (s : State ι) (i : ι) (pc pc' : Pc) :
    (s.goto i pc).goto i pc' = s.goto i pc' := by
  simp [State.goto]

theorem agrees_alone (i : ι) (h : s.pc i = .start) :
    Agrees (run (step host body) s (List.replicate 4 i)) i
      (Login.setup (host i) s.tree (body i)) := by
  have hfirst := step.eq_def host body s i
  rw [h] at hfirst
  dsimp only at hfirst
  rw [List.replicate_succ, run_cons, hfirst]
  by_cases hconf : Auth.isConfigured (host i) s.tree = true
  · rw [if_pos hconf, Login.setup, if_pos hconf]
    exact agrees_error rfl 3
  · rw [if_neg hconf]
    have hunset := Bool.not_eq_true _ |>.mp hconf
    cases hp : password (body i) with
    | none =>
      obtain ⟨a, heq, ha⟩ := setup_of_no_password hunset hp
      rw [heq]
      exact agrees_error ha 3
    | some p =>
      obtain ⟨heq, hlen⟩ := setup_of_password hunset hp
      have hsecond : step host body (s.goto i (.checked p)) i = s.goto i (.passed p) := by
        rw [step, goto_self]
        show (if Auth.isConfigured (host i) s.tree then _ else _) = _
        rw [if_neg hconf, goto_goto]
      rw [heq, setupWith_eq hunset hlen, Option.elim_some, List.replicate_succ, run_cons, hsecond,
        List.replicate_succ, run_cons, step, goto_self]
      dsimp only
      rw [goto_goto]
      cases hsalt : Auth.generateSalt (host i) with
      | none => exact agrees_error rfl 1
      | some salt =>
        dsimp only [Option.elim_some]
        rw [List.replicate_succ, run_cons, step, goto_self]
        dsimp only
        show Agrees (run _
          (match Auth.saveAuth (host i) s.tree _ with | none => _ | some t => _) []) i _
        cases hsave : Auth.saveAuth (host i) s.tree (Login.record (host i) p salt) with
        | none =>
          dsimp only
          rw [goto_goto]
          exact agrees_error rfl 0
        | some t =>
          refine ⟨rfl, iff_of_true ?_ rfl⟩
          show ((State.goto _ i _).pc i).ok = true
          rw [goto_self]
          rfl

end

/-- However the requests interleave, at most one of them succeeds and its credential is
the one that is stored, exactly when no save finds a credential. -/
theorem setup_once_iff {ι : Type} [DecidableEq ι] (host : ι → Host) (body : ι → Option Str)
    (hjson : Json host body) {t : FileTree Str} (hnone : t.read Auth.file = none) (sched : List ι) :
    Once host (run (step host body) (start t) sched) ↔
      Along (step host body) (fun s i => unset host s i = true) (start t) sched := by
  have hbroken (s : State ι) (i : ι) (h : Twice s) : Twice (step host body s i) := by
    obtain ⟨j, k, hjk, hj, hk⟩ := h
    exact ⟨j, k, hjk, ok_step s i hj, ok_step s i hk⟩
  obtain ⟨hall, hsound⟩ | ⟨hnot, j, k, hjk, hj, hk⟩ :=
    inv_or_broken (fun s i h hi => Sound.step hjson h i hi)
      (fun s i h hi => h.step_twice i hi) hbroken
      sched (sound_start host body hnone)
  · exact iff_of_true (hsound.once hjson) hall
  · exact iff_of_false (fun honce => hjk (honce.unique j k hj hk)) hnot

/-! Two administrators with different passwords. -/

def chosen : Bool → List Char
  | true => "password".toList
  | false => "12345678".toList

def worker (w : Bool) : Host where
  now := 1000
  decode := Doc.decode
  encode := Doc.encode
  sha1_bin := fun _ => []
  encode_base64 := id
  urandom := fun n => some (List.replicate n '0')
  date := if w then "2024-01-01 09:00:00".toList else "2024-01-01 09:00:01".toList
  saves := true

def form (w : Bool) : Option Str := some (setupBody (chosen w))

theorem password_form (w : Bool) : password (form w) = some (chosen w) := by
  cases w with
  | true => decide +kernel
  | false => decide +kernel

theorem json_worker : Json worker form := by
  intro i j d hd
  rw [recordOf, password_form, Option.bind_some] at hd
  obtain ⟨salt, -, rfl⟩ := Option.map_eq_some_iff.mp hd
  exact Auth.decode_encode_authData (worker i) _ _ salt

theorem read_freshTree : Login.freshTree.read Auth.file = none := by decide +kernel

/-- The second request starts when the first one has saved. -/
theorem setup_in_turn : Once worker (run (step worker form) (start Login.freshTree)
    [true, true, true, true, false]) :=
  (setup_once_iff worker form json_worker read_freshTree _).mpr (by decide +kernel)

/-- Both requests look before one of them saves. -/
theorem setup_twice : Json worker form ∧ Login.freshTree.read Auth.file = none ∧
    ¬ Once worker (run (step worker form) (start Login.freshTree)
      [true, false, true, false, true, false, true, false]) := by
  refine ⟨json_worker, read_freshTree, fun h => ?_⟩
  have hboth := h.unique true false (by decide +kernel) (by decide +kernel)
  exact absurd hboth (by decide)

end Setup
end Control
end MkyBoot
