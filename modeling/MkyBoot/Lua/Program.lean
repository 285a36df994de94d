import MkyBoot.Lua.Value

/-!
# Programs with polling loops

A program changes a state.  Its parts are state changes that may raise an error,
sequences, branches and loops that poll a condition before every round.  `eval`
allows every loop a number of rounds, and a program ends in an outcome when some
number suffices.  A program that ends in none polls for ever.

The rules say how programs end part by part, how an invariant of the state changes
carries over to the programs made of them, and when a loop cannot be left.
-/

namespace MkyBoot
namespace Lua

inductive Prog (σ : Type) where
  | act (f : σ → Call σ)
  | seq (p q : Prog σ)
  | cond (c : σ → Bool) (p q : Prog σ)
  | poll (c : σ → Call Bool) (body : Prog σ)

namespace Prog

variable {σ : Type}

/-- What follows a call, unless it has raised. -/
def follow (k : σ → Option (Call σ)) : Call σ → Option (Call σ)
  | .raised => some .raised
  | .returned s => k s

/-- At most `n` rounds of a loop. -/
def rounds (c : σ → Call Bool) (body : σ → Option (Call σ)) (n : ℕ) (s : σ) : Option (Call σ) :=
  match c s, n with
  | .raised, _ => some .raised
  | .returned false, _ => some (.returned s)
  | .returned true, 0 => none
  | .returned true, n + 1 => (body s).bind (follow (rounds c body n))

def eval (n : ℕ) : Prog σ → σ → Option (Call σ)
  | act f, s => some (f s)
  | seq p q, s => (eval n p s).bind (follow (eval n q))
  | cond c p q, s => if c s then eval n p s else eval n q s
  | poll c body, s => rounds c (eval n body) n s

theorem eval_seq (n : ℕ) (p q : Prog σ) (s : σ) :
    eval n (seq p q) s = (eval n p s).bind (follow (eval n q)) := rfl

theorem eval_cond (n : ℕ) (c : σ → Bool) (p q : Prog σ) (s : σ) :
    eval n (cond c p q) s = if c s then eval n p s else eval n q s := rfl

theorem eval_poll (n : ℕ) (c : σ → Call Bool) (body : Prog σ) (s : σ) :
    eval n (poll c body) s = rounds c (eval n body) n s := rfl

def Ends (p : Prog σ) (s : σ) (o : Call σ) : Prop := ∃ n, eval n p s = some o

def Halts (p : Prog σ) (s : σ) : Prop := ∃ o, Ends p s o

def set (f : σ → σ) : Prog σ := act fun s => .returned (f s)

def skip : Prog σ := set id

/-- The programs of a list one after the other. -/
def each {α : Type} (l : List α) (f : α → Prog σ) : Prog σ := l.foldr (fun x p => seq (f x) p) skip

/-! ## Rounds -/

section

variable {c : σ → Call Bool} {body : σ → Option (Call σ)} {s : σ}

theorem rounds_eq (n : ℕ) : rounds c body n s =
    match c s, n with
    | .raised, _ => some .raised
    | .returned false, _ => some (.returned s)
    | .returned true, 0 => none
    | .returned true, n + 1 => (body s).bind (follow (rounds c body n)) := by
  rw [rounds.eq_def]

theorem rounds_raised (h : c s = .raised) (n : ℕ) : rounds c body n s = some .raised := by
  rw [rounds_eq, h]

theorem rounds_false (h : c s = .returned false) (n : ℕ) :
    rounds c body n s = some (.returned s) := by
  rw [rounds_eq, h]

theorem rounds_zero (h : c s = .returned true) : rounds c body 0 s = none := by
  rw [rounds_eq, h]

theorem rounds_succ (h : c s = .returned true) (n : ℕ) :
    rounds c body (n + 1) s = (body s).bind (follow (rounds c body n)) := by
  rw [rounds_eq, h]

end

theorem bind_follow_iff {x : Option (Call σ)} {k : σ → Option (Call σ)} {o : Call σ} :
    x.bind (follow k) = some o ↔
      (x = some .raised ∧ o = .raised) ∨ ∃ t, x = some (.returned t) ∧ k t = some o := by
  rw [Option.bind_eq_some_iff]
  constructor
  · rintro ⟨r, hr, ho⟩
    cases r with
    | raised => exact Or.inl ⟨hr, (Option.some.inj ho).symm⟩
    | returned t => exact Or.inr ⟨t, hr, ho⟩
  · rintro (⟨hr, rfl⟩ | ⟨t, hr, ho⟩)
    · exact ⟨.raised, hr, rfl⟩
    · exact ⟨.returned t, hr, ho⟩

/-- More rounds, of the loop and inside of it, change no outcome. -/
theorem rounds_mono {c : σ → Call Bool} {body body' : σ → Option (Call σ)}
    (hbody : ∀ s o, body s = some o → body' s = some o) {n m : ℕ} (hnm : n ≤ m) {s : σ}
    {o : Call σ} (h : rounds c body n s = some o) : rounds c body' m s = some o := by
  induction n generalizing s m with
  | zero =>
    cases hc : c s with
    | raised => rwa [rounds_raised hc] at h ⊢
    | returned b =>
      cases b with
      | false => rwa [rounds_false hc] at h ⊢
      | true => exact absurd (h.symm.trans (rounds_zero hc)) (by simp)
  | succ n ih =>
    cases hc : c s with
    | raised => rwa [rounds_raised hc] at h ⊢
    | returned b =>
      cases b with
      | false => rwa [rounds_false hc] at h ⊢
      | true =>
        obtain ⟨m, rfl⟩ : ∃ k, m = k + 1 := ⟨m - 1, by omega⟩
        rw [rounds_succ hc, bind_follow_iff] at h ⊢
        obtain ⟨hs, ho⟩ | ⟨t, hs, ht⟩ := h
        · exact Or.inl ⟨hbody s _ hs, ho⟩
        · exact Or.inr ⟨t, hbody s _ hs, ih (by omega) ht⟩

/-- A loop is left where its condition fails, and a preorder that holds of its rounds
holds from its first state to its last. -/
theorem rounds_returned {R : σ → σ → Prop} (hrefl : ∀ s, R s s)
    (htrans : ∀ s t u, R s t → R t u → R s u) {c : σ → Call Bool} {body : σ → Option (Call σ)}
    (hbody : ∀ s t, body s = some (.returned t) → R s t) {n : ℕ} {s t : σ}
    (h : rounds c body n s = some (.returned t)) : R s t ∧ c t = .returned false := by
  have hexit (n : ℕ) {s : σ} (hc : c s = .returned false)
      (h : rounds c body n s = some (.returned t)) : R s t ∧ c t = .returned false := by
    rw [rounds_false hc, Option.some.injEq, Call.returned.injEq] at h
    exact h ▸ ⟨hrefl s, hc⟩
  induction n generalizing s with
  | zero =>
    cases hc : c s with
    | raised => exact absurd ((rounds_raised hc 0).symm.trans h) (by simp)
    | returned b =>
      cases b with
      | false => exact hexit 0 hc h
      | true => exact absurd ((rounds_zero hc).symm.trans h) (by simp)
  | succ n ih =>
    cases hc : c s with
    | raised => exact absurd ((rounds_raised hc _).symm.trans h) (by simp)
    | returned b =>
      cases b with
      | false => exact hexit (n + 1) hc h
      | true =>
        rw [rounds_succ hc, bind_follow_iff] at h
        obtain ⟨-, ho⟩ | ⟨u, hs, hu⟩ := h
        · exact absurd ho (by simp)
        · obtain ⟨hut, hct⟩ := ih hu
          exact ⟨htrans s u t (hbody s u hs) hut, hct⟩

theorem eval_mono {n m : ℕ} (hnm : n ≤ m) {p : Prog σ} {s : σ} {o : Call σ}
    (h : eval n p s = some o) : eval m p s = some o := by
  induction p generalizing s o with
  | act f => exact h
  | seq p q ihp ihq =>
    rw [eval_seq, bind_follow_iff] at h ⊢
    obtain ⟨hp, ho⟩ | ⟨t, hp, hq⟩ := h
    · exact Or.inl ⟨ihp hp, ho⟩
    · exact Or.inr ⟨t, ihp hp, ihq hq⟩
  | cond c p q ihp ihq =>
    rw [eval_cond] at h ⊢
    by_cases hc : c s = true
    · rw [if_pos hc] at h ⊢
      exact ihp h
    · rw [if_neg hc] at h ⊢
      exact ihq h
  | poll c body ih => exact rounds_mono (fun s o hs => ih hs) hnm h

/-! ## How programs end -/

section

variable {p q : Prog σ} {s : σ} {o : Call σ}

theorem Ends.unique {o' : Call σ} (h : Ends p s o) (h' : Ends p s o') : o = o' := by
  obtain ⟨n, hn⟩ := h
  obtain ⟨m, hm⟩ := h'
  have hmax := eval_mono (Nat.le_max_left n m) hn
  rw [eval_mono (Nat.le_max_right n m) hm] at hmax
  exact (Option.some.inj hmax).symm

theorem ends_act {f : σ → Call σ} : Ends (act f) s o ↔ o = f s :=
  ⟨fun ⟨_, h⟩ => (Option.some.inj h).symm, fun h => ⟨0, congrArg some h.symm⟩⟩

theorem ends_set {f : σ → σ} : Ends (set f) s o ↔ o = .returned (f s) := ends_act

theorem ends_skip : Ends skip s o ↔ o = .returned s := ends_act

theorem ends_seq : Ends (seq p q) s o ↔
    (Ends p s .raised ∧ o = .raised) ∨ ∃ t, Ends p s (.returned t) ∧ Ends q t o := by
  constructor
  · rintro ⟨n, h⟩
    rw [eval_seq, bind_follow_iff] at h
    obtain ⟨hp, ho⟩ | ⟨t, hp, hq⟩ := h
    · exact Or.inl ⟨⟨n, hp⟩, ho⟩
    · exact Or.inr ⟨t, ⟨n, hp⟩, ⟨n, hq⟩⟩
  · rintro (⟨⟨n, hp⟩, ho⟩ | ⟨t, ⟨n, hp⟩, ⟨m, hq⟩⟩)
    · exact ⟨n, by rw [eval_seq, bind_follow_iff]; exact Or.inl ⟨hp, ho⟩⟩
    · refine ⟨max n m, ?_⟩
      rw [eval_seq, bind_follow_iff]
      exact Or.inr ⟨t, eval_mono (Nat.le_max_left n m) hp, eval_mono (Nat.le_max_right n m) hq⟩

theorem ends_seq_returned {u : σ} : Ends (seq p q) s (.returned u) ↔
    ∃ t, Ends p s (.returned t) ∧ Ends q t (.returned u) := by
  rw [ends_seq, or_iff_right fun h => absurd h.2 (by simp)]

theorem ends_cond {c : σ → Bool} :
    Ends (cond c p q) s o ↔ if c s then Ends p s o else Ends q s o := by
  by_cases hc : c s = true
  · simp only [Ends, eval_cond, hc, if_true]
  · simp only [Ends, eval_cond, if_neg hc]

variable {c : σ → Call Bool}

theorem ends_poll_raised (h : c s = .raised) : Ends (poll c p) s o ↔ o = .raised := by
  simp only [Ends, eval_poll, rounds_raised h, Option.some.injEq, exists_const]
  exact eq_comm

theorem ends_poll_false (h : c s = .returned false) :
    Ends (poll c p) s o ↔ o = .returned s := by
  simp only [Ends, eval_poll, rounds_false h, Option.some.injEq, exists_const]
  exact eq_comm

theorem ends_poll_true (h : c s = .returned true) :
    Ends (poll c p) s o ↔ Ends (seq p (poll c p)) s o := by
  rw [ends_seq]
  constructor
  · rintro ⟨n, hn⟩
    rw [eval_poll] at hn
    cases n with
    | zero => exact absurd (hn.symm.trans (rounds_zero h)) (by simp)
    | succ n =>
      rw [rounds_succ h, bind_follow_iff] at hn
      obtain ⟨hp, ho⟩ | ⟨t, hp, ht⟩ := hn
      · exact Or.inl ⟨⟨n + 1, hp⟩, ho⟩
      · exact Or.inr ⟨t, ⟨n + 1, hp⟩, n + 1, rounds_mono (fun _ _ hs => hs) (Nat.le_succ n) ht⟩
  · rintro (⟨⟨n, hp⟩, ho⟩ | ⟨t, ⟨n, hp⟩, ⟨m, ht⟩⟩)
    · refine ⟨n + 1, ?_⟩
      rw [eval_poll, rounds_succ h, bind_follow_iff]
      exact Or.inl ⟨eval_mono (Nat.le_succ n) hp, ho⟩
    · refine ⟨max n m + 1, ?_⟩
      rw [eval_poll, rounds_succ h, bind_follow_iff]
      rw [eval_poll] at ht
      refine Or.inr ⟨t, eval_mono (by omega) hp, ?_⟩
      exact rounds_mono (fun _ _ hs => eval_mono (by omega) hs) (by omega) ht

/-- A loop whose condition stays true is not left. -/
theorem not_halts_poll {I : σ → Prop} (hc : ∀ s, I s → c s = .returned true)
    (hraise : ∀ s, I s → ¬ Ends p s .raised) (hbody : ∀ s t, I s → Ends p s (.returned t) → I t)
    (hs : I s) : ¬ Halts (poll c p) s := by
  rintro ⟨o, m, hm⟩
  have hnone : ∀ n t, I t → rounds c (eval m p) n t = none := by
    intro n
    induction n with
    | zero => exact fun t ht => rounds_zero (hc t ht)
    | succ n ih =>
      intro t ht
      rw [rounds_succ (hc t ht)]
      cases hp : eval m p t with
      | none => rfl
      | some r =>
        cases r with
        | raised => exact absurd ⟨m, hp⟩ (hraise t ht)
        | returned u => exact ih u (hbody t u ht ⟨m, hp⟩)
  exact absurd (hm.symm.trans (hnone m s hs)) (by simp)

theorem poll_exit {t : σ} (h : Ends (poll c p) s (.returned t)) : c t = .returned false := by
  obtain ⟨n, hn⟩ := h
  exact (rounds_returned (R := fun _ _ => True) (fun _ => trivial) (fun _ _ _ _ _ => trivial)
    (fun _ _ _ => trivial) hn).2

theorem halts_seq : Halts (seq p q) s ↔
    Ends p s .raised ∨ ∃ t, Ends p s (.returned t) ∧ Halts q t := by
  constructor
  · rintro ⟨o, ho⟩
    obtain ⟨hp, -⟩ | ⟨t, hp, hq⟩ := ends_seq.mp ho
    · exact Or.inl hp
    · exact Or.inr ⟨t, hp, o, hq⟩
  · rintro (hp | ⟨t, hp, o, hq⟩)
    · exact ⟨.raised, ends_seq.mpr (Or.inl ⟨hp, rfl⟩)⟩
    · exact ⟨o, ends_seq.mpr (Or.inr ⟨t, hp, hq⟩)⟩

theorem halts_act (f : σ → Call σ) (s : σ) : Halts (act f) s := ⟨_, ends_act.mpr rfl⟩

theorem halts_seq_left (hq : ∀ s, Halts q s) : Halts (seq p q) s ↔ Halts p s := by
  rw [halts_seq]
  constructor
  · rintro (h | ⟨t, ht, -⟩)
    · exact ⟨.raised, h⟩
    · exact ⟨.returned t, ht⟩
  · rintro ⟨o, ho⟩
    cases o with
    | raised => exact Or.inl ho
    | returned t => exact Or.inr ⟨t, ho, hq t⟩

theorem halts_poll_of_ne (h : c s ≠ .returned true) : Halts (poll c p) s := by
  cases hc : c s with
  | raised => exact ⟨_, (ends_poll_raised hc).mpr rfl⟩
  | returned b =>
    cases b with
    | false => exact ⟨_, (ends_poll_false hc).mpr rfl⟩
    | true => exact absurd hc h

/-- A loop that its first round does not lead out of is never left. -/
theorem ends_poll_settled {f : σ → Call σ} {I : σ → Prop} (h : c s = .returned true)
    (hfirst : ∀ t, f s = .returned t → c t = .returned true → I t)
    (hnext : ∀ t, I t → c t = .returned true ∧ ∃ u, f t = .returned u ∧ I u) :
    Ends (poll c (act f)) s o ↔ (f s = .raised ∧ o = .raised) ∨
      ∃ t, f s = .returned t ∧ c t ≠ .returned true ∧ Ends (poll c (act f)) t o := by
  have hstuck (t : σ) (ht : I t) : ¬ Halts (poll c (act f)) t := by
    refine not_halts_poll (fun t ht => (hnext t ht).1) (fun t ht hr => ?_) (fun t u ht hu => ?_) ht
    · obtain ⟨u, hu, -⟩ := (hnext t ht).2
      rw [ends_act, hu] at hr
      exact absurd hr (by simp)
    · obtain ⟨v, hv, hIv⟩ := (hnext t ht).2
      rw [ends_act, hv] at hu
      exact Call.returned.inj hu ▸ hIv
  rw [ends_poll_true h, ends_seq]
  simp only [ends_act]
  constructor
  · rintro (⟨hr, ho⟩ | ⟨t, ht, ho⟩)
    · exact Or.inl ⟨hr.symm, ho⟩
    · exact Or.inr ⟨t, ht.symm, fun hc => hstuck t (hfirst t ht.symm hc) ⟨o, ho⟩, ho⟩
  · rintro (⟨hr, ho⟩ | ⟨t, ht, -, ho⟩)
    · exact Or.inl ⟨hr.symm, ho⟩
    · exact Or.inr ⟨t, ht.symm, ho⟩

theorem halts_poll_settled {f : σ → Call σ} {I : σ → Prop} (h : c s = .returned true)
    (hfirst : ∀ t, f s = .returned t → c t = .returned true → I t)
    (hnext : ∀ t, I t → c t = .returned true ∧ ∃ u, f t = .returned u ∧ I u) :
    Halts (poll c (act f)) s ↔ f s = .raised ∨ ∃ t, f s = .returned t ∧ c t ≠ .returned true := by
  constructor
  · rintro ⟨o, ho⟩
    obtain ⟨hr, -⟩ | ⟨t, ht, hc, -⟩ := (ends_poll_settled h hfirst hnext).mp ho
    · exact Or.inl hr
    · exact Or.inr ⟨t, ht, hc⟩
  · rintro (hr | ⟨t, ht, hc⟩)
    · exact ⟨_, (ends_poll_settled h hfirst hnext).mpr (Or.inl ⟨hr, rfl⟩)⟩
    · obtain ⟨o, ho⟩ : Halts (poll c (act f)) t := halts_poll_of_ne hc
      exact ⟨o, (ends_poll_settled h hfirst hnext).mpr (Or.inr ⟨t, ht, hc, ho⟩)⟩

end

/-! ## Lists of programs -/

section

variable {α : Type} {f : α → Prog σ}

theorem each_nil : each [] f = skip := rfl

theorem each_cons (x : α) (l : List α) : each (x :: l) f = seq (f x) (each l f) := rfl

theorem halts_each (l : List α) (h : ∀ x ∈ l, ∀ s, Halts (f x) s) (s : σ) :
    Halts (each l f) s := by
  induction l generalizing s with
  | nil => exact ⟨_, ends_skip.mpr rfl⟩
  | cons x l ih =>
    rw [each_cons, halts_seq_left (ih fun y hy => h y (List.mem_cons_of_mem x hy))]
    exact h x List.mem_cons_self s

/-- A list of programs that all end is a fold. -/
theorem ends_each_iff {g : σ → α → σ} (h : ∀ x s o, Ends (f x) s o ↔ o = .returned (g s x))
    (l : List α) (s : σ) (o : Call σ) : Ends (each l f) s o ↔ o = .returned (l.foldl g s) := by
  induction l generalizing s with
  | nil => exact ends_skip
  | cons x l ih =>
    rw [each_cons, ends_seq, List.foldl_cons, ← ih (g s x)]
    constructor
    · rintro (⟨hr, -⟩ | ⟨t, ht, ho⟩)
      · exact absurd ((h x s _).mp hr) (by simp)
      · rw [h, Call.returned.injEq] at ht
        exact ht ▸ ho
    · exact fun ho => Or.inr ⟨g s x, (h x s _).mpr rfl, ho⟩

end

/-! ## Programs that return -/

/-- From every state the program returns, and what it did is in the relation. -/
def Returns (R : σ → σ → Prop) (p : Prog σ) : Prop := ∀ s, ∃ t, Ends p s (.returned t) ∧ R s t

section

variable {R : σ → σ → Prop} {p q : Prog σ}

theorem Returns.set {f : σ → σ} (h : ∀ s, R s (f s)) : Returns R (set f) := fun s =>
  ⟨f s, ends_set.mpr rfl, h s⟩

theorem Returns.seq (htrans : ∀ s t u, R s t → R t u → R s u) (hp : Returns R p)
    (hq : Returns R q) : Returns R (seq p q) := by
  intro s
  obtain ⟨t, ht, hst⟩ := hp s
  obtain ⟨u, hu, htu⟩ := hq t
  exact ⟨u, ends_seq.mpr (Or.inr ⟨t, ht, hu⟩), htrans s t u hst htu⟩

theorem Returns.cond {c : σ → Bool} (hp : Returns R p) (hq : Returns R q) :
    Returns R (cond c p q) := by
  intro s
  by_cases hc : c s = true
  · obtain ⟨t, ht, hst⟩ := hp s
    exact ⟨t, ends_cond.mpr (by rwa [if_pos hc]), hst⟩
  · obtain ⟨t, ht, hst⟩ := hq s
    exact ⟨t, ends_cond.mpr (by rwa [if_neg hc]), hst⟩

/-- A loop that is never entered. -/
theorem Returns.poll_false (hrefl : ∀ s, R s s) {c : σ → Bool} (hc : ∀ s, c s = false) :
    Returns R (poll (fun s => .returned (c s)) p) := fun s =>
  ⟨s, (ends_poll_false (by rw [hc])).mpr rfl, hrefl s⟩

/-- A loop that is left after one round at the latest. -/
theorem Returns.poll_once (hrefl : ∀ s, R s s) {c : σ → Bool} {f : σ → σ} (hf : ∀ s, R s (f s))
    (hc : ∀ s, c (f s) = false) : Returns R (poll (fun s => .returned (c s)) (Prog.set f)) := by
  intro s
  cases hs : c s with
  | false => exact ⟨s, (ends_poll_false (by rw [hs])).mpr rfl, hrefl s⟩
  | true =>
    refine ⟨f s, (ends_poll_true (by rw [hs])).mpr (ends_seq.mpr (Or.inr ⟨f s, ?_, ?_⟩)), hf s⟩
    · exact ends_set.mpr rfl
    · exact (ends_poll_false (by rw [hc])).mpr rfl

theorem Returns.each {α : Type} {f : α → Prog σ} (hrefl : ∀ s, R s s)
    (htrans : ∀ s t u, R s t → R t u → R s u) {l : List α} (h : ∀ x ∈ l, Returns R (f x)) :
    Returns R (each l f) := by
  induction l with
  | nil => exact Returns.set hrefl
  | cons x l ih =>
    exact Returns.seq htrans (h x List.mem_cons_self)
      (ih fun y hy => h y (List.mem_cons_of_mem x hy))

/-- What comes after a program that returns decides whether both halt. -/
theorem Returns.halts_seq_iff (hp : Returns R p) {s : σ} {C : Prop}
    (hq : ∀ t, R s t → (Halts q t ↔ C)) : Halts (Prog.seq p q) s ↔ C := by
  obtain ⟨t, ht, hst⟩ := hp s
  rw [← hq t hst, halts_seq]
  constructor
  · rintro (hr | ⟨u, hu, h⟩)
    · exact absurd (hr.unique ht) (by simp)
    · exact Call.returned.inj (hu.unique ht) ▸ h
  · exact fun h => Or.inr ⟨t, ht, h⟩

end

/-! ## Evaluation -/

/-- The state in which a program returns within a bound. -/
def result (n : ℕ) (p : Prog σ) (s : σ) : Option σ :=
  match eval n p s with
  | some (.returned t) => some t
  | _ => none

theorem ends_of_result {n : ℕ} {p : Prog σ} {s t : σ} (h : result n p s = some t) :
    Ends p s (.returned t) := by
  refine ⟨n, ?_⟩
  unfold result at h
  split at h
  · rename_i u hu
    rw [hu, Option.some.inj h]
  · exact absurd h (by simp)

/-! ## Invariants -/

/-- Every state change of the program meets a condition. -/
def Acts (P : (σ → Call σ) → Prop) : Prog σ → Prop
  | act f => P f
  | seq p q => Acts P p ∧ Acts P q
  | cond _ p q => Acts P p ∧ Acts P q
  | poll _ body => Acts P body

/-- The changes a state change can make are in the relation. -/
def Within (R : σ → σ → Prop) (f : σ → Call σ) : Prop := ∀ s t, f s = .returned t → R s t

/-- What every state change of a program does up to a preorder, the program does. -/
theorem Ends.within {R : σ → σ → Prop} (hrefl : ∀ s, R s s)
    (htrans : ∀ s t u, R s t → R t u → R s u) {p : Prog σ} (hp : p.Acts (Within R)) {s t : σ}
    (h : Ends p s (.returned t)) : R s t := by
  obtain ⟨n, hn⟩ := h
  induction p generalizing s t with
  | act f => exact hp s t (Option.some.inj hn)
  | seq p q ihp ihq =>
    rw [eval_seq, bind_follow_iff] at hn
    obtain ⟨-, ho⟩ | ⟨u, hu, ht⟩ := hn
    · exact absurd ho (by simp)
    · exact htrans s u t (ihp hp.1 hu) (ihq hp.2 ht)
  | cond c p q ihp ihq =>
    rw [eval_cond] at hn
    by_cases hc : c s = true
    · rw [if_pos hc] at hn
      exact ihp hp.1 hn
    · rw [if_neg hc] at hn
      exact ihq hp.2 hn
  | poll c body ih => exact (rounds_returned hrefl htrans (fun _ _ hs => ih hp hs) hn).1

/-- Some state change of the program meets a condition. -/
def Has (P : (σ → Call σ) → Prop) : Prog σ → Prop
  | act f => P f
  | seq p q => Has P p ∨ Has P q
  | cond _ p q => Has P p ∨ Has P q
  | poll _ body => Has P body

theorem Acts.has {P Q : (σ → Call σ) → Prop} {p : Prog σ} (h : p.Acts P) (h' : p.Has Q) :
    ∃ f, P f ∧ Q f := by
  induction p with
  | act f => exact ⟨f, h, h'⟩
  | seq p q ihp ihq | cond c p q ihp ihq => exact h'.elim (ihp h.1) (ihq h.2)
  | poll c body ih => exact ih h h'

theorem foldl_within {R : σ → σ → Prop} (hrefl : ∀ s, R s s)
    (htrans : ∀ s t u, R s t → R t u → R s u) {α : Type} {f : σ → α → σ} {l : List α}
    (h : ∀ s, ∀ x ∈ l, R s (f s x)) (s : σ) : R s (l.foldl f s) := by
  induction l generalizing s with
  | nil => exact hrefl s
  | cons x l ih =>
    exact htrans s (f s x) _ (h s x List.mem_cons_self)
      (ih (fun s y hy => h s y (List.mem_cons_of_mem x hy)) (f s x))

theorem foldl_part {α β : Type} (part : σ → β) {f : σ → α → σ} {l : List α}
    (h : ∀ s, ∀ x ∈ l, part (f s x) = part s) (s : σ) : part (l.foldl f s) = part s := by
  have htrans (s t u : σ) (hst : part t = part s) (htu : part u = part t) : part u = part s :=
    htu.trans hst
  exact foldl_within (R := fun s t => part t = part s) (fun _ => rfl) htrans h s

theorem within_set {R : σ → σ → Prop} {f : σ → σ} (h : ∀ s, R s (f s)) :
    (set f).Acts (Within R) := by
  intro s t ht
  rw [← Call.returned.inj ht]
  exact h s

theorem acts_each {α : Type} {f : α → Prog σ} {P : (σ → Call σ) → Prop} (hskip : P .returned)
    {l : List α} (h : ∀ x ∈ l, (f x).Acts P) : (each l f).Acts P := by
  induction l with
  | nil => exact hskip
  | cons x l ih =>
    exact ⟨h x List.mem_cons_self, ih fun y hy => h y (List.mem_cons_of_mem x hy)⟩

end Prog

end Lua
end MkyBoot
