import MkyBoot.Lua.Pattern

/-!
# Patterns that search for themselves

A program that hands a name to `string.find` searches for the name itself only if the
matcher takes every character of it for an item of its own.  For the other patterns a
match can be cut down: a repeated item needs at most two characters, so a pattern that
matches anything also matches a text that is too short to hold the pattern.
`literal_iff` draws the line.
-/

namespace MkyBoot
namespace Lua
namespace Pattern

/-! ## Places the matcher passes

A search does not end with `false` as soon as it matches somewhere or comes to a malformed
item. -/

def Passes (n : ℕ) (p : Str) (pos : Pos) : Prop := matchAt n p pos ≠ .returned false

theorem passes_nil (n : ℕ) (pos : Pos) : Passes (n + 1) [] pos := by
  rw [Passes, matchAt]
  simp

theorem firstHit_ne {l : List (Call Bool)} :
    firstHit l ≠ .returned false ↔ ∃ r ∈ l, r ≠ .returned false := by
  induction l with
  | nil => simp [firstHit]
  | cons r l ih =>
    cases r with
    | raised => simp [firstHit]
    | returned b => cases b <;> simp [firstHit, ih]

theorem firstHit_returned {α : Type} (f : α → Bool) (l : List α) :
    firstHit (l.map fun a => .returned (f a)) = .returned (l.any f) := by
  induction l with
  | nil => rfl
  | cons a l ih => cases h : f a <;> simp [firstHit, h, ih]

theorem step_ne {x : Single} {k : Pos → Call Bool} {pos : Pos} :
    step x k pos ≠ .returned false ↔
      ∃ c cs, pos.rest = c :: cs ∧ x.accepts c = true ∧ k ⟨c, cs⟩ ≠ .returned false := by
  rw [step.eq_def]
  cases hrest : pos.rest with
  | nil => simp
  | cons c cs => by_cases hc : x.accepts c = true <;> simp [hc]

/-! ## Items -/

inductive Item where
  | one (x : Single)
  /-- `x?` -/
  | maybe (x : Single)
  /-- `x*` and `x-`, which differ in the order of their attempts. -/
  | many (x : Single)
  /-- `x+` -/
  | more (x : Single)
  /-- `%b` -/
  | balanced (opening closing : Char)
  /-- `%f` -/
  | frontier (x : Single)

namespace Item

/-- The item leads from one place to another. -/
def Takes : Item → Pos → Pos → Prop
  | .one x, pos, r => ∃ c cs, pos.rest = c :: cs ∧ x.accepts c = true ∧ r = ⟨c, cs⟩
  | .maybe x, pos, r =>
    r = pos ∨ ∃ c cs, pos.rest = c :: cs ∧ x.accepts c = true ∧ r = ⟨c, cs⟩
  | .many x, pos, r => r ∈ reach x pos.prev pos.rest
  | .more x, pos, r => ∃ c cs, pos.rest = c :: cs ∧ x.accepts c = true ∧ r ∈ reach x c cs
  | .balanced opening closing, pos, r =>
    ∃ cs, pos.rest = opening :: cs ∧ balance opening closing 1 cs = some r
  | .frontier x, pos, r =>
    r = pos ∧ x.accepts pos.prev = false ∧ x.accepts (pos.rest.headD '\x00') = true

/-- The characters that the item has at least in the pattern. -/
def width : Item → ℕ
  | .one _ => 1
  | .maybe _ | .many _ | .more _ => 2
  | .balanced _ _ => 4
  | .frontier _ => 5

end Item

theorem self_mem_reach (x : Single) (prev : Char) (t : Str) : ⟨prev, t⟩ ∈ reach x prev t := by
  cases t <;> simp [reach]

theorem mem_reach_cons {x : Single} {c : Char} (hc : x.accepts c = true) {prev : Char} {t : Str}
    {r : Pos} : r ∈ reach x prev (c :: t) ↔ r = ⟨prev, c :: t⟩ ∨ r ∈ reach x c t := by
  rw [reach, if_pos hc, List.mem_cons]

theorem mem_reach_cases {x : Single} {prev : Char} {t : Str} {r : Pos} (h : r ∈ reach x prev t) :
    r = ⟨prev, t⟩ ∨ ∃ c cs, t = c :: cs ∧ x.accepts c = true ∧ x.accepts r.prev = true := by
  induction t generalizing prev with
  | nil => exact Or.inl (by simpa [reach] using h)
  | cons c cs ih =>
    by_cases hc : x.accepts c = true
    · rcases (mem_reach_cons hc).mp h with rfl | hin
      · exact Or.inl rfl
      · refine Or.inr ⟨c, cs, rfl, hc, ?_⟩
        rcases ih hin with rfl | ⟨_, _, _, _, hlast⟩
        · exact hc
        · exact hlast
    · exact Or.inl (by simpa [reach, hc] using h)

theorem balance_prev {opening closing : Char} {depth : ℕ} {t : Str} {r : Pos}
    (h : balance opening closing depth t = some r) : r.prev = closing := by
  fun_induction balance opening closing depth t with
  | case1 => simp at h
  | case2 => cases h; rfl
  | case3 depth cs hd ih => exact ih h
  | case4 depth c cs hc ih => exact ih h

/-! ## What the matcher reads -/

def quantifiers : Str := ['?', '*', '+', '-']

/-- The item a pattern begins with, and what is left of the pattern. -/
structure Reads (p : Str) (i : Item) (q : Str) : Prop where
  suffix : q <:+ p
  width : i.width + q.length ≤ p.length
  /-- A pattern of which one character is read has it as an item of its own. -/
  char : p.length = q.length + 1 →
    ∃ c, p = c :: q ∧ c ≠ '%' ∧ c ≠ '[' ∧ ∀ d ∈ q.head?, d ∉ quantifiers
  passes (n : ℕ) (pos : Pos) : Passes (n + 1) p pos ↔ ∃ r, i.Takes pos r ∧ Passes n q r

theorem setEnd_rest {p : Str} {e : Str × Str} (h : setEnd p = some e) :
    e.2 <:+ p ∧ e.2.length + 2 ≤ p.length := by
  fun_induction setEnd p generalizing e with
  | case1 c rest =>
    cases h
    exact ⟨(List.suffix_cons ..).trans ((List.suffix_cons ..).trans (List.suffix_cons ..)), by simp⟩
  | case2 c rest _ ih =>
    obtain ⟨f, hf, rfl⟩ := Option.map_eq_some_iff.mp h
    have hrest := ih hf
    exact ⟨hrest.1.trans ((List.suffix_cons ..).trans (List.suffix_cons ..)),
      by simp only [List.length_cons]; omega⟩
  | case3 c rest _ =>
    cases h
    exact ⟨(List.suffix_cons ..).trans (List.suffix_cons ..), by simp⟩
  | case4 c rest _ _ _ ih =>
    obtain ⟨f, hf, rfl⟩ := Option.map_eq_some_iff.mp h
    have hrest := ih hf
    exact ⟨hrest.1.trans (List.suffix_cons ..), by simp only [List.length_cons]; omega⟩
  | case5 => simp at h

theorem single_set {p : Str} {s : Single × Str} (h : single ('[' :: p) = some s) :
    s.2 <:+ p ∧ s.2.length + 2 ≤ p.length := by
  have hend : ∃ t e, t <:+ p ∧ setEnd t = some e ∧ e.2 = s.2 := by
    by_cases hnegated : ∃ q, p = '^' :: q
    · obtain ⟨q, rfl⟩ := hnegated
      obtain ⟨e, he, rfl⟩ := Option.map_eq_some_iff.mp h
      exact ⟨q, e, List.suffix_cons .., he, rfl⟩
    · rw [single] at h
      · obtain ⟨e, he, rfl⟩ := Option.map_eq_some_iff.mp h
        exact ⟨p, e, List.suffix_rfl, he, rfl⟩
      · exact fun q hq => hnegated ⟨q, hq⟩
  obtain ⟨t, e, ht, he, hs⟩ := hend
  have hrest := setEnd_rest he
  have hlength := ht.length_le
  exact ⟨hs ▸ hrest.1.trans ht, by rw [← hs]; omega⟩

theorem single_rest {p : Str} {s : Single × Str} (h : single p = some s) :
    s.2 <:+ p ∧ s.2.length + 1 ≤ p.length ∧
      (p.length = s.2.length + 1 → ∃ c, p = c :: s.2 ∧ c ≠ '%' ∧ c ≠ '[') := by
  have hset {q : Str} (h : single ('[' :: q) = some s) :
      s.2 <:+ '[' :: q ∧ s.2.length + 1 ≤ ('[' :: q).length ∧
        (('[' :: q).length = s.2.length + 1 → ∃ c, '[' :: q = c :: s.2 ∧ c ≠ '%' ∧ c ≠ '[') := by
    obtain ⟨hsuffix, hlength⟩ := single_set h
    simp only [List.length_cons]
    exact ⟨hsuffix.trans (List.suffix_cons ..), by omega, by omega⟩
  fun_cases single p with
  | case1 | case2 => simp [single] at h
  | case3 cl q =>
    obtain rfl : (Single.named cl, q) = s := by simpa [single] using h
    exact ⟨(List.suffix_cons ..).trans (List.suffix_cons ..), by simp, by simp⟩
  | case4 q => exact hset h
  | case5 q _ => exact hset h
  | case6 q =>
    obtain rfl : (Single.any, q) = s := by simpa [single] using h
    exact ⟨List.suffix_cons .., by simp, fun _ => ⟨'.', rfl, by decide, by decide⟩⟩
  | case7 c q halone hescape hnegated hbracket hdot =>
    have hpercent : c ≠ '%' := by
      rintro rfl
      cases q with
      | nil => exact halone rfl rfl
      | cons cl q => exact hescape cl q rfl rfl
    obtain rfl : (Single.char c, q) = s := by
      rw [single] at h <;> first | assumption | exact Option.some.inj h
    exact ⟨List.suffix_cons .., by simp, fun _ => ⟨c, rfl, hpercent, hbracket⟩⟩

/-! The matcher looks at the first two characters, and otherwise at the item `single` finds. -/

/-- Neither `%b` and `%f` nor a back reference. -/
structure Ordinary (p : Str) : Prop where
  nonempty : p ≠ []
  inner : p ≠ ['$']
  escape : ∀ c q, p = '%' :: c :: q → c ≠ 'b' ∧ c ≠ 'f' ∧ c.isDigit = false

/-- The quantifier after an item. -/
def quantified (n : ℕ) (s : Single × Str) (pos : Pos) : Call Bool :=
  match s with
  | (x, '?' :: q) => firstHit [step x (matchAt n q) pos, matchAt n q pos]
  | (x, '*' :: q) => firstHit ((reach x pos.prev pos.rest).reverse.map (matchAt n q))
  | (x, '+' :: q) =>
    step x (fun pos => firstHit ((reach x pos.prev pos.rest).reverse.map (matchAt n q))) pos
  | (x, '-' :: q) => firstHit ((reach x pos.prev pos.rest).map (matchAt n q))
  | (x, q) => step x (matchAt n q) pos

theorem matchAt_ordinary {p : Str} (hp : Ordinary p) (n : ℕ) (pos : Pos) :
    matchAt (n + 1) p pos = (single p).elim .raised fun s => quantified n s pos := by
  obtain ⟨hnonempty, hinner, hescape⟩ := hp
  unfold matchAt
  split
  · exact absurd rfl hnonempty
  · exact absurd rfl hinner
  · exact absurd rfl (hescape _ _ rfl).1
  · exact absurd rfl (hescape _ _ rfl).1
  · exact absurd rfl (hescape _ _ rfl).2.1
  · rw [if_neg]
    · cases hsingle : single p with
      | none => rfl
      | some s =>
        rw [Option.elim_some, quantified.eq_def]
        split <;> simp_all
    · cases p with
      | nil => simp
      | cons d q =>
        cases q with
        | nil => simp
        | cons c q =>
          rintro h
          obtain ⟨rfl, hdigit⟩ : d = '%' ∧ c.isDigit = true := by simpa using h
          simp [(hescape c q rfl).2.2] at hdigit

section

variable {x : Single} {q : Str} (n : ℕ) (pos : Pos)

theorem step_takes : step x (matchAt n q) pos ≠ .returned false ↔
    ∃ r, (Item.one x).Takes pos r ∧ Passes n q r := by
  rw [step_ne]
  simp only [Item.Takes, Passes]
  constructor
  · rintro ⟨c, cs, hrest, hc, hpass⟩
    exact ⟨_, ⟨c, cs, hrest, hc, rfl⟩, hpass⟩
  · rintro ⟨r, ⟨c, cs, hrest, hc, rfl⟩, hpass⟩
    exact ⟨c, cs, hrest, hc, hpass⟩

theorem quantified_maybe : quantified n (x, '?' :: q) pos ≠ .returned false ↔
    ∃ r, (Item.maybe x).Takes pos r ∧ Passes n q r := by
  rw [quantified, firstHit_ne]
  simp only [List.mem_cons, List.not_mem_nil, or_false, exists_eq_or_imp, exists_eq_left,
    step_takes]
  simp only [Item.Takes, Passes, or_and_right, exists_or, exists_eq_left]
  exact or_comm

theorem quantified_many : quantified n (x, '*' :: q) pos ≠ .returned false ↔
    ∃ r, (Item.many x).Takes pos r ∧ Passes n q r := by
  rw [quantified, firstHit_ne]
  simp [Item.Takes, Passes]

theorem quantified_lazy : quantified n (x, '-' :: q) pos ≠ .returned false ↔
    ∃ r, (Item.many x).Takes pos r ∧ Passes n q r := by
  rw [quantified, firstHit_ne]
  simp [Item.Takes, Passes]

theorem quantified_more : quantified n (x, '+' :: q) pos ≠ .returned false ↔
    ∃ r, (Item.more x).Takes pos r ∧ Passes n q r := by
  rw [quantified, step_ne]
  simp only [firstHit_ne, List.mem_map, List.mem_reverse, exists_exists_and_eq_and, Item.Takes,
    Passes]
  constructor
  · rintro ⟨c, cs, hrest, hc, r, hr, hpass⟩
    exact ⟨r, ⟨c, cs, hrest, hc, hr⟩, hpass⟩
  · rintro ⟨r, ⟨c, cs, hrest, hc, hr⟩, hpass⟩
    exact ⟨c, cs, hrest, hc, r, hr, hpass⟩

theorem quantified_one (hq : ∀ d ∈ q.head?, d ∉ quantifiers) :
    quantified n (x, q) pos = step x (matchAt n q) pos := by
  rw [quantified]
  all_goals
    rintro t rfl
    exact hq _ rfl (by decide)

end

theorem passes_ordinary {p : Str} {s : Single × Str} (hp : Ordinary p) (hs : single p = some s)
    (n : ℕ) (pos : Pos) : Passes (n + 1) p pos ↔ quantified n s pos ≠ .returned false := by
  rw [Passes, matchAt_ordinary hp, hs, Option.elim_some]

theorem Reads.of_quantifier {p : Str} {x : Single} {i : Item} {d : Char} {q : Str}
    (hp : Ordinary p) (hs : single p = some (x, d :: q)) (hi : i.width = 2)
    (hd : ∀ n pos, quantified n (x, d :: q) pos ≠ .returned false ↔
      ∃ r, i.Takes pos r ∧ Passes n q r) : Reads p i q := by
  obtain ⟨hsuffix, hlength, -⟩ := single_rest hs
  simp only [List.length_cons] at hlength
  exact ⟨(List.suffix_cons d q).trans hsuffix, by omega, by omega,
    fun n pos => (passes_ordinary hp hs n pos).trans (hd n pos)⟩

theorem reads_ordinary {p : Str} (hp : Ordinary p) :
    (∀ n pos, Passes (n + 1) p pos) ∨ ∃ i q, Reads p i q := by
  cases hs : single p with
  | none =>
    refine Or.inl fun n pos => ?_
    rw [Passes, matchAt_ordinary hp, hs]
    simp
  | some s =>
    right
    obtain ⟨x, t⟩ := s
    by_cases hquantifier : ∃ d ∈ t.head?, d ∈ quantifiers
    · obtain ⟨d, ht, hd⟩ := hquantifier
      obtain ⟨q, rfl⟩ : ∃ q, t = d :: q := List.head?_eq_some_iff.mp ht
      simp only [quantifiers, List.mem_cons, List.not_mem_nil, or_false] at hd
      rcases hd with rfl | rfl | rfl | rfl
      · exact ⟨_, q, .of_quantifier hp hs rfl quantified_maybe⟩
      · exact ⟨_, q, .of_quantifier hp hs rfl quantified_many⟩
      · exact ⟨_, q, .of_quantifier hp hs rfl quantified_more⟩
      · exact ⟨_, q, .of_quantifier hp hs rfl quantified_lazy⟩
    · have hnone : ∀ d ∈ t.head?, d ∉ quantifiers := fun d ht hd => hquantifier ⟨d, ht, hd⟩
      obtain ⟨hsuffix, hlength, hchar⟩ := single_rest hs
      refine ⟨.one x, t, hsuffix, by simpa [Item.width, Nat.add_comm] using hlength, fun h => ?_,
        fun n pos => ?_⟩
      · obtain ⟨c, hp, hc⟩ := hchar h
        exact ⟨c, hp, hc.1, hc.2, hnone⟩
      · rw [passes_ordinary hp hs, quantified_one n pos hnone, step_takes]

theorem reads_balanced (opening closing : Char) (q : Str) :
    Reads ('%' :: 'b' :: opening :: closing :: q) (.balanced opening closing) q := by
  refine ⟨⟨['%', 'b', opening, closing], rfl⟩, ?_, ?_, fun n pos => ?_⟩
  · simp only [Item.width, List.length_cons]
    omega
  · simp only [List.length_cons]
    omega
  · have hmatch : matchAt (n + 1) ('%' :: 'b' :: opening :: closing :: q) pos =
        step (.char opening) (fun r => (balance opening closing 1 r.rest).elim (.returned false)
          (matchAt n q)) pos := by
      rw [matchAt, step]
      cases pos.rest with
      | nil => rfl
      | cons c cs => simp [Single.accepts]
    rw [Passes, hmatch, step_ne]
    constructor
    · rintro ⟨c, cs, hrest, hc, hpass⟩
      cases hbalance : balance opening closing 1 cs with
      | none => simp [hbalance] at hpass
      | some r =>
        obtain rfl : c = opening := by simpa [Single.accepts] using hc
        exact ⟨r, ⟨cs, hrest, hbalance⟩, by simpa [Passes, hbalance] using hpass⟩
    · rintro ⟨r, ⟨cs, hrest, hbalance⟩, hpass⟩
      exact ⟨opening, cs, hrest, by simp [Single.accepts], by simpa [Passes, hbalance] using hpass⟩

theorem reads_frontier {p : Str} {x : Single} {q : Str} (hs : single ('[' :: p) = some (x, q)) :
    Reads ('%' :: 'f' :: '[' :: p) (.frontier x) q := by
  obtain ⟨hsuffix, hlength⟩ : q <:+ p ∧ q.length + 2 ≤ p.length := single_set hs
  refine ⟨hsuffix.trans ⟨['%', 'f', '['], rfl⟩, ?_, ?_, fun n pos => ?_⟩
  · simp only [Item.width, List.length_cons]
    omega
  · simp only [List.length_cons]
    omega
  · rw [Passes, matchAt]
    simp only [hs, Item.Takes, Passes]
    have hplace : (!x.accepts pos.prev && x.accepts (pos.rest.headD '\x00')) = true ↔
        x.accepts pos.prev = false ∧ x.accepts (pos.rest.headD '\x00') = true := by
      rw [Bool.and_eq_true, Bool.not_eq_true']
    constructor
    · intro hpass
      by_cases h : (!x.accepts pos.prev && x.accepts (pos.rest.headD '\x00')) = true
      · rw [if_pos h] at hpass
        exact ⟨pos, ⟨rfl, hplace.mp h⟩, hpass⟩
      · rw [if_neg h] at hpass
        exact absurd rfl hpass
    · rintro ⟨r, ⟨rfl, h⟩, hpass⟩
      rwa [if_pos (hplace.mpr h)]

/-- A pattern is empty, begins with a malformed item, or begins with an item. -/
theorem reads_cases {p : Str} (hend : '$' ∉ p) :
    p = [] ∨ (p ≠ [] ∧ ∀ n pos, Passes (n + 1) p pos) ∨ ∃ i q, Reads p i q := by
  by_cases hnil : p = []
  · exact Or.inl hnil
  rw [and_iff_right hnil]
  right
  by_cases hescape : ∃ c q, p = '%' :: c :: q ∧ (c = 'b' ∨ c = 'f' ∨ c.isDigit = true)
  · obtain ⟨c, q, rfl, rfl | rfl | hc⟩ := hescape
    · -- `%b` takes the next two characters
      rcases q with _ | ⟨opening, _ | ⟨closing, q⟩⟩
      · exact Or.inl fun n pos => by simp [Passes, matchAt]
      · exact Or.inl fun n pos => by simp [Passes, matchAt]
      · exact Or.inr ⟨_, q, reads_balanced opening closing q⟩
    · by_cases hset : ∃ t, q = '[' :: t
      · obtain ⟨t, rfl⟩ := hset
        cases hs : single ('[' :: t) with
        | none => exact Or.inl fun n pos => by simp [Passes, matchAt, hs]
        | some s => exact Or.inr ⟨_, s.2, reads_frontier hs⟩
      · refine Or.inl fun n pos => ?_
        rw [Passes, matchAt]
        · simp
        · exact fun t ht => hset ⟨t, ht⟩
    · have hb : c ≠ 'b' := by rintro rfl; exact absurd hc (by decide)
      have hf : c ≠ 'f' := by rintro rfl; exact absurd hc (by decide)
      exact Or.inl fun n pos => by simp [Passes, matchAt, hb, hf, hc]
  · refine reads_ordinary ⟨hnil, ?_, fun c q hp => ?_⟩
    · rintro rfl
      exact hend (List.mem_singleton_self _)
    · refine ⟨fun hc => hescape ⟨c, q, hp, Or.inl hc⟩,
        fun hc => hescape ⟨c, q, hp, Or.inr (Or.inl hc)⟩, Bool.eq_false_iff.mpr fun hc => ?_⟩
      exact hescape ⟨c, q, hp, Or.inr (Or.inr hc)⟩

/-! ## Shorter matches -/

namespace Item

variable {i : Item} {pos r : Pos}

/-- `%f` looks at one character on each side. -/
theorem Takes.frontier {x : Single} (h : (Item.frontier x).Takes pos r) {t : Str}
    (ht : t.head? = r.rest.head?) : (Item.frontier x).Takes ⟨pos.prev, t⟩ ⟨r.prev, t⟩ := by
  obtain ⟨rfl, hprev, hnext⟩ := h
  refine ⟨rfl, hprev, ?_⟩
  rw [List.headD_eq_head?_getD] at hnext ⊢
  rw [ht]
  exact hnext

/-- What an item has taken can be shortened to its width, with the same first character and
the same place behind it. -/
theorem Takes.keep (h : i.Takes pos r) {t : Str} (ht : t.head? = r.rest.head?) :
    ∃ u, u.length ≤ i.width ∧ (u ++ t).head? = pos.rest.head? ∧
      i.Takes ⟨pos.prev, u ++ t⟩ ⟨r.prev, t⟩ := by
  cases i with
  | one x =>
    obtain ⟨c, cs, hrest, hc, rfl⟩ := h
    exact ⟨[c], le_rfl, by rw [hrest]; rfl, c, t, rfl, hc, rfl⟩
  | maybe x =>
    rcases h with rfl | ⟨c, cs, hrest, hc, rfl⟩
    · exact ⟨[], by simp, ht, Or.inl rfl⟩
    · exact ⟨[c], by simp [width], by rw [hrest]; rfl, Or.inr ⟨c, t, rfl, hc, rfl⟩⟩
  | many x =>
    rcases mem_reach_cases h with rfl | ⟨c, cs, hrest, hc, hlast⟩
    · exact ⟨[], by simp, ht, self_mem_reach x _ t⟩
    · refine ⟨[c, r.prev], le_rfl, by rw [hrest]; rfl, ?_⟩
      exact (mem_reach_cons hc).mpr (Or.inr ((mem_reach_cons hlast).mpr
        (Or.inr (self_mem_reach x _ t))))
  | more x =>
    obtain ⟨c, cs, hrest, hc, hr⟩ := h
    rcases mem_reach_cases hr with rfl | ⟨_, _, _, _, hlast⟩
    · exact ⟨[c], by simp [width], by rw [hrest]; rfl, c, t, rfl, hc, self_mem_reach x c t⟩
    · exact ⟨[c, r.prev], le_rfl, by rw [hrest]; rfl, c, r.prev :: t, rfl, hc,
        (mem_reach_cons hlast).mpr (Or.inr (self_mem_reach x _ t))⟩
  | balanced opening closing =>
    obtain ⟨cs, hrest, hbalance⟩ := h
    refine ⟨[opening, closing], by simp [width], by rw [hrest]; rfl, closing :: t, rfl, ?_⟩
    rw [balance, if_pos rfl, if_pos rfl, balance_prev hbalance]
  | frontier x =>
    obtain rfl := h.1
    exact ⟨[], by simp, ht, h.frontier ht⟩

/-- Without regard to the first character only an item of one character keeps its width. -/
theorem Takes.short (h : i.Takes pos r) (hi : ∀ x, i ≠ .frontier x) :
    (r = pos ∧ i.width = 2 ∧ ∀ s, i.Takes s s) ∨
      ∃ u, u.length ≤ i.width ∧ (u.length = i.width → i.width = 1) ∧
        ∀ prev t, i.Takes ⟨prev, u ++ t⟩ ⟨r.prev, t⟩ := by
  cases i with
  | one x =>
    obtain ⟨c, cs, hrest, hc, rfl⟩ := h
    exact Or.inr ⟨[c], le_rfl, fun _ => rfl, fun prev t => ⟨c, t, rfl, hc, rfl⟩⟩
  | maybe x =>
    rcases h with rfl | ⟨c, cs, hrest, hc, rfl⟩
    · exact Or.inl ⟨rfl, rfl, fun s => Or.inl rfl⟩
    · exact Or.inr ⟨[c], by simp [width], by simp [width],
        fun prev t => Or.inr ⟨c, t, rfl, hc, rfl⟩⟩
  | many x =>
    rcases mem_reach_cases h with rfl | ⟨c, cs, hrest, hc, hlast⟩
    · exact Or.inl ⟨rfl, rfl, fun s => self_mem_reach x _ _⟩
    · exact Or.inr ⟨[r.prev], by simp [width], by simp [width],
        fun prev t => (mem_reach_cons hlast).mpr (Or.inr (self_mem_reach x _ t))⟩
  | more x =>
    obtain ⟨c, cs, hrest, hc, hr⟩ := h
    have hlast : x.accepts r.prev = true := by
      rcases mem_reach_cases hr with rfl | ⟨_, _, _, _, hlast⟩
      · exact hc
      · exact hlast
    exact Or.inr ⟨[r.prev], by simp [width], by simp [width],
      fun prev t => ⟨r.prev, t, rfl, hlast, self_mem_reach x _ t⟩⟩
  | balanced opening closing =>
    obtain ⟨cs, hrest, hbalance⟩ := h
    refine Or.inr ⟨[opening, closing], by simp [width], by simp [width],
      fun prev t => ⟨closing :: t, rfl, ?_⟩⟩
    rw [balance, if_pos rfl, if_pos rfl, balance_prev hbalance]
  | frontier x => exact absurd rfl (hi x)

end Item

/-- Every character is an item of its own. -/
structure Bare (p : Str) : Prop where
  escape : ∀ c ∈ p, c ≠ '%' ∧ c ≠ '['
  once : ∀ c ∈ p.tail, c ∉ quantifiers

theorem Bare.cons {c : Char} {q : Str} (hpercent : c ≠ '%') (hset : c ≠ '[')
    (hnext : ∀ d ∈ q.head?, d ∉ quantifiers) (hq : Bare q) : Bare (c :: q) := by
  refine ⟨?_, ?_⟩
  · intro d hd
    rcases List.mem_cons.mp hd with rfl | hd
    · exact ⟨hpercent, hset⟩
    · exact hq.escape d hd
  · intro d hd
    cases q with
    | nil => exact absurd hd List.not_mem_nil
    | cons e q =>
      rcases List.mem_cons.mp hd with rfl | hd
      · exact hnext d rfl
      · exact hq.once d hd

section

variable {n : ℕ} {p : Str} {pos : Pos}

/-- A match needs one character more than the pattern has, for the place behind the pattern. -/
theorem Passes.keep (hend : '$' ∉ p) (h : Passes n p pos) :
    ∃ t, t.length ≤ p.length + 1 ∧ t.head? = pos.rest.head? ∧ Passes n p ⟨pos.prev, t⟩ := by
  induction n generalizing p pos with
  | zero => exact absurd rfl h
  | succ n ih =>
    have hfirst (hpass : ∀ pos, Passes (n + 1) p pos) :
        ∃ t, t.length ≤ p.length + 1 ∧ t.head? = pos.rest.head? ∧ Passes (n + 1) p ⟨pos.prev, t⟩ :=
      ⟨pos.rest.take 1, by simp, by cases pos.rest <;> rfl, hpass _⟩
    rcases reads_cases hend with rfl | ⟨-, hpass⟩ | ⟨i, q, hreads⟩
    · exact hfirst (passes_nil n)
    · exact hfirst (hpass n)
    · obtain ⟨r, htakes, hq⟩ := (hreads.passes n pos).mp h
      obtain ⟨t, hlength, hhead, hpass⟩ := ih (fun hin => hend (hreads.suffix.mem hin)) hq
      obtain ⟨u, hu, hfront, hkept⟩ := htakes.keep hhead
      have hwidth := hreads.width
      refine ⟨u ++ t, ?_, hfront, (hreads.passes n _).mpr ⟨_, hkept, hpass⟩⟩
      rw [List.length_append]
      omega

/-- A match needs no more characters than the pattern has, and fewer unless every character
of the pattern is an item of its own.  It depends on the place before it only if it needs two
characters fewer. -/
theorem Passes.short (hend : '$' ∉ p) (h : Passes n p pos) :
    ∃ t, t.length ≤ p.length ∧ (t.length = p.length → Bare p) ∧ Passes n p ⟨pos.prev, t⟩ ∧
      (t.length + 2 ≤ p.length ∨ ∀ prev, Passes n p ⟨prev, t⟩) := by
  induction n generalizing p pos with
  | zero => exact absurd rfl h
  | succ n ih =>
    rcases reads_cases hend with rfl | ⟨hnil, hpass⟩ | ⟨i, q, hreads⟩
    · exact ⟨[], le_rfl, fun _ => ⟨by simp, by simp⟩, passes_nil n _,
        Or.inr fun _ => passes_nil n _⟩
    · have hpos := List.length_pos_iff.mpr hnil
      exact ⟨[], Nat.zero_le _, fun h => absurd h hpos.ne, hpass n _, Or.inr fun _ => hpass n _⟩
    · have hwidth := hreads.width
      have hend : '$' ∉ q := fun hin => hend (hreads.suffix.mem hin)
      obtain ⟨r, htakes, hq⟩ := (hreads.passes n pos).mp h
      by_cases hfrontier : ∃ x, i = .frontier x
      · obtain ⟨x, rfl⟩ := hfrontier
        obtain ⟨t, hlength, hhead, hpass⟩ := hq.keep hend
        rw [Item.width] at hwidth
        exact ⟨t, by omega, by omega, (hreads.passes n _).mpr ⟨_, htakes.frontier hhead, hpass⟩,
          Or.inl (by omega)⟩
      · obtain ⟨t, hlength, hbare, hpass, -⟩ := ih hend hq
        rcases htakes.short fun x hx => hfrontier ⟨x, hx⟩ with
          ⟨rfl, hi, hidle⟩ | ⟨u, hu, hone, htaken⟩
        · exact ⟨t, by omega, by omega, (hreads.passes n _).mpr ⟨_, hidle _, hpass⟩,
            Or.inl (by omega)⟩
        · have htaken (prev : Char) : Passes (n + 1) p ⟨prev, u ++ t⟩ :=
            (hreads.passes n _).mpr ⟨_, htaken prev t, hpass⟩
          refine ⟨u ++ t, ?_, fun hsame => ?_, htaken _, Or.inr htaken⟩
          · rw [List.length_append]
            omega
          · rw [List.length_append] at hsame
            have hi : i.width = 1 := hone (by omega)
            obtain ⟨c, rfl, hpercent, hset, hnext⟩ := hreads.char (by omega)
            exact .cons hpercent hset hnext (hbare (by omega))

end

/-! ## Literal search -/

/-- The pattern finds itself, and nothing else. -/
def Literal (p : Str) : Prop := ∀ text, find text p = .returned (decide (p <:+: text))

/-- No character of the pattern has a meaning. -/
structure Plain (p : Str) : Prop extends Bare p where
  dot : '.' ∉ p
  anchor : p.head? ≠ some '^'

theorem find_of_head {p : Str} (h : p.head? ≠ some '^') (text : Str) :
    find text p = firstHit ((reach .any '\x00' text).map (matchAt (p.length + 1) p)) := by
  rw [find]
  rintro q rfl
  exact h rfl

theorem Bare.tail {c : Char} {q : Str} (h : Bare (c :: q)) :
    Bare q ∧ ∀ d ∈ q.head?, d ∉ quantifiers := by
  refine ⟨⟨?_, ?_⟩, ?_⟩
  · exact fun d hd => h.escape d (List.mem_cons_of_mem _ hd)
  · exact fun d hd => h.once d (List.mem_of_mem_tail hd)
  · exact fun d hd => h.once d (List.mem_of_mem_head? hd)

/-- A character by itself. -/
def lone (c : Char) : Single := if c = '.' then .any else .char c

theorem matchAt_bare {c : Char} {q : Str} (h : Bare (c :: q)) (hend : '$' ∉ c :: q) (n : ℕ)
    (pos : Pos) : matchAt (n + 1) (c :: q) pos = step (lone c) (matchAt n q) pos := by
  obtain ⟨hpercent, hset⟩ := h.escape c List.mem_cons_self
  have hp : Ordinary (c :: q) := by
    refine ⟨List.cons_ne_nil _ _, ?_, fun d t hp => ?_⟩
    · intro hp
      exact hend (hp ▸ List.mem_singleton_self _)
    · exact absurd (List.cons.inj hp).1 hpercent
  have hs : single (c :: q) = some (lone c, q) := by
    rw [lone]
    by_cases hdot : c = '.'
    · rw [hdot]
      rfl
    · rw [if_neg hdot, single]
      · exact fun hc => absurd hc hpercent
      · exact fun _ _ hc => absurd hc hpercent
      · exact fun _ hc => absurd hc hset
      · exact hset
      · exact hdot
  rw [matchAt_ordinary hp, hs, Option.elim_some, quantified_one n pos h.tail.2]

theorem matchAt_plain {p : Str} (h : Bare p) (hdot : '.' ∉ p) (hend : '$' ∉ p) {n : ℕ}
    (hn : p.length < n) (pos : Pos) :
    matchAt n p pos = .returned (decide (p <+: pos.rest)) := by
  induction p generalizing n pos with
  | nil =>
    obtain ⟨n, rfl⟩ := Nat.exists_eq_succ_of_ne_zero (Nat.ne_of_gt hn)
    simp [matchAt]
  | cons c q ih =>
    obtain ⟨n, rfl⟩ := Nat.exists_eq_succ_of_ne_zero (Nat.ne_of_gt (Nat.zero_lt_of_lt hn))
    have hne : c ≠ '.' := (List.ne_of_not_mem_cons hdot).symm
    have hc : lone c = .char c := if_neg hne
    rw [matchAt_bare h hend, hc, step.eq_def]
    cases hrest : pos.rest with
    | nil => simp
    | cons d t =>
      have hq := ih h.tail.1 (fun hin => hdot (List.mem_cons_of_mem _ hin))
        (fun hin => hend (List.mem_cons_of_mem _ hin)) (Nat.lt_of_succ_lt_succ hn) ⟨d, t⟩
      by_cases hd : d = c
      · subst hd
        simp [Single.accepts, hq, List.cons_prefix_cons]
      · simp [Single.accepts, hd, Ne.symm hd, List.cons_prefix_cons]

theorem any_reach (p : Str) (prev : Char) (text : Str) :
    ((reach .any prev text).any fun pos => decide (p <+: pos.rest)) = decide (p <:+: text) := by
  induction text generalizing prev with
  | nil => simp [reach]
  | cons c cs ih => simp [reach, Single.accepts, ih, List.infix_cons_iff]

theorem Plain.literal {p : Str} (h : Plain p) (hend : '$' ∉ p) : Literal p := by
  intro text
  have hplaces : matchAt (p.length + 1) p = fun pos => .returned (decide (p <+: pos.rest)) :=
    funext (matchAt_plain h.toBare h.dot hend (Nat.lt_succ_self _))
  rw [find_of_head h.anchor, hplaces, firstHit_returned, any_reach]

section

variable {p : Str} (h : Literal p)

include h

theorem Literal.mem_of_passes (hhead : p.head? ≠ some '^') {text : Str} {pos : Pos}
    (hin : pos ∈ reach .any '\x00' text) (hpass : Passes (p.length + 1) p pos) : p <:+: text := by
  by_contra hno
  have hfind := h text
  rw [decide_eq_false hno, find_of_head hhead] at hfind
  exact firstHit_ne.mpr ⟨_, List.mem_map_of_mem hin, hpass⟩ hfind

theorem Literal.head (hend : '$' ∉ p) : p.head? ≠ some '^' := by
  intro hhead
  obtain ⟨q, rfl⟩ := List.head?_eq_some_iff.mp hhead
  have hself : Passes (q.length + 1) q (start ('^' :: q)) := by
    have hfind := h ('^' :: q)
    rw [decide_eq_true List.infix_rfl, find] at hfind
    rw [Passes, hfind]
    simp
  obtain ⟨t, hlength, -, hpass, -⟩ := hself.short fun hin => hend (List.mem_cons_of_mem _ hin)
  have hno : ¬ '^' :: q <:+: t := fun hin => by
    have hle := hin.length_le
    rw [List.length_cons] at hle
    omega
  have hfind := h t
  rw [decide_eq_false hno, find] at hfind
  exact hpass hfind

theorem Literal.bare (hend : '$' ∉ p) : Bare p := by
  have hhead := h.head hend
  have hself : ∃ pos ∈ reach .any '\x00' p, Passes (p.length + 1) p pos := by
    have hfind := h p
    rw [decide_eq_true List.infix_rfl, find_of_head hhead] at hfind
    obtain ⟨_, hin, hpass⟩ := firstHit_ne.mp (hfind.trans_ne (by simp))
    obtain ⟨pos, hpos, rfl⟩ := List.mem_map.mp hin
    exact ⟨pos, hpos, hpass⟩
  obtain ⟨pos, -, hpass⟩ := hself
  obtain ⟨t, hlength, hbare, hpass, hshorter | hanywhere⟩ := hpass.short hend
  · -- one more character puts the shorter match behind the same character
    have hin : (⟨pos.prev, t⟩ : Pos) ∈ reach .any '\x00' (pos.prev :: t) :=
      (mem_reach_cons rfl).mpr (Or.inr (self_mem_reach _ _ t))
    have hle := (h.mem_of_passes hhead hin hpass).length_le
    rw [List.length_cons] at hle
    omega
  · have hle := (h.mem_of_passes hhead (self_mem_reach _ _ t) (hanywhere _)).length_le
    exact hbare (Nat.le_antisymm hlength hle)

end

/-- A text of the same length that the pattern matches, without a dot. -/
def undotted (p : Str) : Str := p.map fun c => if c = '.' then '/' else c

theorem passes_undotted {p : Str} (h : Bare p) (hend : '$' ∉ p) {n : ℕ} (hn : p.length < n)
    (prev : Char) : Passes n p ⟨prev, undotted p⟩ := by
  induction p generalizing n prev with
  | nil =>
    obtain ⟨n, rfl⟩ := Nat.exists_eq_succ_of_ne_zero (Nat.ne_of_gt hn)
    exact passes_nil n _
  | cons c q ih =>
    obtain ⟨n, rfl⟩ := Nat.exists_eq_succ_of_ne_zero (Nat.ne_of_gt (Nat.zero_lt_of_lt hn))
    rw [Passes, matchAt_bare h hend, step_ne]
    refine ⟨_, _, rfl, ?_, ih h.tail.1 (fun hin => hend (List.mem_cons_of_mem _ hin))
      (Nat.lt_of_succ_lt_succ hn) _⟩
    rw [lone]
    by_cases hc : c = '.' <;> simp [hc, Single.accepts]

/-- A pattern without an end anchor searches for itself exactly if no character of it has a
meaning. -/
theorem literal_iff {p : Str} (hend : '$' ∉ p) : Literal p ↔ Plain p := by
  refine ⟨fun h => ⟨h.bare hend, fun hdot => ?_, h.head hend⟩, fun h => h.literal hend⟩
  have hin := h.mem_of_passes (h.head hend) (self_mem_reach _ _ (undotted p))
    (passes_undotted (h.bare hend) hend (Nat.lt_succ_self _) _)
  have hsame : p = undotted p := hin.eq_of_length (by simp [undotted])
  rw [hsame, undotted] at hdot
  obtain ⟨c, -, hc⟩ := List.mem_map.mp hdot
  split at hc
  · exact absurd hc (by decide)
  · contradiction

end Pattern
end Lua
end MkyBoot
