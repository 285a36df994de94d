import Mathlib

/-!
# The frames of an icon file

`iconHandle` reads the directory of an ICO file and takes the frame whose width is nearest to
the one that is wanted.  An access outside the data would be a panic, which is `none` here; what
the function returns is the data of a frame, or nothing.  `iconHandle_nearest` says that it
never panics, whatever the bytes are, and that it finds the nearest of the frames that lie
inside the data.
-/

namespace MkyBoot
namespace Launcher
namespace Icon

abbrev Bytes := List UInt8

/-! ## The directory -/

/-- A number of two bytes, the low one first. -/
def word (data : Bytes) (i : ℕ) : Option ℕ := do
  let b₀ ← data[i]?
  let b₁ ← data[i + 1]?
  return b₀.toNat ||| b₁.toNat <<< 8

def dword (data : Bytes) (i : ℕ) : Option ℕ := do
  let b₀ ← data[i]?
  let b₁ ← data[i + 1]?
  let b₂ ← data[i + 2]?
  let b₃ ← data[i + 3]?
  return b₀.toNat ||| b₁.toNat <<< 8 ||| b₂.toNat <<< 16 ||| b₃.toNat <<< 24

structure Entry where
  width : ℕ
  size : ℕ
  off : ℕ

/-- The entry of a frame.  A width of 0 stands for 256. -/
def entry (data : Bytes) (i : ℕ) : Option Entry := do
  let base := 6 + i * 16
  let w ← data[base]?
  let size ← dword data (base + 8)
  let off ← dword data (base + 12)
  return ⟨if w = 0 then 256 else w.toNat, size, off⟩

def Entry.inside (e : Entry) (data : Bytes) : Bool := 0 < e.size && e.off + e.size ≤ data.length

def Entry.delta (e : Entry) (want : ℤ) : ℤ :=
  let delta := (e.width : ℤ) - want
  if delta < 0 then -delta else delta

/-- The loop over the entries, from one on.  It stops at the first that is not whole. -/
def scan (data : Bytes) (want : ℤ) : ℕ → ℕ → Option ℕ × ℤ → Option (Option ℕ × ℤ)
  | 0, _, acc => some acc
  | left + 1, i, acc =>
    if data.length < 6 + i * 16 + 16 then some acc
    else do
      let e ← entry data i
      if e.inside data then
        scan data want left (i + 1) (if e.delta want < acc.2 then (some i, e.delta want) else acc)
      else scan data want left (i + 1) acc

/-- `data[off : off+size]` -/
def slice (data : Bytes) (e : Entry) : Option Bytes :=
  if e.off + e.size ≤ data.length then some ((data.drop e.off).take e.size) else none

/-- `iconHandle`, up to the call of Windows with the data of the frame.  Sizes and offsets are
of 32 bits, in an `int` of 64. -/
def iconHandle (data : Bytes) (want : ℤ) : Option (Option Bytes) :=
  if data.length < 6 then some none
  else do
    let count ← word data 4
    let (best, _) ← scan data want count 0 (none, 2 ^ 30)
    match best with
    | none => some none
    | some i =>
      let e ← entry data i
      if data.length < e.off + e.size ∨ e.size = 0 then some none
      else (slice data e).map some

/-! ## What is inside -/

theorem getElem?_of_lt (data : Bytes) (i : ℕ) (h : i < data.length) : ∃ b, data[i]? = some b :=
  ⟨data[i], List.getElem?_eq_getElem h⟩

theorem dword_of_le (data : Bytes) (i : ℕ) (h : i + 4 ≤ data.length) :
    ∃ n, dword data i = some n := by
  obtain ⟨b₀, h₀⟩ := getElem?_of_lt data i (by omega)
  obtain ⟨b₁, h₁⟩ := getElem?_of_lt data (i + 1) (by omega)
  obtain ⟨b₂, h₂⟩ := getElem?_of_lt data (i + 2) (by omega)
  obtain ⟨b₃, h₃⟩ := getElem?_of_lt data (i + 3) (by omega)
  rw [dword, h₀, h₁, h₂, h₃]
  exact ⟨_, rfl⟩

theorem entry_of_le {data : Bytes} {i : ℕ} (h : 6 + i * 16 + 16 ≤ data.length) :
    ∃ e, entry data i = some e := by
  obtain ⟨w, hw⟩ := getElem?_of_lt data (6 + i * 16) (by omega)
  obtain ⟨size, hsize⟩ := dword_of_le data (6 + i * 16 + 8) (by omega)
  obtain ⟨off, hoff⟩ := dword_of_le data (6 + i * 16 + 12) (by omega)
  rw [entry, hw, hsize, hoff]
  exact ⟨_, rfl⟩

/-- A whole entry, of a frame inside the data. -/
structure Frame (data : Bytes) (i : ℕ) (e : Entry) : Prop where
  whole : 6 + i * 16 + 16 ≤ data.length
  entry : entry data i = some e
  inside : e.inside data = true

/-- What the loop has found among the entries before one. -/
structure Found (data : Bytes) (want : ℤ) (i : ℕ) (acc : Option ℕ × ℤ) : Prop where
  none : acc.1 = none → acc.2 = 2 ^ 30
  frame : ∀ k, acc.1 = some k → k < i ∧ ∃ e, Frame data k e ∧ e.delta want = acc.2
  least : ∀ j e, j < i → Frame data j e → acc.2 ≤ e.delta want

section

variable {data : Bytes} {want : ℤ} {i : ℕ} {acc : Option ℕ × ℤ}

theorem Found.skip (h : Found data want i acc) (hnone : ∀ e, ¬Frame data i e) :
    Found data want (i + 1) acc where
  none := h.none
  frame k hk := ⟨Nat.lt_succ_of_lt (h.frame k hk).1, (h.frame k hk).2⟩
  least j e hj hframe := by
    rcases Nat.lt_succ_iff_lt_or_eq.mp hj with hlt | rfl
    · exact h.least j e hlt hframe
    · exact absurd hframe (hnone e)

theorem Found.take (h : Found data want i acc) {e : Entry} (he : Frame data i e) :
    Found data want (i + 1) (if e.delta want < acc.2 then (some i, e.delta want) else acc) := by
  have hunique {e' : Entry} (h' : Frame data i e') : e' = e :=
    Option.some.inj (h'.entry.symm.trans he.entry)
  split
  · next hlt =>
    refine ⟨fun hk => absurd hk (Option.some_ne_none i), fun k hk => ?_, fun j e' hj hframe => ?_⟩
    · obtain rfl := Option.some.inj hk
      exact ⟨Nat.lt_succ_self i, e, he, rfl⟩
    · rcases Nat.lt_succ_iff_lt_or_eq.mp hj with hj | rfl
      · exact (Int.le_of_lt hlt).trans (h.least j e' hj hframe)
      · rw [hunique hframe]
  · next hle =>
    refine ⟨h.none, fun k hk => ⟨Nat.lt_succ_of_lt (h.frame k hk).1, (h.frame k hk).2⟩,
      fun j e' hj hframe => ?_⟩
    rcases Nat.lt_succ_iff_lt_or_eq.mp hj with hj | rfl
    · exact h.least j e' hj hframe
    · rw [hunique hframe]
      exact Int.not_lt.mp hle

/-- The loop reads no byte outside the data, and goes through all frames. -/
theorem scan_found (left : ℕ) (h : Found data want i acc) :
    ∃ acc', scan data want left i acc = some acc' ∧ Found data want (i + left) acc' := by
  induction left generalizing i acc with
  | zero => exact ⟨acc, rfl, h⟩
  | succ left ih =>
    rw [scan]
    split
    · next hshort =>
      -- No later entry is whole either.
      refine ⟨acc, rfl, h.none, fun k hk => ?_, fun j e hj hframe => ?_⟩
      · exact ⟨Nat.lt_of_lt_of_le (h.frame k hk).1 (Nat.le_add_right i _), (h.frame k hk).2⟩
      · have hwhole := hframe.whole
        exact h.least j e (by omega) hframe
    · next hwhole =>
      obtain ⟨e, he⟩ := entry_of_le (Nat.not_lt.mp hwhole)
      rw [he, ← Nat.add_assoc, Nat.add_right_comm]
      show ∃ acc', (if e.inside data then _ else _) = some acc' ∧ _
      split
      · next hinside => exact ih (h.take ⟨Nat.not_lt.mp hwhole, he, hinside⟩)
      · next hinside =>
        refine ih (h.skip fun e' hframe => hinside ?_)
        rw [← Option.some.inj (hframe.entry.symm.trans he)]
        exact hframe.inside

end

theorem found_start (data : Bytes) (want : ℤ) : Found data want 0 (none, 2 ^ 30) where
  none _ := rfl
  frame k hk := absurd hk (Option.some_ne_none k).symm
  least j _ hj := absurd hj (Nat.not_lt_zero j)

theorem word_of_le {data : Bytes} (h : 6 ≤ data.length) : ∃ n, word data 4 = some n := by
  obtain ⟨b₀, h₀⟩ := getElem?_of_lt data 4 (by omega)
  obtain ⟨b₁, h₁⟩ := getElem?_of_lt data 5 (by omega)
  rw [word, h₀, h₁]
  exact ⟨_, rfl⟩

theorem Frame.slice {data : Bytes} {i : ℕ} {e : Entry} (h : Frame data i e) :
    0 < e.size ∧ slice data e = some ((data.drop e.off).take e.size) ∧
      ((data.drop e.off).take e.size).length = e.size := by
  have hinside := h.inside
  rw [Entry.inside, Bool.and_eq_true, decide_eq_true_eq, decide_eq_true_eq] at hinside
  refine ⟨hinside.1, if_pos hinside.2, ?_⟩
  rw [List.length_take, List.length_drop]
  omega

/-- Of the frames that the directory names and that lie inside the data, none has a width nearer
to the one that is wanted. -/
def NearestFrame (data : Bytes) (want : ℤ) (e : Entry) : Prop :=
  ∃ n i, word data 4 = some n ∧ i < n ∧ Frame data i e ∧
    ∀ j e', j < n → Frame data j e' → e.delta want ≤ e'.delta want

/-- Whatever the bytes of a file are, `iconHandle` reads none outside of them.  It returns all
bytes of a nearest frame, which are some; and nothing only if no frame is near enough. -/
theorem iconHandle_nearest (data : Bytes) (want : ℤ) :
    (∃ e, NearestFrame data want e ∧
        iconHandle data want = some (some ((data.drop e.off).take e.size)) ∧
        ((data.drop e.off).take e.size).length = e.size ∧ 0 < e.size) ∨
      iconHandle data want = some none ∧
        ∀ n j e, word data 4 = some n → j < n → Frame data j e → 2 ^ 30 ≤ e.delta want := by
  unfold iconHandle
  split
  · next hshort =>
    refine Or.inr ⟨rfl, fun n j e _ _ hframe => ?_⟩
    have hwhole := hframe.whole
    omega
  · next hlong =>
    obtain ⟨n, hn⟩ := word_of_le (Nat.not_lt.mp hlong)
    obtain ⟨acc, hscan, hfound⟩ := scan_found n (found_start data want)
    rw [Nat.zero_add] at hfound
    obtain ⟨best, delta⟩ := acc
    rw [hn, Option.bind_eq_bind, Option.bind_some, hscan, Option.bind_eq_bind, Option.bind_some]
    cases best with
    | none =>
      refine Or.inr ⟨rfl, fun n' j e hn' hj hframe => ?_⟩
      obtain rfl := Option.some.inj hn'
      exact (hfound.none rfl) ▸ hfound.least j e hj hframe
    | some i =>
      obtain ⟨hi, e, hframe, rfl⟩ := hfound.frame i rfl
      obtain ⟨hpos, hslice, hlength⟩ := hframe.slice
      have hinside : ¬(data.length < e.off + e.size ∨ e.size = 0) := by
        have hle := hframe.inside
        rw [Entry.inside, Bool.and_eq_true, decide_eq_true_eq, decide_eq_true_eq] at hle
        omega
      refine Or.inl ⟨e, ⟨n, i, hn, hi, hframe, hfound.least⟩, ?_, hlength, hpos⟩
      dsimp only
      rw [hframe.entry, Option.bind_eq_bind, Option.bind_some, if_neg hinside, hslice,
        Option.map_some]

end Icon
end Launcher
end MkyBoot
