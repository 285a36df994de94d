import Mathlib

/-!
# Instants as texts

`time.Time` writes itself into JSON as RFC 3339 in its own time zone, with as many digits of
a second as it needs, and refuses a year that has not four digits.  An instant is a number
of nanoseconds since 1970, and a zone says how many minutes a local clock is ahead at it.
`parse_format` says that the text of an instant is read back.
-/

namespace MkyBoot
namespace Go
namespace Rfc3339

/-! ## The calendar -/

structure Date where
  year : ℤ
  month : ℤ
  day : ℤ
  deriving DecidableEq

/-- The date of a day, counted from 1 January 1970.  Years start in March here, so that a
leap day is the last of its year; the longer year is the last of four, the shorter four are
the last of a century, and the longer century is the last of a cycle of four. -/
def dateOf (n : ℤ) : Date :=
  let d := (n + 719468) % 146097
  let century := min (d / 36524) 3
  let d := d - 36524 * century
  let four := d / 1461
  let d := d - 1461 * four
  let one := min (d / 365) 3
  let d := d - 365 * one
  let m := (5 * d + 2) / 153
  let day := d - (153 * m + 2) / 5 + 1
  let year := 400 * ((n + 719468) / 146097) + 100 * century + 4 * four + one
  if m < 10 then ⟨year, m + 3, day⟩ else ⟨year + 1, m - 9, day⟩

def dayOf (x : Date) : ℤ :=
  let year := if x.month ≤ 2 then x.year - 1 else x.year
  let m := if x.month ≤ 2 then x.month + 9 else x.month - 3
  365 * year + year / 4 - year / 100 + year / 400 + (153 * m + 2) / 5 + x.day - 719469

/-- A day in March years: the year, the months that are over and the days of the next. -/
theorem exists_date (n : ℤ) : ∃ year m day : ℤ, (0 ≤ m ∧ m < 12) ∧ (1 ≤ day ∧ day ≤ 31) ∧
    n = 365 * year + year / 4 - year / 100 + year / 400 + (153 * m + 2) / 5 + day - 719469 ∧
    dateOf n = if m < 10 then ⟨year, m + 3, day⟩ else ⟨year + 1, m - 9, day⟩ := by
  unfold dateOf
  dsimp only
  generalize hd : (n + 719468) % 146097 = d₀
  generalize hcycle : (n + 719468) / 146097 = cycle
  generalize hcentury : min (d₀ / 36524) 3 = century
  generalize hd₁ : d₀ - 36524 * century = d₁
  generalize hfour : d₁ / 1461 = four
  generalize hd₂ : d₁ - 1461 * four = d₂
  generalize hone : min (d₂ / 365) 3 = one
  generalize hd₃ : d₂ - 365 * one = d₃
  generalize hm : (5 * d₃ + 2) / 153 = m
  have hcentury : (0 ≤ century ∧ century ≤ 3) ∧ 0 ≤ d₁ ∧ d₁ ≤ 36524 := by omega
  have hfour : (0 ≤ four ∧ four ≤ 24) ∧ 0 ≤ d₂ ∧ d₂ ≤ 1460 := by omega
  have hone : (0 ≤ one ∧ one ≤ 3) ∧ 0 ≤ d₃ ∧ d₃ ≤ 365 := by omega
  refine ⟨400 * cycle + 100 * century + 4 * four + one, m, d₃ - (153 * m + 2) / 5 + 1, ?_, ?_, ?_,
    rfl⟩
  · omega
  · omega
  · generalize hyear : 400 * cycle + 100 * century + 4 * four + one = year
    have hquarter : year / 4 = 100 * cycle + 25 * century + four := by omega
    have hhundredth : year / 100 = 4 * cycle + century := by omega
    have hlast : year / 400 = cycle := by omega
    omega

theorem dayOf_dateOf (n : ℤ) : dayOf (dateOf n) = n := by
  obtain ⟨year, m, day, hm, -, hn, hdate⟩ := exists_date n
  rw [hdate]
  by_cases hlate : m < 10
  · rw [if_pos hlate, dayOf]
    dsimp only
    rw [if_neg (by omega), if_neg (by omega), add_sub_cancel_right]
    exact hn.symm
  · rw [if_neg hlate, dayOf]
    dsimp only
    rw [if_pos (by omega), if_pos (by omega), add_sub_cancel_right, sub_add_cancel]
    exact hn.symm

/-- The month and the day have two digits. -/
theorem dateOf_bounds (n : ℤ) : (1 ≤ (dateOf n).month ∧ (dateOf n).month ≤ 12) ∧
    1 ≤ (dateOf n).day ∧ (dateOf n).day ≤ 31 := by
  obtain ⟨year, m, day, hm, hday, -, hdate⟩ := exists_date n
  rw [hdate]
  by_cases hlate : m < 10
  · rw [if_pos hlate]
    dsimp only
    omega
  · rw [if_neg hlate]
    dsimp only
    omega

/-! ## Numbers with a fixed number of digits -/

def fixed : ℕ → ℕ → List Char
  | 0, _ => []
  | k + 1, n => fixed k (n / 10) ++ [Nat.digitChar (n % 10)]

def number (k : ℕ) (s : List Char) : Option (ℕ × List Char) :=
  if (s.take k).length = k ∧ (s.take k).all Char.isDigit then
    some (Nat.ofDigitChars 10 (s.take k) 0, s.drop k)
  else none

theorem length_fixed (k n : ℕ) : (fixed k n).length = k := by
  induction k generalizing n with
  | zero => rfl
  | succ k ih => rw [fixed, List.length_append, ih, List.length_singleton]

theorem isDigit_of_mem_fixed {k n : ℕ} {c : Char} (h : c ∈ fixed k n) : c.isDigit = true := by
  induction k generalizing n with
  | zero => cases h
  | succ k ih =>
    rcases List.mem_append.mp h with h | h
    · exact ih h
    · have hdigits : ∀ d < 10, (Nat.digitChar d).isDigit = true := by decide
      rw [List.mem_singleton.mp h]
      exact hdigits _ (Nat.mod_lt n (by decide))

theorem ofDigitChars_fixed {k n : ℕ} (h : n < 10 ^ k) :
    Nat.ofDigitChars 10 (fixed k n) 0 = n := by
  induction k generalizing n with
  | zero => exact (Nat.lt_one_iff.mp h).symm
  | succ k ih =>
    have hdiv : n / 10 < 10 ^ k := by
      rw [pow_succ] at h
      exact Nat.div_lt_of_lt_mul (by rwa [mul_comm] at h)
    rw [fixed, Nat.ofDigitChars_append, ih hdiv,
      Nat.ofDigitChars_cons_digitChar_of_lt_ten (Nat.mod_lt n (by decide)), Nat.ofDigitChars_nil]
    exact Nat.div_add_mod n 10

theorem number_fixed {k n : ℕ} (h : n < 10 ^ k) (s : List Char) :
    number k (fixed k n ++ s) = some (n, s) := by
  have hlength := length_fixed k n
  have hall : (fixed k n).all Char.isDigit = true :=
    List.all_eq_true.mpr fun c hc => isDigit_of_mem_fixed hc
  rw [number, List.take_left' hlength, List.drop_left' hlength, if_pos ⟨hlength, hall⟩,
    ofDigitChars_fixed h]

def skip (c : Char) : List Char → Option (List Char)
  | [] => none
  | d :: s => if d = c then some s else none

theorem skip_cons (c : Char) (s : List Char) : skip c (c :: s) = some s := if_pos rfl

/-! ## The parts of a second

Zeros at the end are left out, and the point with them if there is nothing else. -/

def fraction (nanos : ℕ) : List Char :=
  if nanos = 0 then [] else '.' :: (fixed 9 nanos).rdropWhile (· == '0')

/-- Nine digits, of which the last may be left out. -/
def nanosOf (ds : List Char) : ℕ :=
  Nat.ofDigitChars 10 (ds.take 9 ++ List.replicate (9 - ds.length) '0') 0

def readFraction : List Char → Option (ℕ × List Char)
  | [] => some (0, [])
  | c :: s =>
    if c = '.' then
      if s.takeWhile Char.isDigit = [] then none
      else some (nanosOf (s.takeWhile Char.isDigit), s.dropWhile Char.isDigit)
    else some (0, c :: s)

theorem rdropWhile_append_replicate {α : Type} [BEq α] [LawfulBEq α] (a : α) (l : List α) :
    l.rdropWhile (· == a) ++ List.replicate (l.length - (l.rdropWhile (· == a)).length) a = l := by
  have hsplit : l.rdropWhile (· == a) ++ l.rtakeWhile (· == a) = l :=
    List.rdropWhile_append_rtakeWhile
  have htake : l.rtakeWhile (· == a) = List.replicate (l.rtakeWhile (· == a)).length a := by
    refine List.eq_replicate_iff.mpr ⟨rfl, fun b hb => ?_⟩
    exact beq_iff_eq.mp (List.mem_rtakeWhile_imp (p := (· == a)) hb)
  have hlength : l.length - (l.rdropWhile (· == a)).length = (l.rtakeWhile (· == a)).length := by
    have hsum := congrArg List.length hsplit
    rw [List.length_append] at hsum
    omega
  rw [hlength, ← htake, hsplit]

theorem nanosOf_rdropWhile {nanos : ℕ} (h : nanos < 1000000000) :
    nanosOf ((fixed 9 nanos).rdropWhile (· == '0')) = nanos := by
  have hlength := length_fixed 9 nanos
  have hle : ((fixed 9 nanos).rdropWhile (· == '0')).length ≤ 9 :=
    hlength ▸ (List.rdropWhile_prefix _ _).length_le
  have hpad := rdropWhile_append_replicate '0' (fixed 9 nanos)
  rw [hlength] at hpad
  rw [nanosOf, List.take_of_length_le hle, hpad]
  exact ofDigitChars_fixed h

theorem readFraction_fraction {nanos : ℕ} (h : nanos < 1000000000) {c : Char}
    (hdigit : c.isDigit = false) (hpoint : c ≠ '.') (s : List Char) :
    readFraction (fraction nanos ++ c :: s) = some (nanos, c :: s) := by
  unfold fraction
  by_cases hzero : nanos = 0
  · rw [if_pos hzero, List.nil_append, readFraction, if_neg hpoint, hzero]
  · rw [if_neg hzero, List.cons_append, readFraction, if_pos rfl]
    have hvalue := nanosOf_rdropWhile h
    generalize hds : (fixed 9 nanos).rdropWhile (· == '0') = ds at hvalue
    have hall (d : Char) (hd : d ∈ ds) : d.isDigit = true := by
      refine isDigit_of_mem_fixed (k := 9) (n := nanos) ?_
      exact (List.rdropWhile_prefix _ _).mem (hds ▸ hd)
    have hne : ds ≠ [] := by
      rintro rfl
      exact hzero hvalue.symm
    have htake : (ds ++ c :: s).takeWhile Char.isDigit = ds := by
      rw [List.takeWhile_append_of_pos hall, List.takeWhile_cons_of_neg (by simp [hdigit]),
        List.append_nil]
    have hdrop : (ds ++ c :: s).dropWhile Char.isDigit = c :: s := by
      rw [List.dropWhile_append_of_pos hall, List.dropWhile_cons_of_neg (by simp [hdigit])]
    rw [htake, if_neg hne, hdrop, hvalue]

/-! ## The zone -/

/-- How many minutes the clock is ahead at an instant, less than a day. -/
structure Zone where
  minutes : ℤ → ℤ
  small : ∀ t, (minutes t).natAbs < 1440

def zoneText (z : ℤ) : List Char :=
  if z = 0 then ['Z']
  else (if z < 0 then '-' else '+') ::
    (fixed 2 (z.natAbs / 60) ++ ':' :: (fixed 2 (z.natAbs % 60) ++ []))

def readZone : List Char → Option ℤ
  | [] => none
  | c :: s =>
    if c = 'Z' then if s = [] then some 0 else none
    else if c = '+' ∨ c = '-' then do
      let (hours, s) ← number 2 s
      let s ← skip ':' s
      let (minutes, s) ← number 2 s
      if s = [] ∧ hours < 24 ∧ minutes < 60 then
        some (if c = '-' then -(hours * 60 + minutes : ℤ) else hours * 60 + minutes)
      else none
    else none

theorem readZone_zoneText {z : ℤ} (h : z.natAbs < 1440) : readZone (zoneText z) = some z := by
  unfold zoneText
  by_cases hzero : z = 0
  · rw [if_pos hzero, hzero]
    rfl
  rw [if_neg hzero]
  have hhours : z.natAbs / 60 < 24 := by omega
  have hminutes : z.natAbs % 60 < 60 := Nat.mod_lt _ (by decide)
  have hread := number_fixed (k := 2) (n := z.natAbs / 60) (by omega)
  have hread' := number_fixed (k := 2) (n := z.natAbs % 60) (by omega)
  by_cases hneg : z < 0
  · rw [if_pos hneg, readZone, if_neg (by decide), if_pos (Or.inr rfl)]
    simp only [hread, hread', skip_cons, Option.bind_eq_bind, Option.bind_some, hhours, hminutes,
      and_self, if_true]
    congr 1
    omega
  · rw [if_neg hneg, readZone, if_neg (by decide), if_pos (Or.inl rfl)]
    simp only [hread, hread', skip_cons, Option.bind_eq_bind, Option.bind_some, hhours, hminutes,
      and_self, if_true]
    rw [if_neg (by decide)]
    congr 1
    omega

/-- A zone does not start like a fraction or a number. -/
theorem zoneText_cons (z : ℤ) :
    ∃ c s, zoneText z = c :: s ∧ c.isDigit = false ∧ c ≠ '.' := by
  unfold zoneText
  by_cases hzero : z = 0
  · rw [if_pos hzero]
    exact ⟨_, _, rfl, by decide, by decide⟩
  · rw [if_neg hzero]
    by_cases hneg : z < 0
    · rw [if_pos hneg]
      exact ⟨_, _, rfl, by decide, by decide⟩
    · rw [if_neg hneg]
      exact ⟨_, _, rfl, by decide, by decide⟩

/-! ## Dates and times of the day -/

def dateText (x : Date) : List Char :=
  fixed 4 x.year.toNat ++ '-' :: (fixed 2 x.month.toNat ++ '-' :: fixed 2 x.day.toNat)

/-- A date is one of the calendar if it is that of its day. -/
def readDate (s : List Char) : Option (Date × List Char) := do
  let (year, s) ← number 4 s
  let s ← skip '-' s
  let (month, s) ← number 2 s
  let s ← skip '-' s
  let (day, s) ← number 2 s
  let x : Date := ⟨year, month, day⟩
  if dateOf (dayOf x) = x then some (x, s) else none

theorem readDate_dateText {n : ℤ} (hyear : 0 ≤ (dateOf n).year) (hyear' : (dateOf n).year < 10000)
    (s : List Char) : readDate (dateText (dateOf n) ++ s) = some (dateOf n, s) := by
  obtain ⟨hmonth, hday⟩ := dateOf_bounds n
  have hvalid : dateOf (dayOf (dateOf n)) = dateOf n := by rw [dayOf_dateOf]
  generalize dateOf n = x at *
  have hsame : (⟨x.year.toNat, x.month.toNat, x.day.toNat⟩ : Date) = x := by
    rw [Int.toNat_of_nonneg hyear, Int.toNat_of_nonneg (by omega), Int.toNat_of_nonneg (by omega)]
  have hy := number_fixed (k := 4) (n := x.year.toNat) (by omega)
  have hm := number_fixed (k := 2) (n := x.month.toNat) (by omega)
  have hd := number_fixed (k := 2) (n := x.day.toNat) (by omega)
  simp only [readDate, dateText, List.append_assoc, List.cons_append, hy, hm, hd, skip_cons,
    Option.bind_eq_bind, Option.bind_some, hsame, hvalid, if_true]

/-- The seconds of a day that are over, as a clock shows them. -/
def clockText (second : ℕ) : List Char :=
  fixed 2 (second / 3600) ++ ':' :: (fixed 2 (second / 60 % 60) ++ ':' :: fixed 2 (second % 60))

def readClock (s : List Char) : Option (ℕ × List Char) := do
  let (hour, s) ← number 2 s
  let s ← skip ':' s
  let (minute, s) ← number 2 s
  let s ← skip ':' s
  let (second, s) ← number 2 s
  if hour < 24 ∧ minute < 60 ∧ second < 60 then some ((hour * 60 + minute) * 60 + second, s)
  else none

theorem readClock_clockText {second : ℕ} (h : second < 86400) (s : List Char) :
    readClock (clockText second ++ s) = some (second, s) := by
  have hhour : second / 3600 < 24 := by omega
  have hminute : second / 60 % 60 < 60 := by omega
  have hsecond : second % 60 < 60 := by omega
  have hh := number_fixed (k := 2) (n := second / 3600) (by omega)
  have hm := number_fixed (k := 2) (n := second / 60 % 60) (by omega)
  have hs := number_fixed (k := 2) (n := second % 60) (by omega)
  have hvalue : (second / 3600 * 60 + second / 60 % 60) * 60 + second % 60 = second := by omega
  simp only [readClock, clockText, List.append_assoc, List.cons_append, hh, hm, hs, skip_cons,
    Option.bind_eq_bind, Option.bind_some, hhour, hminute, hsecond, and_self, if_true, hvalue]

/-! ## Instants -/

/-- What the clock of a zone shows at an instant, as nanoseconds. -/
def Zone.clock (zone : Zone) (t : ℤ) : ℤ := t + zone.minutes t * 60000000000

def dateAt (clock : ℤ) : Date := dateOf (clock / 86400000000000)

def secondAt (clock : ℤ) : ℕ := (clock % 86400000000000 / 1000000000).toNat

/-- `MarshalJSON` refuses the other years. -/
def writable (zone : Zone) (t : ℤ) : Bool :=
  0 ≤ (dateAt (zone.clock t)).year && (dateAt (zone.clock t)).year < 10000

def format (zone : Zone) (t : ℤ) : List Char :=
  dateText (dateAt (zone.clock t)) ++ 'T' :: (clockText (secondAt (zone.clock t)) ++
    (fraction (zone.clock t % 1000000000).toNat ++ zoneText (zone.minutes t)))

def parse (s : List Char) : Option ℤ := do
  let (x, s) ← readDate s
  let s ← skip 'T' s
  let (second, s) ← readClock s
  let (nanos, s) ← readFraction s
  let zone ← readZone s
  some ((dayOf x * 86400 + second - zone * 60) * 1000000000 + nanos)

theorem parse_format {zone : Zone} {t : ℤ} (h : writable zone t = true) :
    parse (format zone t) = some t := by
  obtain ⟨hyear, hyear'⟩ := Bool.and_eq_true_iff.mp h
  have hdate := readDate_dateText (of_decide_eq_true hyear) (of_decide_eq_true hyear')
  have hclock : zone.clock t = t + zone.minutes t * 60000000000 := rfl
  unfold format parse dateAt
  generalize zone.clock t = u at *
  have hsecond : secondAt u < 86400 := by
    unfold secondAt
    omega
  have hnanos : (u % 1000000000).toNat < 1000000000 := by omega
  obtain ⟨c, s, hzone, hdigit, hpoint⟩ := zoneText_cons (zone.minutes t)
  have hfraction : readFraction (fraction (u % 1000000000).toNat ++ zoneText (zone.minutes t)) =
      some ((u % 1000000000).toNat, zoneText (zone.minutes t)) := by
    rw [hzone]
    exact readFraction_fraction hnanos hdigit hpoint s
  simp only [hdate, readClock_clockText hsecond, skip_cons, hfraction,
    readZone_zoneText (zone.small t), Option.bind_eq_bind, Option.bind_some, dayOf_dateOf]
  congr 1
  unfold secondAt
  omega

end Rfc3339
end Go
end MkyBoot
