import Mathlib

/-!
# Rounding

Numbers are rational.  Where a program rounds one, to decimal digits or to a `float64`, the
functions here say how.
-/

namespace MkyBoot

/-- Round to the nearest integer, ties to even. -/
def roundEven (q : ℚ) : ℕ :=
  let f := q.floor
  let r := q - f
  let up := 1 / 2 < r ∨ (r = 1 / 2 ∧ f % 2 = 1)
  (if up then f + 1 else f).toNat

/-- The `float64` next to a number that is not negative and neither too small nor too large
for its exponent. -/
def float64 (q : ℚ) : ℚ :=
  if q = 0 then 0
  else
    let unit : ℚ := 2 ^ (Int.log 2 q - 52)
    roundEven (q / unit) * unit

end MkyBoot
