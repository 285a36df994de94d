import MkyBoot.Text

/-!
# MAC addresses and client ids

The Go server knows a workstation by the twelve hex digits of its MAC address,
whatever separators and case they were written with, and gives it an id
`client-0001`, `client-0002` and so on.  The number is read back from the id when
the state is loaded.  A Go string is the list of its characters here, and an `int`
is a natural number: the sequence starts at zero and only counts up.
-/

namespace MkyBoot
namespace Server

abbrev Str := List Char

/-! ## MAC addresses -/

def isLowerHex (c : Char) : Bool := ('0' ≤ c && c ≤ '9') || ('a' ≤ c && c ≤ 'f')

/-- The hex digits of a text in lower case.  No letter outside ASCII has one of them
as its lower case. -/
def hexDigits (mac : Str) : Str := (mac.map Char.toLower).filter isLowerHex

/-- The parse of the digits that `normalizeMAC` ends with cannot fail on them. -/
def normalizeMAC (mac : Str) : Str :=
  if (hexDigits mac).length = 12 then hexDigits mac else []

/-- Two ways to write one address: the digits agree up to case. -/
def Spells (mac mac' : Str) : Prop := hexDigits mac = hexDigits mac'

theorem toLower_of_isLowerHex {c : Char} (h : isLowerHex c = true) : c.toLower = c := by
  have hupper : ¬ (65 ≤ c.toNat ∧ c.toNat ≤ 90) := by
    simp only [isLowerHex, Bool.or_eq_true, Bool.and_eq_true, decide_eq_true_eq] at h
    change (48 ≤ c.toNat ∧ c.toNat ≤ 57) ∨ (97 ≤ c.toNat ∧ c.toNat ≤ 102) at h
    omega
  rw [Char.toLower, dif_neg]
  exact hupper

theorem hexDigits_idem (mac : Str) : hexDigits (hexDigits mac) = hexDigits mac := by
  have hall : ∀ c ∈ hexDigits mac, isLowerHex c = true := fun c hc => (List.mem_filter.mp hc).2
  have hmap : (hexDigits mac).map Char.toLower = hexDigits mac := by
    conv_rhs => rw [← List.map_id (hexDigits mac)]
    exact List.map_congr_left fun c hc => toLower_of_isLowerHex (hall c hc)
  rw [hexDigits, hmap]
  exact List.filter_eq_self.mpr hall

theorem normalizeMAC_idem (mac : Str) : normalizeMAC (normalizeMAC mac) = normalizeMAC mac := by
  by_cases h : (hexDigits mac).length = 12
  · have hnorm : normalizeMAC mac = hexDigits mac := if_pos h
    rw [hnorm, normalizeMAC, hexDigits_idem, if_pos h]
  · have hnorm : normalizeMAC mac = [] := if_neg h
    rw [hnorm]
    rfl

theorem normalizeMAC_of_spells {mac mac' : Str} (h : Spells mac mac') :
    normalizeMAC mac = normalizeMAC mac' := by
  rw [normalizeMAC, normalizeMAC, h]

/-! ## Client ids -/

/-- `fmt.Sprintf("client-%04d", n)` -/
def clientID (n : ℕ) : Str := "client-".toList ++ (Nat.toDigits 10 n).leftpad 4 '0'

/-- `strconv.Atoi` on a text without a minus sign. -/
def atoi (s : Str) : Option ℕ :=
  let ds := if s.head? = some '+' then s.tail else s
  if ds ≠ [] ∧ ds.all Char.isDigit then some (Nat.ofDigitChars 10 ds 0) else none

/-- The part of an id after its last hyphen, if it has one. -/
def suffix (id : Str) : Option Str :=
  if '-' ∈ id then some (id.rtakeWhile (· ≠ '-')) else none

/-- The number of an id, not bounded by the range of an `int`.  `adopt_run` says that a store
does not reach the bound before it has seen `2 ^ 63` operations. -/
def idSeq (id : Str) : ℕ :=
  match suffix id with
  | none => 0
  | some [] => 0
  | some s => (atoi s).getD 0

theorem suffix_append {p ds : Str} (h : '-' ∉ ds) : suffix (p ++ '-' :: ds) = some ds := by
  have hmem : '-' ∈ p ++ '-' :: ds := List.mem_append_right p List.mem_cons_self
  have hall : ∀ c ∈ ds.reverse, decide (c ≠ '-') = true := by
    intro c hc
    rw [decide_eq_true_eq]
    rintro rfl
    exact h (List.mem_reverse.mp hc)
  have hreverse : (p ++ '-' :: ds).reverse = ds.reverse ++ '-' :: p.reverse := by
    rw [List.reverse_append, List.reverse_cons, List.append_assoc]
    rfl
  rw [suffix, if_pos hmem, List.rtakeWhile, hreverse, List.takeWhile_append_of_pos hall,
    List.takeWhile_cons_of_neg (by decide), List.append_nil, List.reverse_reverse]

/-- The digits of an id. -/
def padded (n : ℕ) : Str := (Nat.toDigits 10 n).leftpad 4 '0'

theorem isDigit_of_mem_padded {n : ℕ} {c : Char} (h : c ∈ padded n) : c.isDigit = true := by
  rw [padded, List.leftpad, List.mem_append] at h
  rcases h with h | h
  · rw [List.eq_of_mem_replicate h]
    rfl
  · exact Nat.isDigit_of_mem_toDigits (by omega) (by omega) h

theorem padded_ne_nil (n : ℕ) : padded n ≠ [] := by
  intro h
  rw [padded, List.leftpad] at h
  exact Nat.toDigits_ne_nil (List.append_eq_nil_iff.mp h).2

theorem notMem_padded {c : Char} (hc : c.isDigit = false) (n : ℕ) : c ∉ padded n := by
  intro h
  rw [isDigit_of_mem_padded h] at hc
  cases hc

theorem atoi_padded (n : ℕ) : atoi (padded n) = some n := by
  have hsign : (padded n).head? ≠ some '+' := fun h =>
    notMem_padded (by decide) n (List.mem_of_head? h)
  have hall : (padded n).all Char.isDigit = true :=
    List.all_eq_true.mpr fun c hc => isDigit_of_mem_padded hc
  have hvalue : Nat.ofDigitChars 10 (padded n) 0 = n := by
    rw [padded, List.leftpad, Nat.ofDigitChars_append, Nat.ofDigitChars_replicate_zero,
      Nat.mul_zero, Nat.ofDigitChars_ten_toDigits]
  rw [atoi, if_neg hsign, if_pos ⟨padded_ne_nil n, hall⟩, hvalue]

/-- The number of an id is read back from it. -/
theorem idSeq_clientID (n : ℕ) : idSeq (clientID n) = n := by
  have hid : clientID n = "client".toList ++ '-' :: padded n := rfl
  have hsuffix : suffix (clientID n) = some (padded n) := by
    rw [hid]
    exact suffix_append (notMem_padded (by decide) n)
  rw [idSeq, hsuffix]
  cases hp : padded n with
  | nil => exact absurd hp (padded_ne_nil n)
  | cons c ds =>
    dsimp only
    rw [← hp, atoi_padded]
    rfl

end Server
end MkyBoot
