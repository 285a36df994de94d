import MkyBoot.Lua.Value

/-!
# Form bodies

The setup page of the web interface builds its body with `encodeURIComponent`, the
launcher with `url.Values.Encode`, and `parse_post` splits a body into fields
without decoding their values.  Both encoders percent-encode the UTF-8 bytes of
what they do not leave alone, but they leave different characters alone and the
launcher's writes a blank as a plus sign.  `encodings_eq_iff` says for which texts
they agree.
-/

namespace MkyBoot
namespace Control
namespace Form

open Lua

/-! ## Encoders -/

/-- The bytes of a character, each as the character with its code. -/
def utf8Char (c : Char) : Str := (String.utf8EncodeChar c).map fun b => Char.ofNat b.toNat

def percent (b : Char) : Str := ['%', upperHex (b.toNat / 16), upperHex (b.toNat % 16)]

/-- The characters `encodeURIComponent` leaves alone. -/
def uriUnreserved (c : Char) : Bool :=
  isWord c || c ∈ ['-', '_', '.', '!', '~', '*', '\'', '(', ')']

/-- The bytes `url.QueryEscape` leaves alone. -/
def queryUnreserved (b : Char) : Bool := isWord b || b ∈ ['-', '_', '.', '~']

def encodeURIChar (c : Char) : Str :=
  if uriUnreserved c then [c] else (utf8Char c).flatMap percent

def encodeURIComponent (p : List Char) : Str := p.flatMap encodeURIChar

def queryByte (b : Char) : Str :=
  if queryUnreserved b then [b] else if b = ' ' then ['+'] else percent b

def queryEscape (p : List Char) : Str := (p.flatMap utf8Char).flatMap queryByte

/-- The body the setup page sends. -/
def setupBody (p : List Char) : Str :=
  "password=".toList ++ (encodeURIComponent p ++ ("&confirm=".toList ++ encodeURIComponent p))

/-- The body the launcher sends: the values in the order of their keys. -/
def loginBody (p : List Char) : Str := "login=admin&pass=".toList ++ queryEscape p

/-! ## `parse_post` -/

/-- The pairs that `gmatch("([^&=]+)=([^&]*)")` finds.  While a key is read the first
argument is `none` and the second the key so far; afterwards they are the key and
the value so far. -/
def formPairs : Option Str → Str → Str → List (Str × Str)
  | none, _, [] => []
  | some k, v, [] => [(k, v)]
  | none, k, c :: cs =>
    if c = '&' then formPairs none [] cs
    else if c = '=' then
      if k = [] then formPairs none [] cs else formPairs (some k) [] cs
    else formPairs none (k ++ [c]) cs
  | some k, v, c :: cs =>
    if c = '&' then (k, v) :: formPairs none [] cs else formPairs (some k) (v ++ [c]) cs

def parsePost (body : Str) : Option (List (Str × Str)) :=
  if body = [] then none else some (formPairs none [] body)

/-- A field of the parsed table, in which a later pair replaces an earlier one. -/
def field (tbl : List (Str × Str)) (k : String) : Option Str :=
  (tbl.reverse.find? (·.1 == k.toList)).map (·.2)

theorem formPairs_key {t : Str} (ht : ∀ c ∈ t, c ≠ '&' ∧ c ≠ '=') (k rest : Str) :
    formPairs none k (t ++ rest) = formPairs none (k ++ t) rest := by
  induction t generalizing k with
  | nil => rw [List.nil_append, List.append_nil]
  | cons c t ih =>
    obtain ⟨hamp, heq⟩ := ht c List.mem_cons_self
    rw [List.cons_append, formPairs, if_neg hamp, if_neg heq,
      ih fun d hd => ht d (List.mem_cons_of_mem c hd), List.append_assoc]
    rfl

theorem formPairs_value {t : Str} (ht : '&' ∉ t) (k v rest : Str) :
    formPairs (some k) v (t ++ rest) = formPairs (some k) (v ++ t) rest := by
  induction t generalizing v with
  | nil => rw [List.nil_append, List.append_nil]
  | cons c t ih =>
    rw [List.mem_cons, not_or] at ht
    rw [List.cons_append, formPairs, if_neg (Ne.symm ht.1), ih ht.2, List.append_assoc]
    rfl

/-- A field at the end of a body. -/
theorem formPairs_last {k v : Str} (hk : ∀ c ∈ k, c ≠ '&' ∧ c ≠ '=') (hne : k ≠ [])
    (hv : '&' ∉ v) : formPairs none [] (k ++ '=' :: v) = [(k, v)] := by
  have hvalue := formPairs_value hv k [] []
  rw [List.append_nil] at hvalue
  rw [formPairs_key hk, List.nil_append, formPairs, if_neg (by decide), if_pos rfl, if_neg hne,
    hvalue]
  rfl

/-- A field before another one. -/
theorem formPairs_cons {k v rest : Str} {l : List (Str × Str)}
    (hk : ∀ c ∈ k, c ≠ '&' ∧ c ≠ '=') (hne : k ≠ []) (hv : '&' ∉ v)
    (hrest : formPairs none [] rest = l) :
    formPairs none [] (k ++ '=' :: (v ++ '&' :: rest)) = (k, v) :: l := by
  rw [formPairs_key hk, List.nil_append, formPairs, if_neg (by decide), if_pos rfl, if_neg hne,
    formPairs_value hv, formPairs, if_pos rfl, hrest]
  rfl

/-! ## Encoded values -/

theorem utf8EncodeChar_high {c : Char} (h : 127 < c.toNat) :
    ∀ b ∈ String.utf8EncodeChar c, 127 < b.toNat := by
  have hc : ¬ c.val.toNat ≤ 127 := Nat.not_le.mpr h
  intro b hb
  rw [String.utf8EncodeChar, if_neg hc] at hb
  split at hb
  · simp only [List.mem_cons, List.not_mem_nil, or_false] at hb
    rcases hb with rfl | rfl <;> simp <;> omega
  split at hb
  · simp only [List.mem_cons, List.not_mem_nil, or_false] at hb
    rcases hb with rfl | rfl | rfl <;> simp <;> omega
  · simp only [List.mem_cons, List.not_mem_nil, or_false] at hb
    rcases hb with rfl | rfl | rfl | rfl <;> simp <;> omega

theorem toNat_byte (b : UInt8) : (Char.ofNat b.toNat).toNat = b.toNat := by
  have hb := b.toNat_lt
  have hvalid : b.toNat.isValidChar := Or.inl (by omega)
  rw [Char.ofNat, dif_pos hvalid]
  rfl

theorem utf8Char_ascii {c : Char} (h : c.toNat ≤ 127) : utf8Char c = [c] := by
  have hc : c.val.toNat ≤ 127 := h
  rw [utf8Char, String.utf8EncodeChar, if_pos hc, List.map_singleton]
  refine congrArg (fun x => [x]) (Char.toNat_inj.mp ?_)
  rw [toNat_byte, UInt8.toNat_ofNat']
  exact Nat.mod_eq_of_lt (by omega)

theorem utf8Char_high {c : Char} (h : 127 < c.toNat) : ∀ b ∈ utf8Char c, 127 < b.toNat := by
  intro b hb
  rw [utf8Char, List.mem_map] at hb
  obtain ⟨byte, hbyte, rfl⟩ := hb
  rw [toNat_byte]
  exact utf8EncodeChar_high h byte hbyte

/-- The characters the two encoders write differently. -/
def differing : List Char := [' ', '!', '*', '\'', '(', ')']

theorem queryUnreserved_ascii {b : Char} (h : queryUnreserved b = true) : b.toNat ≤ 127 := by
  rw [queryUnreserved, Bool.or_eq_true, isWord_iff, decide_eq_true_eq] at h
  rcases h with h | h
  · omega
  · simp only [List.mem_cons, List.not_mem_nil, or_false] at h
    rcases h with rfl | rfl | rfl | rfl <;> decide

/-- Apart from the blank, what the two encoders leave alone makes the difference. -/
theorem uriUnreserved_iff {c : Char} (h : c ∉ differing) :
    uriUnreserved c = queryUnreserved c := by
  simp only [differing, List.mem_cons, List.not_mem_nil, or_false, not_or] at h
  obtain ⟨-, h₁, h₂, h₃, h₄, h₅⟩ := h
  simp only [uriUnreserved, queryUnreserved, List.mem_cons, List.not_mem_nil, h₁, h₂, h₃, h₄, h₅,
    or_false, false_or]

theorem queryByte_high {b : Char} (h : 127 < b.toNat) : queryByte b = percent b := by
  have hunres : queryUnreserved b ≠ true := by
    intro hb
    have := queryUnreserved_ascii hb
    omega
  have hblank : b ≠ ' ' := by
    rintro rfl
    exact absurd h (by decide)
  rw [queryByte, if_neg hunres, if_neg hblank]

def queryChar (c : Char) : Str := (utf8Char c).flatMap queryByte

theorem encodeURIChar_eq {c : Char} (h : c ∉ differing) : encodeURIChar c = queryChar c := by
  have hblank : c ≠ ' ' := fun hc => h (hc ▸ List.mem_cons_self)
  rw [encodeURIChar, queryChar, uriUnreserved_iff h]
  by_cases hc : c.toNat ≤ 127
  · rw [utf8Char_ascii hc, List.flatMap_singleton, List.flatMap_singleton, queryByte,
      if_neg hblank]
  · have hhigh := utf8Char_high (Nat.lt_of_not_le hc)
    have hunres : ¬ queryUnreserved c = true := fun hq => hc (queryUnreserved_ascii hq)
    rw [if_neg hunres]
    exact List.flatMap_congr fun b hb => (queryByte_high (hhigh b hb)).symm

/-- The encodings of such a character start differently. -/
theorem encodeURIChar_ne {c : Char} (h : c ∈ differing) (a b : Str) :
    encodeURIChar c ++ a ≠ queryChar c ++ b := by
  have hlong : ∀ d ∈ differing, 1 ≤ (encodeURIChar d).length ∧ 1 ≤ (queryChar d).length := by
    decide
  have hstart : ∀ d ∈ differing, (encodeURIChar d).take 1 ≠ (queryChar d).take 1 := by decide
  intro heq
  have htake := congrArg (List.take 1) heq
  rw [List.take_append_of_le_length (hlong c h).1, List.take_append_of_le_length (hlong c h).2]
    at htake
  exact hstart c h htake

theorem queryEscape_cons (c : Char) (p : List Char) :
    queryEscape (c :: p) = queryChar c ++ queryEscape p := by
  rw [queryEscape, List.flatMap_cons, List.flatMap_append]
  rfl

/-- The two encodings of a text agree exactly when it has none of the characters
they write differently. -/
theorem encodings_eq_iff (p : List Char) :
    encodeURIComponent p = queryEscape p ↔ ∀ c ∈ p, c ∉ differing := by
  induction p with
  | nil => simp [encodeURIComponent, queryEscape]
  | cons c p ih =>
    rw [encodeURIComponent, List.flatMap_cons, queryEscape_cons, List.forall_mem_cons, ← ih]
    by_cases hc : c ∈ differing
    · exact iff_of_false (encodeURIChar_ne hc _ _) (fun h => h.1 hc)
    · rw [encodeURIChar_eq hc, List.append_cancel_left_eq]
      exact (and_iff_right hc).symm

/-! ## Encoded values stay in their field -/

theorem amp_notMem_percent (b : Char) : '&' ∉ percent b := by
  have hhex (n : ℕ) : '&' ≠ upperHex n := fun h => absurd (h ▸ upperHex_mem n) (by decide)
  intro h
  simp only [percent, List.mem_cons, List.not_mem_nil, or_false] at h
  rcases h with h | h | h
  · exact absurd h (by decide)
  · exact hhex _ h
  · exact hhex _ h

theorem amp_notMem_encodeURIComponent (p : List Char) : '&' ∉ encodeURIComponent p := by
  intro h
  obtain ⟨c, -, hc⟩ := List.mem_flatMap.mp h
  rw [encodeURIChar] at hc
  split at hc
  · rename_i hunres
    rw [List.mem_singleton] at hc
    exact absurd (hc ▸ hunres) (by decide)
  · obtain ⟨b, -, hb⟩ := List.mem_flatMap.mp hc
    exact amp_notMem_percent b hb

theorem amp_notMem_queryEscape (p : List Char) : '&' ∉ queryEscape p := by
  intro h
  obtain ⟨b, -, hb⟩ := List.mem_flatMap.mp h
  rw [queryByte] at hb
  split at hb
  · rename_i hunres
    rw [List.mem_singleton] at hb
    exact absurd (hb ▸ hunres) (by decide)
  split at hb
  · exact absurd hb (by decide)
  · exact amp_notMem_percent b hb

theorem parsePost_of_formPairs {body : Str} {l : List (Str × Str)} (hne : body ≠ [])
    (h : formPairs none [] body = l) : parsePost body = some l := by
  rw [parsePost, if_neg hne, h]

theorem parsePost_setupBody (p : List Char) :
    parsePost (setupBody p) = some [("password".toList, encodeURIComponent p),
      ("confirm".toList, encodeURIComponent p)] := by
  have hamp := amp_notMem_encodeURIComponent p
  have hconfirm := formPairs_last (k := "confirm".toList) (by decide) (by decide) hamp
  have hpassword := formPairs_cons (k := "password".toList) (by decide) (by decide) hamp hconfirm
  exact parsePost_of_formPairs (List.cons_ne_nil _ _) hpassword

theorem parsePost_loginBody (p : List Char) :
    parsePost (loginBody p) = some [("login".toList, "admin".toList),
      ("pass".toList, queryEscape p)] := by
  have hpass := formPairs_last (k := "pass".toList) (by decide) (by decide)
    (amp_notMem_queryEscape p)
  have hlogin := formPairs_cons (k := "login".toList) (v := "admin".toList) (by decide)
    (by decide) (by decide) hpass
  exact parsePost_of_formPairs (List.cons_ne_nil _ _) hlogin

end Form
end Control
end MkyBoot
