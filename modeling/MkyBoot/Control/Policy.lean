import MkyBoot.Control.FirstRun
import MkyBoot.Control.Password

/-!
# The password policy

Setup and the change of the password ask for eight characters.  What they count are the bytes
of the field as `parse_post` leaves it: an escape like `%41` counts as three, and so does each
byte of a character that is encoded with several.  `formDecode` is the value that the user
typed, as bytes, and `characters` the number of its characters.  `accepted_policy_iff` says
how long an accepted field must be for the typed password to meet the policy.
-/

namespace MkyBoot
namespace Control
namespace Policy

open Lua Posix Form

/-! ## The value of a field -/

/-- The byte that two digits stand for. -/
def digitsByte (a b : Char) : Char :=
  Char.ofNat ((hexValue a).getD 0 * 16 + (hexValue b).getD 0)

/-- The bytes of a form field, each with whether an escape stands for it. -/
def formUnits : Str → List (Char × Bool)
  | [] => []
  | c :: s =>
    if c = '%' then
      match s with
      | [] => [('%', false)]
      | [a] => ('%', false) :: formUnits [a]
      | a :: b :: rest =>
        if isXDigit a && isXDigit b then
          (digitsByte a b, true) :: formUnits rest
        else ('%', false) :: formUnits (a :: b :: rest)
    else (if c = '+' then ' ' else c, false) :: formUnits s

/-- The value of a field. -/
def formDecode (raw : Str) : Str := (formUnits raw).map Prod.fst

/-- The number of escapes in a field. -/
def escapes (raw : Str) : ℕ := (formUnits raw).countP Prod.snd

/-- A byte that continues a character. -/
def isContinuation (b : Char) : Bool := 128 ≤ b.toNat && b.toNat < 192

/-- The number of characters that bytes make up. -/
def characters (s : Str) : ℕ := s.countP fun b => !isContinuation b

def continuations (raw : Str) : ℕ := (formDecode raw).countP isContinuation

theorem formUnits_escape {a b : Char} (h : (isXDigit a && isXDigit b) = true) (rest : Str) :
    formUnits ('%' :: a :: b :: rest) =
      (digitsByte a b, true) :: formUnits rest := by
  rw [formUnits.eq_def]
  simp only [h, if_true]

theorem formUnits_plain {c : Char} (hc : c ≠ '%') (s : Str) :
    formUnits (c :: s) = (if c = '+' then ' ' else c, false) :: formUnits s := by
  rw [formUnits.eq_def]
  simp only [if_neg hc]

/-- An escape is two bytes longer than what it stands for. -/
theorem length_formUnits (raw : Str) : (formUnits raw).length + 2 * escapes raw = raw.length := by
  rw [escapes]
  induction raw using formUnits.induct with
  | case1 => rfl
  | case2 => rfl
  | case3 a ih =>
    rw [formUnits, if_pos rfl]
    simp only [List.length_cons, List.countP_cons, Bool.false_eq_true, if_false] at ih ⊢
    omega
  | case4 a b rest hhex ih =>
    rw [formUnits_escape hhex]
    simp only [List.length_cons, List.countP_cons, if_true] at ih ⊢
    omega
  | case5 a b rest hhex ih =>
    rw [formUnits, if_pos rfl]
    simp only [hhex, Bool.false_eq_true, if_false, List.length_cons, List.countP_cons] at ih ⊢
    omega
  | case6 c s hc ih =>
    rw [formUnits_plain hc]
    simp only [List.length_cons, List.countP_cons, Bool.false_eq_true, if_false] at ih ⊢
    omega

/-- The bytes of a value are characters or continue one. -/
theorem length_formDecode (raw : Str) :
    characters (formDecode raw) + continuations raw = (formUnits raw).length := by
  have hnot : (fun b => !isContinuation b) = fun b => decide ¬ isContinuation b = true := by
    funext b
    cases isContinuation b with
    | true => rfl
    | false => rfl
  rw [characters, continuations, Nat.add_comm, hnot, ← List.length_eq_countP_add_countP, formDecode,
    List.length_map]

/-- How the number of characters depends on the length of a field. -/
theorem characters_eq (raw : Str) :
    characters (formDecode raw) + continuations raw + 2 * escapes raw = raw.length := by
  rw [length_formDecode, length_formUnits]

/-! ## What the page sends -/

theorem formUnits_percent {b : Char} (hb : b.toNat < 256) (rest : Str) :
    formUnits (percent b ++ rest) = (b, true) :: formUnits rest := by
  have hdigit : ∀ n < 16, isXDigit (upperHex n) = true := by decide
  have hhigh : b.toNat / 16 < 16 := by omega
  have hlow : b.toNat % 16 < 16 := Nat.mod_lt _ (by decide)
  have hvalue : b.toNat / 16 * 16 + b.toNat % 16 = b.toNat := by omega
  show formUnits ('%' :: upperHex (b.toNat / 16) :: upperHex (b.toNat % 16) :: rest) = _
  rw [formUnits_escape (by rw [hdigit _ hhigh, hdigit _ hlow]; rfl), digitsByte,
    hexValue_upperHex _ hhigh, hexValue_upperHex _ hlow, Option.getD_some, Option.getD_some,
    hvalue, Char.ofNat_toNat]

theorem formUnits_percents {bs : Str} (hbs : ∀ b ∈ bs, b.toNat < 256) (rest : Str) :
    formUnits (bs.flatMap percent ++ rest) = bs.map (·, true) ++ formUnits rest := by
  induction bs with
  | nil => rfl
  | cons b bs ih =>
    rw [List.flatMap_cons, List.append_assoc, formUnits_percent (hbs b List.mem_cons_self),
      ih fun d hd => hbs d (List.mem_cons_of_mem b hd)]
    rfl

theorem utf8Char_lt (c : Char) : ∀ b ∈ utf8Char c, b.toNat < 256 := by
  intro b hb
  obtain ⟨byte, -, rfl⟩ := List.mem_map.mp hb
  rw [toNat_byte]
  exact byte.toNat_lt

/-- The characters that the page leaves alone are no signs of the encoding. -/
theorem uriUnreserved_plain {c : Char} (h : uriUnreserved c = true) :
    c ≠ '%' ∧ c ≠ '+' ∧ c.toNat ≤ 127 := by
  rw [uriUnreserved, Bool.or_eq_true, isWord_iff, decide_eq_true_eq] at h
  rcases h with hword | hmem
  · refine ⟨?_, ?_, by omega⟩
    · rintro rfl
      exact absurd hword (by decide)
    · rintro rfl
      exact absurd hword (by decide)
  · have hall : ∀ d ∈ ['-', '_', '.', '!', '~', '*', '\'', '(', ')'],
        d ≠ '%' ∧ d ≠ '+' ∧ d.toNat ≤ 127 := by decide
    exact hall c hmem

/-- The value of a field that the page has encoded is what was typed. -/
theorem formDecode_encodeURIComponent (p : List Char) :
    formDecode (encodeURIComponent p) = p.flatMap utf8Char := by
  rw [formDecode, encodeURIComponent]
  induction p with
  | nil => rfl
  | cons c p ih =>
    rw [List.flatMap_cons, List.flatMap_cons, encodeURIChar]
    by_cases hc : uriUnreserved c = true
    · obtain ⟨hpercent, hplus, hascii⟩ := uriUnreserved_plain hc
      rw [if_pos hc, List.singleton_append, formUnits_plain hpercent, if_neg hplus, List.map_cons,
        ih, utf8Char_ascii hascii]
      rfl
    · rw [if_neg hc, formUnits_percents (utf8Char_lt c), List.map_append, ih, List.map_map]
      exact congrArg (· ++ p.flatMap utf8Char) (List.map_id _)

theorem isContinuation_byte {n : ℕ} (hn : n < 256) :
    isContinuation (Char.ofNat (UInt8.ofNat n).toNat) = decide (128 ≤ n ∧ n < 192) := by
  rw [isContinuation, toNat_byte, UInt8.toNat_ofNat', Nat.mod_eq_of_lt hn, Bool.decide_and]

theorem isContinuation_lead {n : ℕ} (hn : n < 64) :
    isContinuation (Char.ofNat (UInt8.ofNat (n + 192)).toNat) = false := by
  rw [isContinuation_byte (by omega), decide_eq_false_iff_not]
  omega

theorem isContinuation_rest (n : ℕ) :
    isContinuation (Char.ofNat (UInt8.ofNat (n % 64 + 128)).toNat) = true := by
  rw [isContinuation_byte (by omega), decide_eq_true_iff]
  omega

/-- One byte of a character starts it. -/
theorem characters_utf8Char (c : Char) : characters (utf8Char c) = 1 := by
  by_cases hascii : c.toNat ≤ 127
  · have hplain : isContinuation c = false := by
      rw [isContinuation, Bool.and_eq_false_iff, decide_eq_false_iff_not]
      exact Or.inl (by omega)
    rw [utf8Char_ascii hascii, characters, List.countP_singleton, hplain]
    rfl
  · have hv : ¬ c.val.toNat ≤ 127 := hascii
    have hthree (n : ℕ) : n % 16 + 224 = (n % 16 + 32) + 192 := by omega
    have hfour (n : ℕ) : n % 8 + 240 = (n % 8 + 48) + 192 := by omega
    have htwo : c.val.toNat / 64 % 32 < 64 := by omega
    have hthree' : c.val.toNat / 4096 % 16 + 32 < 64 := by omega
    have hfour' : c.val.toNat / 262144 % 8 + 48 < 64 := by omega
    rw [characters, utf8Char, String.utf8EncodeChar, if_neg hv]
    split
    · simp only [List.map_cons, List.map_nil, List.countP_cons, List.countP_nil,
        isContinuation_lead htwo, isContinuation_rest]
      rfl
    split
    · simp only [List.map_cons, List.map_nil, List.countP_cons, List.countP_nil, hthree,
        isContinuation_lead hthree', isContinuation_rest]
      rfl
    · simp only [List.map_cons, List.map_nil, List.countP_cons, List.countP_nil, hfour,
        isContinuation_lead hfour', isContinuation_rest]
      rfl

theorem characters_utf8 (p : List Char) : characters (p.flatMap utf8Char) = p.length := by
  induction p with
  | nil => rfl
  | cons c p ih =>
    rw [characters, List.flatMap_cons, List.countP_append, List.length_cons, Nat.add_comm]
    exact congrArg₂ (· + ·) ih (characters_utf8Char c)

/-! ## The change of the password -/

/-- What `..` makes of a value. -/
def concatText : Val → Option Str
  | .str s => some s
  | .num q => some (tostring (.num q))
  | _ => none

/-- The end of a change that succeeded: a new session for the same user, whose name is logged.
A user name that is no text is stored as its text. -/
def renewSession (host : Host) (http_cookie : Option Str) (ip : Str) (session : Doc)
    (st : Store) : Call Str × FileTree Str :=
  let username := (session.get "username".toList).val
  match Session.create host (tostring (username.orElse (.str "admin".toList))) ip st with
  | (.raised, st) => (.raised, st.tree)
  | (.returned new_sid, st) =>
    let st := match new_sid, Session.getCookie http_cookie with
      | some _, some old_sid => Session.destroy old_sid st
      | _, _ => st
    match concatText username with
    | none => (.raised, st.tree)
    | some _ => (.returned "OK".toList, st.tree)

/-- The part of the handler for a form with its three fields. -/
def changeWith (host : Host) (http_cookie : Option Str) (ip : Str) (session : Doc)
    (st : Store) (current new confirm : Str) : Call Str × FileTree Str :=
  if new ≠ confirm then (.returned "ERROR: New passwords do not match".toList, st.tree)
  else match Password.changePassword host st.tree current new with
    | (.raised, t) => (.raised, t)
    | (.returned (false, msg), t) => (.returned ("ERROR: ".toList ++ msg), t)
    | (.returned (true, _), t) => renewSession host http_cookie ip session { st with tree := t }

/-- The answer to `?changepw=true`. -/
def changepw (host : Host) (t : FileTree Str) (http_cookie : Option Str) (ip : Str)
    (body_data : Option Str) : Call Str × FileTree Str :=
  match Session.validate host http_cookie (.start t) with
  | (.raised, st) => (.raised, st.tree)
  | (.returned none, st) => (.returned "ERROR: Not authenticated".toList, st.tree)
  | (.returned (some session), st) =>
    match body_data.bind parsePost with
    | none => (.returned "ERROR: All fields required".toList, st.tree)
    | some body =>
      match field body "current_password", field body "new_password",
          field body "confirm_password" with
      | some current, some new, some confirm =>
        changeWith host http_cookie ip session st current new confirm
      | _, _, _ => (.returned "ERROR: All fields required".toList, st.tree)

/-! ## Accepted passwords -/

/-- A request that sets a password. -/
inductive Request where
  | setup (host : Host) (t : FileTree Str) (body_data : Option Str)
  | changepw (host : Host) (t : FileTree Str) (http_cookie : Option Str) (ip : Str)
      (body_data : Option Str)

def Request.answer : Request → Call Str
  | .setup host t body_data => .returned (Login.setup host t body_data).1
  | .changepw host t http_cookie ip body_data => (Policy.changepw host t http_cookie ip body_data).1

/-- The field of the password, still encoded. -/
def Request.raw : Request → Option Str
  | .setup _ _ body_data => (body_data.bind parsePost).bind (field · "password")
  | .changepw _ _ _ _ body_data => (body_data.bind parsePost).bind (field · "new_password")

theorem setup_accepted {host : Host} {t : FileTree Str} {body_data : Option Str}
    (h : (Login.setup host t body_data).1 = "OK".toList) :
    ∃ raw, (body_data.bind parsePost).bind (field · "password") = some raw ∧
      Auth.MIN_PASSWORD_LENGTH ≤ raw.length := by
  have hunset : Auth.isConfigured host t = false := by
    by_contra hset
    rw [Login.setup, if_pos (Bool.eq_true_of_not_eq_false hset)] at h
    have herror : "ERROR: Already configured".toList = "OK".toList := h
    exact absurd herror (by decide)
  cases hp : Setup.password body_data with
  | none =>
    obtain ⟨a, hsetup, ha⟩ := Setup.setup_of_no_password hunset hp
    rw [hsetup] at h
    have hreply : a = "OK".toList := h
    rw [hreply] at ha
    exact absurd ha (by decide)
  | some p =>
    refine ⟨p, ?_, not_lt.mp (Setup.setup_of_password hunset hp).2⟩
    obtain ⟨form, hform, hp⟩ := Option.bind_eq_some_iff.mp hp
    obtain ⟨raw, hraw, hp⟩ := Option.bind_eq_some_iff.mp hp
    split_ifs at hp
    rw [hform, Option.bind_some, hraw, hp]

theorem changePassword_length {host : Host} {t t' : FileTree Str} {current new msg : Str}
    (h : Password.changePassword host t current new = (.returned (true, msg), t')) :
    Auth.MIN_PASSWORD_LENGTH ≤ new.length := by
  by_contra hshort
  rw [Password.changePassword.eq_def, if_pos (not_le.mp hshort)] at h
  cases h

theorem changeWith_accepted {host : Host} {http_cookie : Option Str} {ip : Str} {session : Doc}
    {st : Store} {current new confirm : Str}
    (h : (changeWith host http_cookie ip session st current new confirm).1 =
      .returned "OK".toList) : Auth.MIN_PASSWORD_LENGTH ≤ new.length := by
  rw [changeWith] at h
  split at h
  · exact absurd (Call.returned.inj h) (by decide)
  · split at h
    · cases h
    · have herror := Call.returned.inj h
      exact absurd (congrArg List.head? herror) (by simp)
    · rename_i hchange
      exact changePassword_length hchange

theorem changepw_accepted {host : Host} {t : FileTree Str} {http_cookie : Option Str} {ip : Str}
    {body_data : Option Str}
    (h : (changepw host t http_cookie ip body_data).1 = .returned "OK".toList) :
    ∃ raw, (body_data.bind parsePost).bind (field · "new_password") = some raw ∧
      Auth.MIN_PASSWORD_LENGTH ≤ raw.length := by
  rw [changepw] at h
  split at h
  · cases h
  · exact absurd (Call.returned.inj h) (by decide)
  · split at h
    · exact absurd (Call.returned.inj h) (by decide)
    · rename_i body hbody
      split at h
      · rename_i current new confirm _ hnew _
        exact ⟨new, by rw [hbody, Option.bind_some, hnew], changeWith_accepted h⟩
      · exact absurd (Call.returned.inj h) (by decide)

/-- Every request that is answered with OK has a field of eight bytes or more.  The typed
password meets the policy exactly if the field also has room for the escapes, two bytes each,
and for the bytes that continue a character. -/
theorem accepted_policy_iff (r : Request) (h : r.answer = .returned "OK".toList) :
    ∃ raw, r.raw = some raw ∧ Auth.MIN_PASSWORD_LENGTH ≤ raw.length ∧
      (Auth.MIN_PASSWORD_LENGTH ≤ characters (formDecode raw) ↔
        Auth.MIN_PASSWORD_LENGTH + 2 * escapes raw + continuations raw ≤ raw.length) := by
  have hfield : ∃ raw, r.raw = some raw ∧ Auth.MIN_PASSWORD_LENGTH ≤ raw.length := by
    cases r with
    | setup host t body_data => exact setup_accepted (Call.returned.inj h)
    | changepw host t http_cookie ip body_data => exact changepw_accepted h
  obtain ⟨raw, hraw, hlen⟩ := hfield
  have hcount := characters_eq raw
  refine ⟨raw, hraw, hlen, ?_⟩
  omega

/-- A password that the page encodes is counted as it was typed. -/
theorem characters_page (p : List Char) :
    characters (formDecode (encodeURIComponent p)) = p.length := by
  rw [formDecode_encodeURIComponent, characters_utf8]

theorem plain_letters_accepted :
    (Request.setup FirstRun.jsonHost Login.freshTree
        (some "password=correcthorse&confirm=correcthorse".toList)).answer = .returned "OK".toList ∧
      Auth.MIN_PASSWORD_LENGTH ≤ characters (formDecode "correcthorse".toList) := by
  have hok : (Request.setup FirstRun.jsonHost Login.freshTree
      (some "password=correcthorse&confirm=correcthorse".toList)).answer =
        .returned "OK".toList := by
    decide +kernel
  obtain ⟨raw, hraw, -, hpolicy⟩ := accepted_policy_iff _ hok
  have heq : raw = "correcthorse".toList := by
    refine Option.some.inj (hraw.symm.trans ?_)
    decide +kernel
  subst heq
  exact ⟨hok, hpolicy.mpr (by decide +kernel)⟩

/-- Three characters, each written as an escape. -/
theorem short_password_accepted :
    (Request.setup FirstRun.jsonHost Login.freshTree
        (some "password=%41%41%41&confirm=%41%41%41".toList)).answer = .returned "OK".toList ∧
      (Request.setup FirstRun.jsonHost Login.freshTree
        (some "password=%41%41%41&confirm=%41%41%41".toList)).raw = some "%41%41%41".toList ∧
      formDecode "%41%41%41".toList = "AAA".toList ∧ characters "AAA".toList = 3 := by
  decide +kernel

end Policy
end Control
end MkyBoot
