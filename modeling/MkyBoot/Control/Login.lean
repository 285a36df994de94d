import MkyBoot.Control.Form
import MkyBoot.Control.RateLimit

/-!
# Setup and login

The two handlers of `GetPage` that deal in passwords.  Both take the password as
`parse_post` leaves it, still encoded: the setup page's encoding is what gets
hashed and stored, the launcher's encoding is what gets compared.
`login_after_setup_iff` says when the launcher is let in after a setup.
-/

namespace MkyBoot
namespace Control
namespace Login

open Lua Posix Form

/-! ## Handlers -/

/-- The answer to a form whose table has a password and its confirmation. -/
def setupWith (host : Host) (t : FileTree Str) (password : Str) : Str × FileTree Str :=
  match Auth.setupAdmin host t password "admin".toList with
  | (true, _, t') => ("OK".toList, t')
  | (false, msg, t') => ("ERROR: ".toList ++ msg, t')

/-- The answer to `?setup=true`. -/
def setup (host : Host) (t : FileTree Str) (body_data : Option Str) : Str × FileTree Str :=
  let short := ("ERROR: Password must be at least 8 characters".toList, t)
  if Auth.isConfigured host t then ("ERROR: Already configured".toList, t)
  else match body_data.bind parsePost with
    | none => short
    | some body =>
      match field body "password" with
      | none => short
      | some password =>
        if password.length < Auth.MIN_PASSWORD_LENGTH then short
        else if field body "confirm" ≠ some password then
          ("ERROR: Passwords do not match".toList, t)
        else setupWith host t password

def invalidCredentials : Str := "ERROR: Invalid credentials".toList

/-- A failed attempt is counted before the answer. -/
def refuse (host : Host) (t : FileTree Str) (ip : Str) : Call Str × FileTree Str :=
  match RateLimit.recordFailure host t ip with
  | (.raised, t') => (.raised, t')
  | (.returned (), t') => (.returned invalidCredentials, t')

/-- The end of the login of an administrator whose password was right. -/
def openSession (host : Host) (t : FileTree Str) (ip user : Str) : Call Str × FileTree Str :=
  match Session.create host user ip (.start t) with
  | (.raised, st) => (.raised, st.tree)
  | (.returned none, st) => (.returned "ERROR: Session error".toList, st.tree)
  | (.returned (some _), st) => (.returned "OK".toList, RateLimit.clear host st.tree ip)

def loginWith (host : Host) (t : FileTree Str) (ip login pass : Str) : Call Str × FileTree Str :=
  if !Auth.isConfigured host t then
    (.returned "ERROR: No admin configured. Use ?setup=true".toList, t)
  else if .str login ≠ Auth.getUsername host t then refuse host t ip
  else match Auth.checkPassword host t pass login with
    | .raised => (.raised, t)
    | .returned true => openSession host t ip login
    | .returned false => refuse host t ip

/-- The answer to `?login=true`. -/
def login (host : Host) (t : FileTree Str) (ip : Str) (body_data : Option Str) :
    Call Str × FileTree Str :=
  match RateLimit.isLocked host t ip with
  | (.raised, t) => (.raised, t)
  | (.returned true, t) =>
    (.returned "ERROR: Too many failed attempts. Try again later.".toList, t)
  | (.returned false, t) =>
    match body_data.bind parsePost with
    | none => (.returned "ERROR: Invalid request".toList, t)
    | some body =>
      match field body "login", field body "pass" with
      | some login, some pass => loginWith host t ip login pass
      | _, _ => (.returned "ERROR: Invalid request".toList, t)

/-! ## The stored record -/

/-- The record that setup saves for a password as it arrives. -/
def record (host : Host) (password salt : Str) : Doc :=
  Auth.authData host "admin".toList
    (Auth.hashPassword host password salt Auth.HASH_ITERATIONS) salt

/-- A setup that succeeds has saved the record of its password. -/
theorem setupAdmin_ok {host : Host} {t t' : FileTree Str} {password msg : Str}
    (h : Auth.setupAdmin host t password "admin".toList = (true, msg, t')) :
    ∃ salt, Auth.generateSalt host = some salt ∧
      t'.read Auth.file = some (host.encode (record host password salt)) := by
  rw [Auth.setupAdmin] at h
  split at h
  · exact absurd (Prod.ext_iff.mp h).1 Bool.false_ne_true
  split at h
  · exact absurd (Prod.ext_iff.mp h).1 Bool.false_ne_true
  rw [if_neg (by decide), if_neg (by decide)] at h
  cases hsalt : Auth.generateSalt host with
  | none =>
    rw [hsalt] at h
    exact absurd (Prod.ext_iff.mp h).1 Bool.false_ne_true
  | some salt =>
    rw [hsalt] at h
    dsimp only at h
    cases hsave : Auth.saveAuth host t (record host password salt) with
    | none =>
      rw [record] at hsave
      rw [hsave] at h
      exact absurd (Prod.ext_iff.mp h).1 Bool.false_ne_true
    | some saved =>
      have hwrite := hsave
      rw [record] at hsave
      rw [hsave] at h
      have ht : saved = t' := (Prod.ext_iff.mp (Prod.ext_iff.mp h).2).2
      rw [Auth.saveAuth] at hwrite
      split at hwrite
      · exact ⟨salt, rfl, ht ▸ FileTree.read_write hwrite⟩
      · exact absurd hwrite (by simp)

theorem error_ne_ok {a : Str} {t t' : FileTree Str} (ha : a.head? = some 'E') :
    (a, t) ≠ ("OK".toList, t') := by
  intro h
  have hreply : a = "OK".toList := (Prod.ext_iff.mp h).1
  rw [hreply] at ha
  exact absurd ha (by decide)

theorem setup_ok {host : Host} {t t' : FileTree Str} {p : List Char}
    (h : setup host t (some (setupBody p)) = ("OK".toList, t')) :
    ∃ salt, Auth.generateSalt host = some salt ∧
      t'.read Auth.file = some (host.encode (record host (encodeURIComponent p) salt)) := by
  have hpassword : field [("password".toList, encodeURIComponent p),
      ("confirm".toList, encodeURIComponent p)] "password" = some (encodeURIComponent p) := rfl
  have hconfirm : field [("password".toList, encodeURIComponent p),
      ("confirm".toList, encodeURIComponent p)] "confirm" = some (encodeURIComponent p) := rfl
  rw [setup] at h
  split at h
  · exact absurd h (error_ne_ok rfl)
  rw [Option.bind_some, parsePost_setupBody] at h
  dsimp only at h
  rw [hpassword] at h
  dsimp only at h
  split at h
  · exact absurd h (error_ne_ok rfl)
  rw [hconfirm, if_neg (not_not_intro rfl), setupWith] at h
  split at h
  · rename_i ht
    have htree := (Prod.ext_iff.mp h).2
    dsimp only at htree
    exact setupAdmin_ok (htree ▸ ht)
  · exact absurd h (error_ne_ok rfl)

section Stored

variable {host setupHost : Host} {t : FileTree Str} {password salt content : Str}

theorem loadAuth_record (hread : t.read Auth.file = some content)
    (hjson : host.decode content = some (record setupHost password salt)) :
    Auth.loadAuth host t = some (record setupHost password salt) := by
  rw [Auth.loadAuth, hread, Option.bind_some, hjson]
  rfl

theorem isConfigured_record
    (hload : Auth.loadAuth host t = some (record setupHost password salt)) :
    Auth.isConfigured host t = true := by
  rw [Auth.isConfigured, hload]
  rfl

theorem getUsername_record
    (hload : Auth.loadAuth host t = some (record setupHost password salt)) :
    Auth.getUsername host t = .str "admin".toList := by
  rw [Auth.getUsername, hload]
  rfl

theorem iterations_record (setupHost : Host) (password salt : Str) :
    Auth.iterations (record setupHost password salt) = some Auth.HASH_ITERATIONS := rfl

/-- Against the stored record, the check compares the two hashes. -/
theorem checkPassword_record
    (hload : Auth.loadAuth host t = some (record setupHost password salt)) (pass : Str) :
    Auth.checkPassword host t pass "admin".toList =
      .returned (Auth.verifyPassword host pass
        (Auth.hashPassword setupHost password salt Auth.HASH_ITERATIONS) salt
        Auth.HASH_ITERATIONS) := by
  have hhash : (((record setupHost password salt).get "admin".toList).get "hash".toList).val =
    .str (Auth.hashPassword setupHost password salt Auth.HASH_ITERATIONS) := rfl
  have hsalt : (((record setupHost password salt).get "admin".toList).get "salt".toList).val =
    .str salt := rfl
  have huser : Auth.storedUser (record setupHost password salt) = .str "admin".toList := rfl
  rw [Auth.checkPassword, isConfigured_record hload, hload]
  dsimp only
  rw [hhash, hsalt, huser, iterations_record]
  rfl

end Stored

/-! ## The launcher after a setup -/

theorem refuse_ne_ok (host : Host) (t : FileTree Str) (ip : Str) :
    (refuse host t ip).1 ≠ .returned "OK".toList := by
  rw [refuse]
  split
  · exact fun h => by cases h
  · exact fun h => absurd (Call.returned.inj h) (by decide)

theorem openSession_ok_iff (host : Host) (t : FileTree Str) (ip user : Str) :
    (openSession host t ip user).1 = .returned "OK".toList ↔
      t.opens Session.dir = true ∧ (Session.generateId host).isSome = true := by
  have hcreate := Session.create_eq_some_iff host user ip (.start t)
  change _ ↔ t.opens Session.dir = true ∧ _ at hcreate
  rw [← hcreate, openSession]
  cases h : Session.create host user ip (.start t) with
  | mk result st =>
    match result with
    | .raised => exact ⟨fun h => (by cases h), fun ⟨_, h⟩ => (by cases h)⟩
    | .returned none =>
      exact ⟨fun h => absurd (Call.returned.inj h) (by decide), fun ⟨_, h⟩ => (by cases h)⟩
    | .returned (some sid) => exact ⟨fun _ => ⟨sid, rfl⟩, fun _ => rfl⟩

/-- Against the stored record, the hash of the password decides. -/
theorem loginWith_record {host setupHost : Host} {t : FileTree Str} {password salt : Str}
    (hload : Auth.loadAuth host t = some (record setupHost password salt)) (ip pass : Str) :
    loginWith host t ip "admin".toList pass =
      if Auth.hashPassword host pass salt Auth.HASH_ITERATIONS =
        Auth.hashPassword setupHost password salt Auth.HASH_ITERATIONS
      then openSession host t ip "admin".toList else refuse host t ip := by
  rw [loginWith, isConfigured_record hload, getUsername_record hload,
    checkPassword_record hload, if_neg (by decide), if_neg (not_not_intro rfl)]
  split
  · rename_i h
    cases h
  · rename_i h
    rw [if_pos ((Auth.verifyPassword_iff _ _ _ _ _).mp (Call.returned.inj h))]
  · rename_i h
    rw [if_neg]
    rw [← Auth.verifyPassword_iff, Call.returned.inj h]
    exact Bool.false_ne_true

theorem loginWith_record_ok_iff {host setupHost : Host} {t : FileTree Str} {password salt : Str}
    (hload : Auth.loadAuth host t = some (record setupHost password salt)) (ip pass : Str) :
    (loginWith host t ip "admin".toList pass).1 = .returned "OK".toList ↔
      Auth.hashPassword host pass salt Auth.HASH_ITERATIONS =
          Auth.hashPassword setupHost password salt Auth.HASH_ITERATIONS ∧
        t.opens Session.dir = true ∧ (Session.generateId host).isSome = true := by
  rw [loginWith_record hload]
  split
  · rename_i h
    exact (openSession_ok_iff host t ip _).trans (and_iff_right h).symm
  · rename_i h
    exact ⟨fun hok => absurd hok (refuse_ne_ok host t ip), fun hok => absurd hok.1 h⟩

/-- The launcher's request reaches the password check when its address is not
locked. -/
theorem login_loginBody {host : Host} {t t' : FileTree Str} {ip : Str}
    (h : RateLimit.isLocked host t ip = (.returned false, t')) (p : List Char) :
    login host t ip (some (loginBody p)) =
      loginWith host t' ip "admin".toList (queryEscape p) := by
  have huser : field [("login".toList, "admin".toList), ("pass".toList, queryEscape p)] "login" =
    some "admin".toList := rfl
  have hpass : field [("login".toList, "admin".toList), ("pass".toList, queryEscape p)] "pass" =
    some (queryEscape p) := rfl
  rw [login, h]
  dsimp only
  rw [Option.bind_some, parsePost_loginBody]
  dsimp only
  rw [huser, hpass]

theorem login_loginBody_ok_iff (host : Host) (t : FileTree Str) (ip : Str) (p : List Char) :
    (login host t ip (some (loginBody p))).1 = .returned "OK".toList ↔
      (RateLimit.isLocked host t ip).1 = .returned false ∧
        (loginWith host (RateLimit.isLocked host t ip).2 ip "admin".toList (queryEscape p)).1 =
          .returned "OK".toList := by
  cases h : RateLimit.isLocked host t ip with
  | mk result t' =>
    match result with
    | .raised =>
      rw [login, h]
      exact ⟨fun h => (by cases h), fun h => absurd h.1 (by simp)⟩
    | .returned true =>
      rw [login, h]
      exact ⟨fun h => absurd (Call.returned.inj h) (by decide), fun h => absurd h.1 (by simp)⟩
    | .returned false =>
      rw [login_loginBody h]
      exact (and_iff_right rfl).symm

theorem hashPassword_congr {host host' : Host} (h : host.sha1_bin = host'.sha1_bin) :
    Auth.hashPassword host = Auth.hashPassword host' := by
  have hround : Auth.round host = Auth.round host' := by
    funext s
    rw [Auth.round, Auth.round, h]
  funext password salt iters
  rw [Auth.hashPassword, Auth.hashPassword, hround]

/-- The two encodings of a password have one hash under the salt of the setup. -/
def Collide (host : Host) (p : List Char) : Prop :=
  ∃ salt, Auth.generateSalt host = some salt ∧
    Auth.hashPassword host (queryEscape p) salt Auth.HASH_ITERATIONS =
      Auth.hashPassword host (encodeURIComponent p) salt Auth.HASH_ITERATIONS

/-- After a setup the launcher is let in with the same password exactly when the
password has none of the characters the encoders write differently, or the two
encodings collide, and nothing but the password stands in the way. -/
theorem login_after_setup_iff {setupHost host : Host} {t t' t'' : FileTree Str} {p : List Char}
    (hsha1 : host.sha1_bin = setupHost.sha1_bin)
    (hjson : ∀ salt, Auth.generateSalt setupHost = some salt →
      host.decode (setupHost.encode (record setupHost (encodeURIComponent p) salt)) =
        some (record setupHost (encodeURIComponent p) salt))
    (hsetup : setup setupHost t (some (setupBody p)) = ("OK".toList, t'))
    (hsame : t''.read Auth.file = t'.read Auth.file) (ip : Str) :
    (login host t'' ip (some (loginBody p))).1 = .returned "OK".toList ↔
      ((∀ c ∈ p, c ∉ differing) ∨ Collide setupHost p) ∧
        (RateLimit.isLocked host t'' ip).1 = .returned false ∧
        t''.opens Session.dir = true ∧ (Session.generateId host).isSome = true := by
  obtain ⟨salt, hsalt, hread⟩ := setup_ok hsetup
  have hload : Auth.loadAuth host (RateLimit.isLocked host t'' ip).2 =
      some (record setupHost (encodeURIComponent p) salt) := by
    refine loadAuth_record ?_ (hjson salt hsalt)
    rw [RateLimit.isLocked_read_auth, hsame, hread]
  have hmatch : Auth.hashPassword host (queryEscape p) salt Auth.HASH_ITERATIONS =
      Auth.hashPassword setupHost (encodeURIComponent p) salt Auth.HASH_ITERATIONS ↔
      (∀ c ∈ p, c ∉ differing) ∨ Collide setupHost p := by
    rw [hashPassword_congr hsha1, ← encodings_eq_iff]
    constructor
    · exact fun h => Or.inr ⟨salt, hsalt, h⟩
    · rintro (h | ⟨salt', hsalt', h⟩)
      · rw [h]
      · rw [hsalt] at hsalt'
        exact Option.some.inj hsalt' ▸ h
  rw [login_loginBody_ok_iff, loginWith_record_ok_iff hload, hmatch, RateLimit.isLocked_opens]
  exact and_left_comm

/-! A fresh server.  Its digest tells texts with a plus sign from others and then
stands still. -/

def freshHost : Host where
  now := 1000
  decode := Doc.decode
  encode := Doc.encode
  sha1_bin := fun s => if '+' ∈ s ∨ s = "61".toList then ['a'] else ['b']
  encode_base64 := fun _ => "c2lk".toList
  urandom := fun n => some (List.replicate n '0')
  date := "2024-01-01".toList
  saves := true

def freshTree : FileTree Str where
  nodes := ⟨[⟨["srv".toList], .dir⟩, ⟨["srv".toList, "mkyboot".toList], .dir⟩,
    ⟨["srv".toList, "mkyboot".toList, "cfg".toList], .dir⟩, ⟨Session.dirPath, .dir⟩],
    by rw [List.NodupKeys]; decide⟩
  closed := by decide

def launcherAddress : Str := "10.0.0.5".toList

def afterSetup (p : List Char) : FileTree Str :=
  (setup freshHost freshTree (some (setupBody p))).2

theorem plain_password_accepted :
    (setup freshHost freshTree (some (setupBody "password".toList))).1 =
        "OK".toList ∧
      (login freshHost (afterSetup "password".toList) launcherAddress
        (some (loginBody "password".toList))).1 = .returned "OK".toList := by
  have hsetup : (setup freshHost freshTree
      (some (setupBody "password".toList))).1 = "OK".toList := by decide +kernel
  refine ⟨hsetup, ?_⟩
  refine (login_after_setup_iff rfl (fun salt _ => Auth.decode_encode_authData freshHost _ _ salt)
    (Prod.ext hsetup rfl) rfl
    launcherAddress).mpr ⟨Or.inl (by decide), ?_, ?_, ?_⟩
  · rfl
  · decide +kernel
  · decide +kernel

theorem iterate_of_fixed {α : Type} {f : α → α} {x y : α} (hx : f x = y) (hy : f y = y) (n : ℕ) :
    f^[n + 1] x = y := by
  rw [Function.iterate_succ_apply, hx, Function.iterate_fixed hy]

/-- The digest of the fresh server after all rounds. -/
theorem freshHost_hash (pass salt : Str) :
    Auth.hashPassword freshHost pass salt Auth.HASH_ITERATIONS =
      if '+' ∈ salt ++ ":".toList ++ pass ∨ salt ++ ":".toList ++ pass = "61".toList
      then "61".toList else "62".toList := by
  have hround (s : Str) : Auth.round freshHost s =
      if '+' ∈ s ∨ s = "61".toList then "61".toList else "62".toList := by
    change hexText (if _ then _ else _) = _
    split <;> rfl
  refine iterate_of_fixed (n := 249999) (hround _) ?_
  rw [hround]
  split
  · rw [if_pos (by decide)]
  · rw [if_neg (by decide)]

/-- The setup page stores `correct%20horse`, the launcher sends `correct+horse`. -/
def blankPassword : List Char := "correct horse".toList

theorem blank_password_refused :
    8 ≤ blankPassword.length ∧
      (setup freshHost freshTree (some (setupBody blankPassword))).1 =
        "OK".toList ∧
      (login freshHost (afterSetup blankPassword) launcherAddress
        (some (loginBody blankPassword))).1 = .returned invalidCredentials := by
  have hsetup : (setup freshHost freshTree
      (some (setupBody blankPassword))).1 = "OK".toList := by decide +kernel
  have hopen : RateLimit.isLocked freshHost (afterSetup blankPassword)
      launcherAddress = (.returned false, afterSetup blankPassword) := rfl
  have hrefuse : (refuse freshHost (afterSetup blankPassword)
      launcherAddress).1 = .returned invalidCredentials := rfl
  refine ⟨by decide, hsetup, ?_⟩
  have hanswer : setup freshHost freshTree (some (setupBody blankPassword)) =
      ("OK".toList, afterSetup blankPassword) := Prod.ext hsetup rfl
  obtain ⟨salt, hsalt, hread⟩ := setup_ok hanswer
  have hjson : freshHost.decode (freshHost.encode
      (record freshHost (encodeURIComponent blankPassword) salt)) =
        some (record freshHost (encodeURIComponent blankPassword) salt) :=
    Auth.decode_encode_authData freshHost _ _ salt
  have hload := loadAuth_record hread hjson
  have hhash : salt = hexText (List.replicate 64 '0') := (Option.some.inj hsalt).symm
  rw [login_loginBody hopen, loginWith_record hload, freshHost_hash, freshHost_hash, hhash,
    if_neg (by decide +kernel), hrefuse]

end Login
end Control
end MkyBoot
