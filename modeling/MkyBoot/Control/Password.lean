import MkyBoot.Control.Setup

/-!
# Changing the password

`auth.change_password` checks the current password with the number of rounds that the
record names, hashes the new one with the number of rounds of the module, and writes
hash and salt into the record that was loaded.  The number in the record stays.
`change_password_iff` says what is left of the new password after that: it is accepted
exactly if the two numbers of rounds give it one hash.
-/

namespace MkyBoot
namespace Control
namespace Password

open Lua Posix Auth

/-- `d[k] = v` for a table `d`. -/
def put : Doc → Str → Doc → Doc
  | .table fields, k, v => .table (RateLimit.set fields k v)
  | .leaf u, _, _ => .leaf u

def isTable : Doc → Bool
  | .table _ => true
  | .leaf _ => false

/-- The record with the new hash and salt in it. -/
def updated (host : Host) (data : Doc) (hash salt : Str) : Doc :=
  let admin := data.get "admin".toList
  let admin := put admin "hash".toList (.leaf (.str hash))
  let admin := put admin "salt".toList (.leaf (.str salt))
  put data "admin".toList (put admin "updated".toList (.leaf (.str host.date)))

/-- `auth.change_password` -/
def changePassword (host : Host) (t : FileTree Str) (current new : Str) :
    Call (Bool × Str) × FileTree Str :=
  if new.length < MIN_PASSWORD_LENGTH then
    (.returned (false, "new password must be at least 8 characters".toList), t)
  else if !isConfigured host t then (.returned (false, "not configured".toList), t)
  else match loadAuth host t with
    -- a configured record loads, so this is not reached
    | none => (.returned (false, "no auth file".toList), t)
    | some data =>
      let admin := data.get "admin".toList
      match RateLimit.index admin "hash".toList, RateLimit.index admin "salt".toList with
      | some (.leaf (.str hash)), some (.leaf (.str salt)) =>
        match iterations data with
        | none => (.raised, t)
        | some iters =>
          if !verifyPassword host current hash salt iters then
            (.returned (false, "incorrect current password".toList), t)
          else match generateSalt host with
            | none => (.returned (false, "failed to generate salt".toList), t)
            | some newSalt =>
              let newHash := hashPassword host new newSalt HASH_ITERATIONS
              match saveAuth host t (updated host data newHash newSalt) with
              | none => (.returned (false, "atomic write failed".toList), t)
              | some t' => (.returned (true, "OK".toList), t')
      | some _, some _ => (.returned (false, "incorrect current password".toList), t)
      | _, _ => (.raised, t)

/-- `auth.check_password` without its message.  The user name may be missing. -/
def checkPassword (host : Host) (t : FileTree Str) (password : Str) (username : Option Str) :
    Call Bool :=
  if !isConfigured host t then .returned false
  else match loadAuth host t with
    | none => .returned false
    | some data =>
      match ((data.get "admin".toList).get "hash".toList).val,
          ((data.get "admin".toList).get "salt".toList).val with
      | .str hash, .str salt =>
        if ∃ user ∈ username, .str user ≠ storedUser data then .returned false
        else match iterations data with
          | none => .raised
          | some iters => .returned (verifyPassword host password hash salt iters)
      | _, _ => .returned false

/-- With a user name this is the check of a login. -/
theorem checkPassword_some (host : Host) (t : FileTree Str) (password user : Str) :
    checkPassword host t password (some user) = Auth.checkPassword host t password user := by
  have h := checkPassword.eq_1 host t password (some user)
  simp only [Option.mem_def, Option.some.injEq, exists_eq_left'] at h
  exact h

/-! ## What the record holds afterwards -/

theorem get_put_self {d : Doc} (h : isTable d = true) (k : Str) (v : Doc) :
    (put d k v).get k = v := by
  cases d with
  | leaf u => exact absurd h Bool.false_ne_true
  | table fields => exact RateLimit.get_set_self fields k v

theorem get_put_of_ne (d : Doc) {k k' : Str} (h : k' ≠ k) (v : Doc) :
    (put d k v).get k' = d.get k' := by
  cases d with
  | leaf u => rfl
  | table fields => exact RateLimit.get_set_of_ne fields h v

theorem isTable_put (d : Doc) (k : Str) (v : Doc) : isTable (put d k v) = isTable d := by
  cases d with
  | leaf u => rfl
  | table fields => rfl

section Updated

variable {data : Doc} (hdata : isTable data = true)
  (hadmin : isTable (data.get "admin".toList) = true) (host : Host) (hash salt : Str)

include hdata in
theorem updated_admin : (updated host data hash salt).get "admin".toList =
    put (put (put (data.get "admin".toList) "hash".toList (.leaf (.str hash))) "salt".toList
      (.leaf (.str salt))) "updated".toList (.leaf (.str host.date)) :=
  get_put_self hdata _ _

include hdata hadmin in
theorem updated_hash :
    ((updated host data hash salt).get "admin".toList).get "hash".toList = .leaf (.str hash) := by
  rw [updated_admin hdata, get_put_of_ne _ (by decide), get_put_of_ne _ (by decide),
    get_put_self hadmin]

include hdata hadmin in
theorem updated_salt :
    ((updated host data hash salt).get "admin".toList).get "salt".toList = .leaf (.str salt) := by
  rw [updated_admin hdata, get_put_of_ne _ (by decide),
    get_put_self ((isTable_put _ _ _).trans hadmin)]

include hdata hadmin in
theorem updated_configured :
    isNil ((updated host data hash salt).get "admin".toList) = false := by
  have htable : isTable ((updated host data hash salt).get "admin".toList) = true := by
    rw [updated_admin hdata, isTable_put, isTable_put, isTable_put, hadmin]
  cases hget : (updated host data hash salt).get "admin".toList with
  | table fields => rfl
  | leaf u =>
    rw [hget] at htable
    exact absurd htable Bool.false_ne_true

/-- The number of rounds is not rewritten. -/
theorem updated_iterations : iterations (updated host data hash salt) = iterations data := by
  rw [iterations, iterations, updated, get_put_of_ne _ (by decide)]

end Updated

/-! ## What a change leaves -/

theorem isTable_of_loadAuth {host : Host} {t : FileTree Str} {data : Doc}
    (h : loadAuth host t = some data) : isTable data = true := by
  rw [loadAuth] at h
  split at h
  · rw [← Option.some.inj h]
    rfl
  · cases h

theorem loadAuth_of_table {host : Host} {t : FileTree Str} {data : Doc}
    (hread : (t.read Auth.file).bind host.decode = some data) (h : isTable data = true) :
    loadAuth host t = some data := by
  rw [loadAuth, hread]
  cases data with
  | table fields => rfl
  | leaf u => exact absurd h Bool.false_ne_true

theorem isTable_of_get {d : Doc} {k : Str} {v : Str}
    (h : RateLimit.index d k = some (.leaf (.str v))) :
    isTable d = true := by
  cases d with
  | table fields => rfl
  | leaf u => cases u <;> simp [RateLimit.index] at h

/-- A change that returns true has saved the updated record. -/
theorem changePassword_ok {host : Host} {t t' : FileTree Str} {current new msg : Str} {data : Doc}
    (hload : loadAuth host t = some data)
    (h : changePassword host t current new = (.returned (true, msg), t')) :
    isTable (data.get "admin".toList) = true ∧ ∃ salt, generateSalt host = some salt ∧
      saveAuth host t (updated host data (hashPassword host new salt HASH_ITERATIONS) salt) =
        some t' := by
  rw [changePassword, hload] at h
  dsimp only at h
  split at h
  · cases h
  split at h
  · cases h
  split at h
  · rename_i hash salt hhash hsalt
    refine ⟨isTable_of_get hhash, ?_⟩
    split at h
    · cases h
    split at h
    · cases h
    split at h
    · cases h
    rename_i newSalt hnew
    split at h
    · cases h
    · rename_i saved hsave
      exact ⟨newSalt, hnew, hsave.trans (congrArg some (Prod.mk.inj h).2)⟩
  · cases h
  · cases h

/-- A check against a record with a hash and a salt. -/
theorem checkPassword_of_load {host : Host} {t : FileTree Str} {data : Doc}
    {hash salt : Str} {n : ℕ}
    (hload : loadAuth host t = some data) (hadmin : isNil (data.get "admin".toList) = false)
    (hhash : (data.get "admin".toList).get "hash".toList = .leaf (.str hash))
    (hsalt : (data.get "admin".toList).get "salt".toList = .leaf (.str salt))
    (hiters : iterations data = some n) (password : Str) :
    checkPassword host t password none = .returned (verifyPassword host password hash salt n) := by
  have hconf : isConfigured host t = true := by
    rw [isConfigured, hload]
    dsimp only
    rw [hadmin]
    rfl
  rw [checkPassword, hconf, hload, if_neg (by decide)]
  dsimp only
  rw [hhash, hsalt]
  dsimp only [Doc.val]
  rw [if_neg (by simp), hiters]

section After

variable {host later : Host} {t t' t'' : FileTree Str} {current new msg salt : Str} {data : Doc}
  {n : ℕ}

/-- A check after a change compares with the default number of rounds for the new
password and the stored number for the one that is checked. -/
theorem checkPassword_after (hload : loadAuth host t = some data)
    (hiters : iterations data = some n) (hsalt : generateSalt host = some salt)
    (hchange : changePassword host t current new = (.returned (true, msg), t'))
    (hsame : t''.read Auth.file = t'.read Auth.file)
    (hjson : later.decode (host.encode
      (updated host data (hashPassword host new salt HASH_ITERATIONS) salt)) =
        some (updated host data (hashPassword host new salt HASH_ITERATIONS) salt)) (x : Str) :
    checkPassword later t'' x none =
      .returned (verifyPassword later x (hashPassword host new salt HASH_ITERATIONS) salt n) := by
  obtain ⟨hadmin, salt', hsalt', hsave⟩ := changePassword_ok hload hchange
  obtain rfl : salt = salt' := Option.some.inj (hsalt.symm.trans hsalt')
  have hdata := isTable_of_loadAuth hload
  have hloaded : loadAuth later t'' =
      some (updated host data (hashPassword host new salt HASH_ITERATIONS) salt) := by
    refine loadAuth_of_table ?_ ((isTable_put _ _ _).trans hdata)
    rw [hsame, Setup.read_saveAuth hsave, Option.bind_some, hjson]
  exact checkPassword_of_load hloaded (updated_configured hdata hadmin _ _ _)
    (updated_hash hdata hadmin _ _ _) (updated_salt hdata hadmin _ _ _)
    ((updated_iterations _ _ _).trans hiters) x

/-- After a change that returns true, the new password is accepted and every password
with another hash refused, exactly if the stored number of rounds gives the new password
the hash that the default number gives it. -/
theorem change_password_iff (hload : loadAuth host t = some data)
    (hiters : iterations data = some n) (hsalt : generateSalt host = some salt)
    (hchange : changePassword host t current new = (.returned (true, msg), t'))
    (hsame : t''.read Auth.file = t'.read Auth.file) (hsha1 : later.sha1_bin = host.sha1_bin)
    (hjson : later.decode (host.encode
      (updated host data (hashPassword host new salt HASH_ITERATIONS) salt)) =
        some (updated host data (hashPassword host new salt HASH_ITERATIONS) salt)) :
    (checkPassword later t'' new none = .returned true ∧
      ∀ x, hashPassword later x salt n ≠ hashPassword later new salt n →
        checkPassword later t'' x none = .returned false) ↔
      hashPassword host new salt n = hashPassword host new salt HASH_ITERATIONS := by
  have hcheck := checkPassword_after hload hiters hsalt hchange hsame hjson
  rw [Login.hashPassword_congr hsha1, hcheck, Call.returned.injEq, verifyPassword_iff,
    Login.hashPassword_congr hsha1]
  refine and_iff_left_of_imp fun hequal x hx => ?_
  rw [hcheck, Call.returned.injEq, ← Bool.not_eq_true, verifyPassword_iff,
    Login.hashPassword_congr hsha1, ← hequal]
  exact hx

end After

/-! A record that names its own number of rounds, and a digest that goes back and forth
between two values. -/

def clerk (n : ℕ) (hash : Str) : Doc :=
  .table [("version".toList, .leaf (.num VERSION)),
    ("algorithm".toList, .leaf (.str "iter-sha1".toList)), ("iterations".toList, .leaf (.num n)),
    ("salt_bytes".toList, .leaf (.num SALT_BYTES)),
    ("admin".toList, .table [("username".toList, .leaf (.str "admin".toList)),
      ("hash".toList, .leaf (.str hash)), ("salt".toList, .leaf (.str "00".toList)),
      ("created".toList, .leaf (.str "2024-01-01".toList))])]

/-- The two values of the digest, in hex. -/
def ping : Str := hexText (List.replicate 20 'a')
def pong : Str := hexText (List.replicate 20 'b')

def clerkHost : Host where
  now := 1000
  decode := Doc.decode
  encode := Doc.encode
  sha1_bin := fun s => if s = ping then List.replicate 20 'b' else List.replicate 20 'a'
  encode_base64 := id
  urandom := fun n => some (List.replicate n '0')
  date := "2024-01-02".toList
  saves := true

def clerkTree (n : ℕ) (hash : Str) : FileTree Str :=
  (Login.freshTree.write Auth.file (Doc.encode (clerk n hash))).getD Login.freshTree

def clerkSalt : Str := hexText (List.replicate 64 '0')

theorem clerk_salt : generateSalt clerkHost = some clerkSalt := rfl

theorem clerk_round (s : Str) : round clerkHost s = if s = ping then pong else ping := by
  show hexText (if _ then _ else _) = _
  split
  · rfl
  · rfl

theorem clerk_hash_one {salt password : Str} (h : ':' ∈ salt ++ ":".toList ++ password) :
    hashPassword clerkHost password salt 1 = ping := by
  have hne : salt ++ ":".toList ++ password ≠ ping := by
    intro heq
    rw [heq] at h
    exact absurd h (by decide)
  show round clerkHost (salt ++ ":".toList ++ password) = ping
  rw [clerk_round, if_neg hne]

/-- The digest is at the other value after an even number of rounds. -/
theorem clerk_hash_default {salt password : Str} (h : ':' ∈ salt ++ ":".toList ++ password) :
    hashPassword clerkHost password salt HASH_ITERATIONS = pong := by
  have htwo (s : Str) (hs : s ≠ ping) : (round clerkHost)^[2] s = pong := by
    show round clerkHost (round clerkHost s) = pong
    rw [clerk_round s, if_neg hs, clerk_round, if_pos rfl]
  have hne : salt ++ ":".toList ++ password ≠ ping := by
    intro heq
    rw [heq] at h
    exact absurd h (by decide)
  have hrounds : HASH_ITERATIONS = 2 * (124999 + 1) := rfl
  rw [hashPassword, hrounds, Function.iterate_mul]
  exact Login.iterate_of_fixed (htwo _ hne) (htwo _ (by decide)) 124999

section Clerk

variable {n : ℕ} {hash : Str}

/-- What the change saves. -/
def clerkRecord (n : ℕ) (hash : Str) : Doc :=
  updated clerkHost (clerk n hash)
    (hashPassword clerkHost "password2".toList clerkSalt HASH_ITERATIONS) clerkSalt

def clerkSaved (n : ℕ) (hash : Str) : FileTree Str :=
  ((clerkTree n hash).write Auth.file (Doc.encode (clerkRecord n hash))).getD (clerkTree n hash)

theorem clerk_writable (hn : Doc.writableVal (.num n) = true) : (clerk n hash).writable = true := by
  have hversion : Doc.writableVal (.num VERSION) = true := by decide +kernel
  have hsalt : Doc.writableVal (.num SALT_BYTES) = true := by decide +kernel
  simp only [clerk, Doc.writable, Doc.writableFields, hversion, hsalt, hn]
  rfl

theorem clerk_load (hn : Doc.writableVal (.num n) = true) :
    loadAuth clerkHost (clerkTree n hash) = some (clerk n hash) := by
  have hwrite : (Login.freshTree.write Auth.file (Doc.encode (clerk n hash))).isSome = true := rfl
  obtain ⟨t, ht⟩ := Option.isSome_iff_exists.mp hwrite
  refine loadAuth_of_table ?_ rfl
  rw [clerkTree, ht, Option.getD_some, FileTree.read_write ht]
  exact Doc.decode_encode (clerk_writable hn)

theorem clerk_iterations : iterations (clerk n hash) = some n := by
  show some ⌊(n : ℚ)⌋.toNat = some n
  rw [Int.floor_natCast, Int.toNat_natCast]

theorem clerk_json (hn : Doc.writableVal (.num n) = true) :
    Doc.decode (Doc.encode (clerkRecord n hash)) = some (clerkRecord n hash) := by
  have hsame (new : Str) :
      (updated clerkHost (clerk n hash) new clerkSalt).writable = (clerk n hash).writable := rfl
  exact Doc.decode_encode ((hsame _).trans (clerk_writable hn))

theorem clerk_changes (hn : Doc.writableVal (.num n) = true)
    (h : hashPassword clerkHost "password1".toList "00".toList n = hash) :
    changePassword clerkHost (clerkTree n hash) "password1".toList "password2".toList =
      (.returned (true, "OK".toList), clerkSaved n hash) := by
  have hconf : isConfigured clerkHost (clerkTree n hash) = true := by
    rw [isConfigured, clerk_load hn]
    rfl
  have hverify : verifyPassword clerkHost "password1".toList hash "00".toList n = true :=
    (verifyPassword_iff _ _ _ _ _).mpr h
  have hsave : saveAuth clerkHost (clerkTree n hash) (clerkRecord n hash) =
      some (clerkSaved n hash) := by
    have hwrite : ((clerkTree n hash).write Auth.file
      (Doc.encode (clerkRecord n hash))).isSome = true := rfl
    show (clerkTree n hash).write Auth.file (Doc.encode (clerkRecord n hash)) = _
    rw [clerkSaved, ← Option.some_get hwrite]
    rfl
  have hindex : RateLimit.index ((clerk n hash).get "admin".toList) "hash".toList =
    some (.leaf (.str hash)) := rfl
  have hindex' : RateLimit.index ((clerk n hash).get "admin".toList) "salt".toList =
    some (.leaf (.str "00".toList)) := rfl
  rw [changePassword, if_neg (by decide), hconf, if_neg (by decide), clerk_load hn]
  dsimp only
  rw [hindex, hindex']
  dsimp only
  rw [clerk_iterations]
  dsimp only
  rw [hverify, if_neg (by decide), clerk_salt]
  dsimp only
  rw [clerkRecord] at hsave
  rw [hsave]

end Clerk

/-- With the default number of rounds in the record the new password is accepted. -/
theorem default_rounds_accepted :
    changePassword clerkHost (clerkTree 250000 pong) "password1".toList "password2".toList =
        (.returned (true, "OK".toList), clerkSaved 250000 pong) ∧
      checkPassword clerkHost (clerkSaved 250000 pong) "password2".toList none =
        .returned true := by
  have hn : Doc.writableVal (.num (250000 : ℕ)) = true := by decide +kernel
  have hchange := clerk_changes hn (clerk_hash_default (by decide))
  exact ⟨hchange, ((change_password_iff (clerk_load hn) clerk_iterations clerk_salt
    hchange rfl rfl (clerk_json hn)).mpr rfl).1⟩

/-- With one round in the record the change is answered with success, and the new password
is refused afterwards. -/
theorem one_round_locked_out :
    changePassword clerkHost (clerkTree 1 ping) "password1".toList "password2".toList =
        (.returned (true, "OK".toList), clerkSaved 1 ping) ∧
      checkPassword clerkHost (clerkSaved 1 ping) "password2".toList none = .returned false := by
  have hn : Doc.writableVal (.num (1 : ℕ)) = true := by decide +kernel
  have hchange := clerk_changes hn (clerk_hash_one (by decide))
  refine ⟨hchange, ?_⟩
  rw [checkPassword_after (clerk_load hn) clerk_iterations clerk_salt hchange rfl
    (clerk_json hn), Call.returned.injEq, ← Bool.not_eq_true, verifyPassword_iff,
    clerk_hash_one (by decide), clerk_hash_default (by decide)]
  decide

end Password
end Control
end MkyBoot
