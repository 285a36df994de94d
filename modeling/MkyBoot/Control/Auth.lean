import MkyBoot.Control.Host
import MkyBoot.Posix.Tree
import MkyBoot.Lua.Json

/-!
# The administrator's credential

`mkyboot.inc.auth` keeps one record in `auth.json`: a salt and the hex SHA-1 of
`salt:password`, hashed again for a stored number of rounds.  Functions that
return a flag and a message return both here.
-/

namespace MkyBoot
namespace Control
namespace Auth

open Lua Posix

def file : Str := "/srv/mkyboot/cfg/auth.json".toList

def VERSION : ℕ := 2
def HASH_ITERATIONS : ℕ := 250000
def SALT_BYTES : ℕ := 64
def MIN_PASSWORD_LENGTH : ℕ := 8

def generateSalt (host : Host) : Option Str := Random.hex host SALT_BYTES

/-- One round of `hash_password`. -/
def round (host : Host) (hash : Str) : Str := hexText (host.sha1_bin hash)

def hashPassword (host : Host) (password salt : Str) (iters : ℕ) : Str :=
  (round host)^[iters] (salt ++ ":".toList ++ password)

/-- The accumulated difference of two byte strings of one length. -/
def difference (a b : Str) : ℕ :=
  (a.zip b).foldl (fun result p => result ||| (p.1.toNat ^^^ p.2.toNat)) 0

def verifyPassword (host : Host) (password storedHash storedSalt : Str) (iters : ℕ) : Bool :=
  let computed := hashPassword host password storedSalt iters
  computed.length = storedHash.length ∧ difference computed storedHash = 0

/-- `auth.load_auth` without its message: the decoded table, if there is one. -/
def loadAuth (host : Host) (t : FileTree Str) : Option Doc :=
  match (t.read file).bind host.decode with
  | some (.table fields) => some (.table fields)
  | _ => none

/-- `auth.save_auth`: a temporary file renamed over `auth.json`. -/
def saveAuth (host : Host) (t : FileTree Str) (data : Doc) : Option (FileTree Str) :=
  if host.saves then t.write file (host.encode data) else none

def isNil : Doc → Bool
  | .leaf .nil => true
  | _ => false

def isConfigured (host : Host) (t : FileTree Str) : Bool :=
  match loadAuth host t with
  | some data => !isNil (data.get "admin".toList)
  | none => false

/-- The characters `setup_admin` refuses in a user name. -/
def badUserChars : List Char := [';', '|', '&', '`', '$', '!', '%', ']']

def authData (host : Host) (user hash salt : Str) : Doc :=
  .table [("version".toList, .leaf (.num VERSION)),
    ("algorithm".toList, .leaf (.str "iter-sha1".toList)),
    ("iterations".toList, .leaf (.num HASH_ITERATIONS)),
    ("salt_bytes".toList, .leaf (.num SALT_BYTES)),
    ("admin".toList, .table [("username".toList, .leaf (.str user)),
      ("hash".toList, .leaf (.str hash)), ("salt".toList, .leaf (.str salt)),
      ("created".toList, .leaf (.str host.date))])]

def setupAdmin (host : Host) (t : FileTree Str) (password user : Str) :
    Bool × Str × FileTree Str :=
  if password.length < MIN_PASSWORD_LENGTH then
    (false, "password must be at least 8 characters".toList, t)
  else if isConfigured host t then (false, "already configured".toList, t)
  else if user.length < 1 ∨ 64 < user.length then (false, "invalid username".toList, t)
  else if user.any (fun c => c ∈ badUserChars) then (false, "invalid username".toList, t)
  else match generateSalt host with
    | none => (false, "failed to generate salt".toList, t)
    | some salt =>
      let hash := hashPassword host password salt HASH_ITERATIONS
      match saveAuth host t (authData host user hash salt) with
      | none => (false, "atomic write failed".toList, t)
      | some t' => (true, "OK".toList, t')

/-- The json module of the examples keeps what a setup saves. -/
theorem decode_encode_authData (host : Host) (user hash salt : Str) :
    Doc.decode (Doc.encode (authData host user hash salt)) =
      some (authData host user hash salt) := by
  have hversion : Doc.writableVal (.num VERSION) = true := by decide +kernel
  have hrounds : Doc.writableVal (.num HASH_ITERATIONS) = true := by decide +kernel
  have hsalt : Doc.writableVal (.num SALT_BYTES) = true := by decide +kernel
  refine Doc.decode_encode ?_
  simp only [authData, Doc.writable, Doc.writableFields, hversion, hrounds, hsalt]
  rfl

/-- The number of rounds a record asks for.  A `for` loop runs to the floor of its
limit and refuses a limit that is no number. -/
def iterations (data : Doc) : Option ℕ :=
  match (data.get "iterations".toList).val.orElse (.num HASH_ITERATIONS) with
  | .num q => some q.floor.toNat
  | _ => none

/-- `data.admin.username or "admin"` -/
def storedUser (data : Doc) : Val :=
  ((data.get "admin".toList).get "username".toList).val.orElse (.str "admin".toList)

def getUsername (host : Host) (t : FileTree Str) : Val :=
  match loadAuth host t with
  | some data =>
    match data.get "admin".toList with
    | .table _ => storedUser data
    | .leaf _ => .str "admin".toList
  | none => .str "admin".toList

/-- `auth.check_password` without its message, for a user name that is a string. -/
def checkPassword (host : Host) (t : FileTree Str) (password username : Str) : Call Bool :=
  if !isConfigured host t then .returned false
  else match loadAuth host t with
    | none => .returned false
    | some data =>
      match ((data.get "admin".toList).get "hash".toList).val,
          ((data.get "admin".toList).get "salt".toList).val with
      | .str hash, .str salt =>
        if .str username ≠ storedUser data then .returned false
        else match iterations data with
          | none => .raised
          | some iters => .returned (verifyPassword host password hash salt iters)
      | _, _ => .returned false

/-! ## What the comparison decides -/

theorem xor_eq_zero_iff {m n : ℕ} : m ^^^ n = 0 ↔ m = n := by
  constructor
  · intro h
    refine Nat.eq_of_testBit_eq (fun i => ?_)
    have hi := congrArg (fun k => k.testBit i) h
    simpa using hi
  · rintro rfl
    exact Nat.xor_self m

theorem foldl_or_eq_zero_iff (l : List (Char × Char)) (n : ℕ) :
    l.foldl (fun result p => result ||| (p.1.toNat ^^^ p.2.toNat)) n = 0 ↔
      n = 0 ∧ ∀ p ∈ l, p.1 = p.2 := by
  induction l generalizing n with
  | nil => simp
  | cons p rest ih =>
    rw [List.foldl_cons, ih, Nat.or_eq_zero_iff, xor_eq_zero_iff, List.forall_mem_cons]
    constructor
    · rintro ⟨⟨hn, hp⟩, hrest⟩
      exact ⟨hn, Char.toNat_inj.mp hp, hrest⟩
    · rintro ⟨hn, hp, hrest⟩
      exact ⟨⟨hn, congrArg Char.toNat hp⟩, hrest⟩

theorem forall_mem_zip_iff {a b : Str} (hlen : a.length = b.length) :
    (∀ p ∈ a.zip b, p.1 = p.2) ↔ a = b := by
  induction a generalizing b with
  | nil => simp [List.length_eq_zero_iff.mp hlen.symm]
  | cons x a ih =>
    cases b with
    | nil => exact absurd hlen (by simp)
    | cons y b =>
      have hrest := ih (b := b) (by simpa using hlen)
      rw [List.zip_cons_cons, List.forall_mem_cons, hrest, List.cons.injEq]

/-- The comparison without early exit decides equality of the two hashes. -/
theorem verifyPassword_iff (host : Host) (password hash salt : Str) (iters : ℕ) :
    verifyPassword host password hash salt iters = true ↔
      hashPassword host password salt iters = hash := by
  rw [verifyPassword]
  simp only [decide_eq_true_eq, difference, foldl_or_eq_zero_iff, true_and]
  constructor
  · rintro ⟨hlen, hzip⟩
    exact (forall_mem_zip_iff hlen).mp hzip
  · rintro rfl
    exact ⟨rfl, (forall_mem_zip_iff rfl).mpr rfl⟩

end Auth
end Control
end MkyBoot
