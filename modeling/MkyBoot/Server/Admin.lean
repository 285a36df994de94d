import MkyBoot.Server.Http
import MkyBoot.Text

/-!
# Provisioning the administrator's token

Every start of the server calls `Provision`, which stores the hash of a token unless the
credential file has one: of the token in the environment, or of a new one that it returns.
The environment, the random bytes, failures of reading the file and of saving it are inputs
of a start.  `provisioned_for_good` says what holds after any number of starts, from any
file: a hash that has been stored stays, and the token it was made of is accepted.
-/

namespace MkyBoot
namespace Server

open Machine

/-- `hex.EncodeToString` -/
def hexText (bs : List UInt8) : Str :=
  bs.flatMap fun b => [Nat.digitChar (b.toNat / 16), Nat.digitChar (b.toNat % 16)]

/-- `generateToken(32)`, on what the random source gives. -/
def generateToken (random : Option (Vector UInt8 32)) : Option Str :=
  random.map fun bs => hexText bs.toList

/-- A start of the server, with what `Provision` takes from outside.  A variable that is not
set is empty. -/
structure Start where
  env : Str
  random : Option (Vector UInt8 32)
  reads : Bool
  fault : Option Fault

inductive AdminErr where
  | read
  | parse
  | tooShort
  | random
  | save (fault : Fault)
  deriving DecidableEq

/-- The results of `Provision` beside its error. -/
structure Provisioned where
  plaintext : Str
  generated : Bool
  existed : Bool
  deriving DecidableEq

namespace AdminFile

/-- The file as a start finds it, when reading may fail. -/
def found (reads : Bool) (file : AdminFile) : AdminFile := if reads then file else .unreadable

/-- `load`, with the error -/
def loadErr : AdminFile → Except AdminErr AdminRecord
  | .missing => .ok { tokenHash := [], provisioned := [] }
  | .unreadable => .error .read
  | .corrupt => .error .parse
  | .record r => .ok r

theorem toOption_loadErr (file : AdminFile) : file.loadErr.toOption = file.load := by
  cases file <;> rfl

/-- `save`.  The file is replaced by the rename, or left as it was. -/
def save (file : AdminFile) (r : AdminRecord) (fault : Option Fault) (result : Provisioned) :
    Except AdminErr Provisioned × AdminFile :=
  match fault with
  | some f => (.error (.save f), file)
  | none => (.ok result, .record r)

/-- A hash is stored. -/
def HasHash (file : AdminFile) : Prop := ∃ r, file = .record r ∧ r.tokenHash ≠ []

end AdminFile

section

variable (sha256 : List UInt8 → Vector UInt8 32)

def hashToken (token : Str) : Str := hexText (sha256 (bytes token)).toList

/-- `Provision` -/
def provision (file : AdminFile) (s : Start) : Except AdminErr Provisioned × AdminFile :=
  match (file.found s.reads).loadErr with
  | .error e => (.error e, file)
  | .ok r =>
    if r.tokenHash ≠ [] then (.ok ⟨[], false, true⟩, file)
    else if trimSpace s.env ≠ [] then
      if byteLength (trimSpace s.env) < 16 then (.error .tooShort, file)
      else file.save ⟨hashToken sha256 (trimSpace s.env), "env".toList⟩ s.fault ⟨[], false, false⟩
    else match generateToken s.random with
      | none => (.error .random, file)
      | some tok => file.save ⟨hashToken sha256 tok, "generated".toList⟩ s.fault ⟨tok, true, false⟩

/-- The file after a start. -/
def startup (file : AdminFile) (s : Start) : AdminFile := (provision sha256 file s).2

/-- A header that `requireAdmin` accepts as long as the file is this one. -/
def Admits (file : AdminFile) (authorization : Str) : Prop :=
  ∀ (Body Text : Type) (sys : Go.Filepath.Sys) (codec : Codec Body) (w : World Text sys)
    (r : Request Body), codec.hashToken = hashToken sha256 → w.admin = file →
      r.authorization = authorization → requireAdmin codec w r = true

/-- The header with a token. -/
def bearer (token : Str) : Str := "Bearer ".toList ++ token

end

/-! ## Trimming on both sides -/

theorem trimSpace_trimSpace (s : Str) : trimSpace (trimSpace s) = trimSpace s := by
  have hfront : (trimSpace s).dropWhile isSpace = trimSpace s := by
    rw [List.dropWhile_eq_self_iff]
    intro hpos
    have hprefix : trimSpace s <+: s.dropWhile isSpace := List.rdropWhile_prefix _ _
    have hlong : 0 < (s.dropWhile isSpace).length := Nat.lt_of_lt_of_le hpos hprefix.length_le
    have hhead : (trimSpace s)[0] = (s.dropWhile isSpace)[0] := hprefix.getElem hpos
    rw [hhead]
    exact List.dropWhile_get_zero_not isSpace s hlong
  rw [trimSpace, hfront, trimSpace, List.rdropWhile_idempotent]

theorem trimSpace_eq_self {s : Str} (h : ∀ c ∈ s, isSpace c = false) : trimSpace s = s := by
  have hfront : s.dropWhile isSpace = s := by
    rw [List.dropWhile_eq_self_iff]
    intro hpos
    exact Bool.eq_false_iff.mp (h _ (List.getElem_mem hpos))
  rw [trimSpace, hfront, List.rdropWhile_eq_self_iff]
  intro hne
  exact Bool.eq_false_iff.mp (h _ (List.getLast_mem hne))

theorem bearerToken_bearer {token : Str} (h : token ≠ []) :
    bearerToken (bearer token) = trimSpace token := by
  have hseven : "Bearer ".toList.length = 7 := by decide
  have hword : "Bearer ".toList.map Char.toLower = "bearer ".toList := by decide
  have htake : (bearer token).take 7 = "Bearer ".toList := List.take_left' hseven
  have hdrop : (bearer token).drop 7 = token := List.drop_left' hseven
  have hlength : 7 < (bearer token).length := by
    have hpos := List.length_pos_iff.mpr h
    have hadd : (bearer token).length = "Bearer ".toList.length + token.length :=
      List.length_append
    rw [hadd, hseven]
    exact Nat.lt_add_of_pos_right hpos
  rw [bearerToken, htake, hdrop, hword, if_pos ⟨hlength, rfl⟩]

/-! ## Tokens and their hashes -/

theorem isSpace_hexText (bs : List UInt8) : ∀ c ∈ hexText bs, isSpace c = false := by
  have hdigit : ∀ n < 16, isSpace (Nat.digitChar n) = false := by decide
  intro c hc
  obtain ⟨b, -, hb⟩ := List.mem_flatMap.mp hc
  have hlt := b.toNat_lt
  simp only [List.mem_cons, List.not_mem_nil, or_false] at hb
  rcases hb with rfl | rfl
  · exact hdigit _ (by omega)
  · exact hdigit _ (by omega)

theorem hexText_ne_nil (bs : Vector UInt8 32) : hexText bs.toList ≠ [] := by
  intro h
  have hall := List.flatMap_eq_nil_iff.mp h bs[0] (by simp)
  cases hall

section

variable {sha256 : List UInt8 → Vector UInt8 32} {file : AdminFile} {s : Start}

theorem hashToken_ne_nil (token : Str) : hashToken sha256 token ≠ [] := hexText_ne_nil _

theorem generateToken_some {tok : Str} (h : generateToken s.random = some tok) :
    tok ≠ [] ∧ trimSpace tok = tok := by
  obtain ⟨bs, -, rfl⟩ := Option.map_eq_some_iff.mp h
  exact ⟨hexText_ne_nil bs, trimSpace_eq_self (isSpace_hexText _)⟩

/-! ## A start -/

/-- `Provision` has stored the hash of a token and says so by these results. -/
def Stores (sha256 : List UInt8 → Vector UInt8 32) (file : AdminFile) (s : Start) (token : Str)
    (result : Provisioned) : Prop :=
  ∃ how, provision sha256 file s = (.ok result, .record ⟨hashToken sha256 token, how⟩)

theorem save_cases (file : AdminFile) (token how : Str) (fault : Option Fault)
    (result : Provisioned) :
    (∃ f, file.save ⟨hashToken sha256 token, how⟩ fault result = (.error (.save f), file)) ∨
      file.save ⟨hashToken sha256 token, how⟩ fault result =
        (.ok result, .record ⟨hashToken sha256 token, how⟩) := by
  cases fault with
  | some f => exact Or.inl ⟨f, rfl⟩
  | none => exact Or.inr rfl

/-- What a start can do: fail, find the file provisioned, or store the hash of the token in the
environment or of a new one. -/
theorem provision_cases (sha256 : List UInt8 → Vector UInt8 32) (file : AdminFile) (s : Start) :
    (∃ e, provision sha256 file s = (.error e, file)) ∨
    provision sha256 file s = (.ok ⟨[], false, true⟩, file) ∨
    (trimSpace s.env ≠ [] ∧ Stores sha256 file s (trimSpace s.env) ⟨[], false, false⟩) ∨
    ∃ tok, generateToken s.random = some tok ∧ Stores sha256 file s tok ⟨tok, true, false⟩ := by
  cases hload : (file.found s.reads).loadErr with
  | error e => exact Or.inl ⟨e, by rw [provision, hload]⟩
  | ok r =>
    by_cases hhash : r.tokenHash ≠ []
    · exact Or.inr (Or.inl (by rw [provision, hload]; exact if_pos hhash))
    by_cases henv : trimSpace s.env ≠ []
    · by_cases hshort : byteLength (trimSpace s.env) < 16
      · refine Or.inl ⟨.tooShort, ?_⟩
        rw [provision, hload]
        exact (if_neg hhash).trans ((if_pos henv).trans (if_pos hshort))
      · have hsave : provision sha256 file s = file.save
            ⟨hashToken sha256 (trimSpace s.env), "env".toList⟩ s.fault ⟨[], false, false⟩ := by
          rw [provision, hload]
          exact (if_neg hhash).trans ((if_pos henv).trans (if_neg hshort))
        rw [Stores, hsave]
        obtain ⟨f, hf⟩ | hstored := save_cases file (trimSpace s.env) "env".toList s.fault
          ⟨[], false, false⟩
        · exact Or.inl ⟨_, hf⟩
        · exact Or.inr (Or.inr (Or.inl ⟨henv, _, hstored⟩))
    · cases hgen : generateToken s.random with
      | none =>
        refine Or.inl ⟨.random, ?_⟩
        rw [provision, hload]
        refine (if_neg hhash).trans ((if_neg henv).trans ?_)
        rw [hgen]
      | some tok =>
        have hsave : provision sha256 file s = file.save
            ⟨hashToken sha256 tok, "generated".toList⟩ s.fault ⟨tok, true, false⟩ := by
          rw [provision, hload]
          refine (if_neg hhash).trans ((if_neg henv).trans ?_)
          rw [hgen]
        obtain ⟨f, hf⟩ | hstored := save_cases file tok "generated".toList s.fault
          ⟨tok, true, false⟩
        · exact Or.inl ⟨_, hsave.trans hf⟩
        · exact Or.inr (Or.inr (Or.inr ⟨tok, rfl, _, hsave.trans hstored⟩))

theorem result_eq {r r' : Provisioned} {file' : AdminFile}
    (h : provision sha256 file s = (.ok r', file')) (hr : (provision sha256 file s).1 = .ok r) :
    r = r' := by
  rw [h] at hr
  exact (Except.ok.inj hr).symm

/-- A hash that is stored stays. -/
theorem startup_of_hasHash (h : file.HasHash) (s : Start) : startup sha256 file s = file := by
  obtain ⟨r, rfl, hhash⟩ := h
  rw [startup, provision, AdminFile.found]
  cases s.reads with
  | false => rfl
  | true => exact congrArg Prod.snd (if_pos hhash)

theorem run_of_hasHash (h : file.HasHash) (starts : List Start) :
    run (startup sha256) file starts = file := by
  induction starts with
  | nil => rfl
  | cons s starts ih => rw [run_cons, startup_of_hasHash h, ih]

/-! ## Verification -/

theorem verify_iff (hash : Str → Str) (file : AdminFile) (token : Str) :
    file.verify hash token = true ↔
      token ≠ [] ∧ ∃ r, file = .record r ∧ r.tokenHash ≠ [] ∧ hash token = r.tokenHash := by
  cases file <;> simp [AdminFile.verify, AdminFile.load]

theorem admits_of_stored {token authorization how : Str} (hne : token ≠ [])
    (htoken : bearerToken authorization = token) :
    Admits sha256 (.record ⟨hashToken sha256 token, how⟩) authorization := by
  intro Body Text sys codec w r hhash hadmin hheader
  rw [requireAdmin, verify_iff, hhash, hadmin, hheader, htoken]
  exact ⟨hne, _, rfl, hashToken_ne_nil token, rfl⟩

/-- After a start that stores the hash of a token, headers with that token are admitted. -/
theorem Stores.admits {token authorization : Str} {r : Provisioned}
    (h : Stores sha256 file s token r) (hne : token ≠ [])
    (htoken : bearerToken authorization = token) (later : List Start) :
    Admits sha256 (run (startup sha256) (startup sha256 file s) later) authorization := by
  obtain ⟨how, hhow⟩ := h
  have hfile : startup sha256 file s = .record ⟨hashToken sha256 token, how⟩ :=
    congrArg Prod.snd hhow
  rw [run_of_hasHash ⟨_, hfile, hashToken_ne_nil token⟩, hfile]
  exact admits_of_stored hne htoken

/-- After any starts from any file, a hash that the next start leaves stays for good, and the
token that this start has returned or taken from the environment is accepted from then on.
Verification accepts the tokens with the stored hash and no others. -/
theorem provisioned_for_good (sha256 : List UInt8 → Vector UInt8 32) (initial : AdminFile)
    (before : List Start) (s : Start) (later : List Start) :
    let file := run (startup sha256) initial before
    let result := (provision sha256 file s).1
    let final := run (startup sha256) initial (before ++ s :: later)
    ((startup sha256 file s).HasHash → final = startup sha256 file s) ∧
    (∀ r, result = .ok r → r.plaintext ≠ [] → Admits sha256 final (bearer r.plaintext)) ∧
    (∀ r, result = .ok r → r.generated = false → r.existed = false →
      Admits sha256 final (bearer s.env) ∧ Admits sha256 final (bearer (trimSpace s.env))) ∧
    ∀ (file : AdminFile) (token : Str), file.verify (hashToken sha256) token = true ↔
      token ≠ [] ∧ ∃ r, file = .record r ∧ r.tokenHash ≠ [] ∧
        hashToken sha256 token = r.tokenHash := by
  intro file result final
  have hfinal : final = run (startup sha256) (startup sha256 file s) later := by
    show run (startup sha256) initial (before ++ s :: later) = _
    rw [run_append, run_cons]
  rw [hfinal]
  refine ⟨fun hhash => run_of_hasHash hhash later, ?_, ?_, verify_iff _⟩
  · intro r hr hplain
    obtain ⟨e, he⟩ | hexists | ⟨-, how, henv⟩ | ⟨tok, hgen, hstores⟩ :=
      provision_cases sha256 file s
    · cases hr.symm.trans (congrArg Prod.fst he)
    · rw [result_eq hexists hr] at hplain
      exact absurd rfl hplain
    · rw [result_eq henv hr] at hplain
      exact absurd rfl hplain
    · obtain ⟨hne, htrim⟩ := generateToken_some hgen
      obtain rfl := result_eq hstores.choose_spec hr
      exact hstores.admits hne ((bearerToken_bearer hne).trans htrim) later
  · intro r hr hgenerated hexisted
    obtain ⟨e, he⟩ | hexists | ⟨hne, hstores⟩ | ⟨tok, -, how, hhow⟩ := provision_cases sha256 file s
    · cases hr.symm.trans (congrArg Prod.fst he)
    · rw [result_eq hexists hr] at hexisted
      cases hexisted
    · have hraw : s.env ≠ [] := by
        intro hnil
        rw [hnil] at hne
        exact hne rfl
      exact ⟨hstores.admits hne (bearerToken_bearer hraw) later,
        hstores.admits hne ((bearerToken_bearer hne).trans (trimSpace_trimSpace s.env)) later⟩
    · rw [result_eq hhow hr] at hgenerated
      cases hgenerated

end

/-- A digest that tells the two tokens below apart. -/
def checksum (bs : List UInt8) : Vector UInt8 32 :=
  Vector.replicate 32 (bs.foldl (fun sum b => 31 * sum + b) 7)

/-- A first start with a token in the environment, between blanks. -/
def firstStart : Start :=
  { env := " supersecrettoken-value\n".toList, random := none, reads := true, fault := none }

/-- A later start with another one. -/
def secondStart : Start := { firstStart with env := "another-secret-token".toList }

theorem firstStart_admitted :
    provision checksum .missing firstStart =
        (.ok ⟨[], false, false⟩, startup checksum .missing firstStart) ∧
      Admits checksum (run (startup checksum) .missing [firstStart, secondStart])
        (bearer "supersecrettoken-value".toList) ∧
      (run (startup checksum) .missing [firstStart, secondStart]).verify (hashToken checksum)
        secondStart.env = false := by
  have hok : (provision checksum .missing firstStart).1 = .ok ⟨[], false, false⟩ := by
    decide +kernel
  have htrim : trimSpace firstStart.env = "supersecrettoken-value".toList := by decide +kernel
  refine ⟨Prod.ext hok rfl, ?_, by decide +kernel⟩
  rw [← htrim]
  exact ((provisioned_for_good _ .missing [] firstStart [secondStart]).2.2.1 _ hok rfl rfl).2

end Server
end MkyBoot
