import MkyBoot.Control.Login

/-!
# Setup over an existing credential

`auth.load_auth` returns nothing for four reasons: there is no json module, `auth.json` cannot
be opened, its content cannot be decoded, or the content is no table.  `auth.is_configured`
takes each of them, and a table without an administrator, for a server that has not been set
up.  The functions here are those of `Auth` and `Login` with everything that can fail in them
and the messages; with nothing failing they are the same.  `fails_closed_iff` says which
contents keep setup from replacing the file.
-/

namespace MkyBoot
namespace Control
namespace FirstRun

open Lua Posix Form

/-- What `auth` finds on its way to the file. -/
structure Access where
  /-- `require "json"` succeeds. -/
  json : Bool
  /-- A file that exists can be opened for reading. -/
  opens : Bool
  /-- The temporary file can be opened for writing. -/
  temp : Bool

def Access.full : Access := ⟨true, true, true⟩

section Handlers

variable (host : Host) (acc : Access) (t : FileTree Str)

/-- `auth.load_auth` -/
def loadAuth : Option Doc × Str :=
  if !acc.json then (none, "json unavailable".toList)
  else match if acc.opens then t.read Auth.file else none with
    | none => (none, "no auth file".toList)
    | some content =>
      match host.decode content with
      | some (.table fields) => (some (.table fields), "OK".toList)
      | _ => (none, "invalid auth file".toList)

/-- `auth.save_auth` -/
def saveAuth (data : Doc) : Except Str (FileTree Str) :=
  if !acc.json then .error "json unavailable".toList
  else if !acc.temp then .error "cannot write temp file".toList
  else match Auth.saveAuth host t data with
    | none => .error "atomic write failed".toList
    | some t' => .ok t'

/-- `auth.is_configured` -/
def isConfigured : Bool :=
  match (loadAuth host acc t).1 with
  | some data => !Auth.isNil (data.get "admin".toList)
  | none => false

/-- The part of `auth.setup_admin` for a user name that is a text. -/
def setupUser (password user : Str) : Bool × Str × FileTree Str :=
  if user.length < 1 ∨ 64 < user.length then (false, "invalid username".toList, t)
  else if user.any (fun c => c ∈ Auth.badUserChars) then (false, "invalid username".toList, t)
  else match Auth.generateSalt host with
    | none => (false, "failed to generate salt".toList, t)
    | some salt =>
      let hash := Auth.hashPassword host password salt Auth.HASH_ITERATIONS
      match saveAuth host acc t (Auth.authData host user hash salt) with
      | .error msg => (false, msg, t)
      | .ok t' => (true, "OK".toList, t')

/-- `auth.setup_admin` -/
def setupAdmin (password username : Val) : Bool × Str × FileTree Str :=
  let short := (false, "password must be at least 8 characters".toList, t)
  match password with
  | .str password =>
    if password.length < Auth.MIN_PASSWORD_LENGTH then short
    else if isConfigured host acc t then (false, "already configured".toList, t)
    else match username.orElse (.str "admin".toList) with
      | .str user => setupUser host acc t password user
      | _ => (false, "invalid username".toList, t)
  | _ => short

/-- The answer to `?setup=true`. -/
def setup (body_data : Option Str) : Str × FileTree Str :=
  let short := ("ERROR: Password must be at least 8 characters".toList, t)
  if isConfigured host acc t then ("ERROR: Already configured".toList, t)
  else match body_data.bind parsePost with
    | none => short
    | some body =>
      match field body "password" with
      | none => short
      | some password =>
        if password.length < Auth.MIN_PASSWORD_LENGTH then short
        else if field body "confirm" ≠ some password then
          ("ERROR: Passwords do not match".toList, t)
        else match setupAdmin host acc t (.str password) (.str "admin".toList) with
          | (true, _, t') => ("OK".toList, t')
          | (false, msg, t') => ("ERROR: ".toList ++ msg, t')

end Handlers

/-! ## Nothing fails -/

section Full

variable (host : Host) (t : FileTree Str)

theorem loadAuth_full : (loadAuth host .full t).1 = Auth.loadAuth host t := by
  cases hread : t.read Auth.file with
  | none => simp [loadAuth, Auth.loadAuth, Access.full, hread]
  | some content =>
    cases hdecode : host.decode content with
    | none => simp [loadAuth, Auth.loadAuth, Access.full, hread, hdecode]
    | some data =>
      cases data with
      | leaf v | table fields => simp [loadAuth, Auth.loadAuth, Access.full, hread, hdecode]

theorem isConfigured_full : isConfigured host .full t = Auth.isConfigured host t := by
  cases hload : Auth.loadAuth host t with
  | none | some data => simp [isConfigured, Auth.isConfigured, loadAuth_full, hload]

theorem saveAuth_full (data : Doc) :
    saveAuth host .full t data =
      (Auth.saveAuth host t data).elim (.error "atomic write failed".toList) .ok := by
  cases hsave : Auth.saveAuth host t data with
  | none | some t' => simp [saveAuth, Access.full, hsave]

theorem setupUser_full (password user : Str) (hlen : ¬ password.length < Auth.MIN_PASSWORD_LENGTH)
    (hconf : Auth.isConfigured host t = false) :
    setupUser host .full t password user = Auth.setupAdmin host t password user := by
  rw [setupUser, Auth.setupAdmin, if_neg hlen, hconf, if_neg Bool.false_ne_true]
  cases hsalt : Auth.generateSalt host with
  | none => rfl
  | some salt =>
    simp only [saveAuth_full]
    cases hsave : Auth.saveAuth host t (Auth.authData host user
      (Auth.hashPassword host password salt Auth.HASH_ITERATIONS) salt) with
    | none => rfl
    | some t' => rfl

theorem setupAdmin_full (password user : Str) :
    setupAdmin host .full t (.str password) (.str user) =
      Auth.setupAdmin host t password user := by
  by_cases hlen : password.length < Auth.MIN_PASSWORD_LENGTH
  · simp only [setupAdmin, Auth.setupAdmin, if_pos hlen]
  · by_cases hconf : Auth.isConfigured host t = true
    · simp only [setupAdmin, Auth.setupAdmin, if_neg hlen, isConfigured_full, if_pos hconf]
    · rw [← setupUser_full host t password user hlen (Bool.eq_false_iff.mpr hconf)]
      simp only [setupAdmin, if_neg hlen, isConfigured_full, if_neg hconf, Val.orElse]

theorem setup_full (body_data : Option Str) :
    setup host .full t body_data = Login.setup host t body_data := by
  rw [setup, Login.setup, isConfigured_full]
  cases hbody : body_data.bind parsePost with
  | none => rfl
  | some body =>
    cases hpassword : field body "password" with
    | none => simp only [hpassword]
    | some password =>
      have hwith : Login.setupWith host t password =
          match setupAdmin host .full t (.str password) (.str "admin".toList) with
          | (true, _, t') => ("OK".toList, t')
          | (false, msg, t') => ("ERROR: ".toList ++ msg, t') := by
        rw [setupAdmin_full]
        rfl
      simp only [hpassword, hwith]

end Full

/-! ## The file exists -/

/-- Setup keeps an existing file, and `setup_admin` never succeeds over it. -/
structure FailsClosed (host : Host) (acc : Access) (t : FileTree Str) : Prop where
  kept : ∀ body_data, (setup host acc t body_data).2.read Auth.file = t.read Auth.file
  refused : ∀ password username, (setupAdmin host acc t password username).1 = false

/-- The content is read, and is a table with an administrator. -/
def Recognised (host : Host) (acc : Access) (content : Str) : Prop :=
  acc.json = true ∧ acc.opens = true ∧
    ∃ fields, host.decode content = some (.table fields) ∧
      Auth.isNil ((Doc.table fields).get "admin".toList) = false

/-- Nothing keeps a record from being made and saved. -/
def CanSave (host : Host) (acc : Access) : Prop :=
  acc.json = true ∧ acc.temp = true ∧ host.saves = true ∧ (Auth.generateSalt host).isSome = true

section Exists

variable {host : Host} {acc : Access} {t : FileTree Str} {content : Str}

theorem isConfigured_iff (hfile : t.read Auth.file = some content) :
    isConfigured host acc t = true ↔ Recognised host acc content := by
  rw [isConfigured, loadAuth, Recognised, hfile]
  cases acc.json with
  | false => simp
  | true =>
    cases acc.opens with
    | false => simp
    | true =>
      cases hdecode : host.decode content with
      | none => simp [hdecode]
      | some data =>
        cases data with
        | leaf v | table fields => simp [hdecode]

/-- A record that is saved was saved with everything in order. -/
theorem canSave_of_saveAuth {data : Doc} {t' : FileTree Str}
    (h : saveAuth host acc t data = .ok t') :
    acc.json = true ∧ acc.temp = true ∧ host.saves = true := by
  rw [saveAuth] at h
  cases hjson : acc.json with
  | false =>
    rw [hjson] at h
    cases h
  | true =>
    cases htemp : acc.temp with
    | false =>
      rw [hjson, htemp] at h
      cases h
    | true =>
      cases hsaves : host.saves with
      | false =>
        rw [hjson, htemp, Auth.saveAuth, hsaves] at h
        cases h
      | true => exact ⟨rfl, rfl, rfl⟩

theorem saveAuth_of_canSave (hfile : t.read Auth.file = some content) (h : CanSave host acc)
    (data : Doc) : ∃ t', saveAuth host acc t data = .ok t' := by
  obtain ⟨hjson, htemp, hsaves, -⟩ := h
  obtain ⟨t', hwrite⟩ := FileTree.write_of_read hfile (by decide) (host.encode data)
  have hsave : Auth.saveAuth host t data = some t' := by
    rw [Auth.saveAuth, hsaves]
    exact hwrite
  refine ⟨t', ?_⟩
  rw [saveAuth, hjson, htemp, hsave]
  rfl

variable (host acc t) in
/-- `setup_admin` succeeds with everything in order, or leaves the tree alone. -/
theorem setupUser_cases (password user : Str) :
    (CanSave host acc ∧ (setupUser host acc t password user).1 = true) ∨
      ∃ msg, setupUser host acc t password user = (false, msg, t) := by
  rw [setupUser]
  split
  · exact Or.inr ⟨_, rfl⟩
  split
  · exact Or.inr ⟨_, rfl⟩
  cases hsalt : Auth.generateSalt host with
  | none => exact Or.inr ⟨_, rfl⟩
  | some salt =>
    cases hsave : saveAuth host acc t (Auth.authData host user
        (Auth.hashPassword host password salt Auth.HASH_ITERATIONS) salt) with
    | error msg =>
      refine Or.inr ⟨msg, ?_⟩
      simp only [hsave]
    | ok t' =>
      obtain ⟨hjson, htemp, hsaves⟩ := canSave_of_saveAuth hsave
      refine Or.inl ⟨⟨hjson, htemp, hsaves, by rw [hsalt]; rfl⟩, ?_⟩
      simp only [hsave]

variable (host acc t) in
theorem setupAdmin_cases (password username : Val) :
    (isConfigured host acc t = false ∧ CanSave host acc ∧
        (setupAdmin host acc t password username).1 = true) ∨
      ∃ msg, setupAdmin host acc t password username = (false, msg, t) := by
  rw [setupAdmin.eq_def]
  cases password with
  | str password =>
    dsimp only
    split
    · exact Or.inr ⟨_, rfl⟩
    · split
      · exact Or.inr ⟨_, rfl⟩
      · rename_i hconf
        split
        · rename_i user _
          rcases setupUser_cases host acc t password user with hok | herr
          · exact Or.inl ⟨Bool.eq_false_iff.mpr hconf, hok⟩
          · exact Or.inr herr
        · exact Or.inr ⟨_, rfl⟩
  | _ => exact Or.inr ⟨_, rfl⟩

/-- A setup request keeps the tree unless `setup_admin` succeeds. -/
theorem setup_tree (h : ∀ password username, (setupAdmin host acc t password username).1 = false)
    (body_data : Option Str) : (setup host acc t body_data).2 = t := by
  rw [setup]
  split
  · rfl
  split
  · rfl
  split
  · rfl
  split
  · rfl
  split
  · rfl
  rename_i password _ _ _
  have hfalse := h (.str password) (.str "admin".toList)
  rcases setupAdmin_cases host acc t (.str password)
      (.str "admin".toList) with hok | ⟨msg, herr⟩
  · rw [hok.2.2] at hfalse
    cases hfalse
  · rw [herr]

theorem setupAdmin_of_canSave (hfile : t.read Auth.file = some content) (h : CanSave host acc)
    (hconf : isConfigured host acc t = false) :
    (setupAdmin host acc t (.str "password".toList) (.str "admin".toList)).1 = true := by
  obtain ⟨salt, hsalt⟩ := Option.isSome_iff_exists.mp h.2.2.2
  obtain ⟨t', hsave⟩ := saveAuth_of_canSave hfile h (Auth.authData host "admin".toList
    (Auth.hashPassword host "password".toList salt Auth.HASH_ITERATIONS) salt)
  have huser : (setupUser host acc t "password".toList "admin".toList).1 = true := by
    rw [setupUser, if_neg (by decide), if_neg (by decide), hsalt]
    simp only [hsave]
  rw [setupAdmin, if_neg (by decide), hconf]
  exact huser

/-- For every content of an existing file and everything that can fail: setup fails closed
exactly if the content is recognised, or nothing can be saved anyway. -/
theorem fails_closed_iff (host : Host) (acc : Access) (t : FileTree Str) (content : Str)
    (hfile : t.read Auth.file = some content) :
    FailsClosed host acc t ↔ Recognised host acc content ∨ ¬ CanSave host acc := by
  rw [← isConfigured_iff hfile]
  constructor
  · intro h
    by_contra hnot
    rw [not_or, not_not, Bool.not_eq_true] at hnot
    have htrue := setupAdmin_of_canSave hfile hnot.2 hnot.1
    rw [h.refused] at htrue
    cases htrue
  · intro h
    have hrefused : ∀ password username, (setupAdmin host acc t password username).1 = false := by
      intro password username
      rcases setupAdmin_cases host acc t password username with
        ⟨hconf, hsave, -⟩ | ⟨msg, herr⟩
      · rcases h with h | h
        · rw [h] at hconf
          cases hconf
        · exact absurd hsave h
      · rw [herr]
    exact ⟨fun body_data => by rw [setup_tree hrefused], hrefused⟩

end Exists

/-! A credential, one that was cut off, and a table without an administrator. -/

def jsonHost : Host where
  now := 1000
  decode := Doc.decode
  encode := Doc.encode
  sha1_bin := fun _ => List.replicate 20 'a'
  encode_base64 := id
  urandom := fun n => some (List.replicate n '0')
  date := "2024-01-01".toList
  saves := true

def withAuth (content : Str) : FileTree Str :=
  (Login.freshTree.write Auth.file content).getD Login.freshTree

theorem read_withAuth (content : Str) : (withAuth content).read Auth.file = some content := by
  have hwrite : (Login.freshTree.write Auth.file content).isSome = true := rfl
  obtain ⟨t, ht⟩ := Option.isSome_iff_exists.mp hwrite
  rw [withAuth, ht, Option.getD_some]
  exact FileTree.read_write ht

def credential : Doc :=
  Auth.authData jsonHost "admin".toList (hexText (List.replicate 20 'a'))
    (hexText (List.replicate 64 '0'))

theorem record_fails_closed : FailsClosed jsonHost .full (withAuth (Doc.encode credential)) :=
  (fails_closed_iff jsonHost .full _ _ (read_withAuth _)).mpr
    (Or.inl ⟨rfl, rfl, _, Auth.decode_encode_authData jsonHost _ _ _, rfl⟩)

/-- Setup puts its own record in the place of a content that exists. -/
def Replaced (content : Str) : Prop :=
  let answer := setup jsonHost .full (withAuth content) (some (setupBody "12345678".toList))
  (withAuth content).read Auth.file = some content ∧ answer.1 = "OK".toList ∧
    answer.2.read Auth.file = (Auth.generateSalt jsonHost).map fun salt =>
      Doc.encode (Login.record jsonHost "12345678".toList salt)

theorem replaced_of_ok {content : Str} (h : (setup jsonHost .full (withAuth content)
    (some (setupBody "12345678".toList))).1 = "OK".toList) : Replaced content := by
  refine ⟨read_withAuth content, h, ?_⟩
  rw [setup_full] at h ⊢
  obtain ⟨salt, hsalt, hread⟩ := Login.setup_ok (Prod.ext h rfl)
  rw [hread, hsalt]
  rfl

theorem cut_off_replaced : Replaced "\x7b\"version\":2,\"admin\":\x7b\"user".toList ∧
    Replaced "\x7b\x7d".toList ∧ Replaced [] :=
  ⟨replaced_of_ok (by decide +kernel), replaced_of_ok (by decide +kernel),
    replaced_of_ok (by decide +kernel)⟩

end FirstRun
end Control
end MkyBoot
