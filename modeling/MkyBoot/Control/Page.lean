import MkyBoot.Control.Auth
import MkyBoot.Control.Session

/-!
# Requests and the branches of `GetPage`

`GetPage` is one chain of conditions on the request.  `route` follows it in the
source's order.  Every branch for the administrator starts with
`session.validate()` and stops there without a session; the logout branch calls
`session.destroy` on whatever id the cookie carries.  `sessionStep` is that first
part of each branch, the only part that runs for a request without a valid
session.

The session id is attacker-chosen text, so the question is which file these
calls can delete.  `sessionStep_confined_iff` answers it exactly.
-/

namespace MkyBoot
namespace Control

open Lua Posix

structure Request where
  remote_addr : Str
  http_cookie : Option Str
  method : Str
  body_data : Option Str
  /-- `ngx.var.arg_<name>` -/
  arg : Str → Option Str

inductive Api where
  | status
  | clients
  | client
  | images
  | logs
  | server
  deriving DecidableEq

inductive Route where
  | boot
  | setup
  | login
  | logout
  | changepw
  | post
  | api (a : Api)
  | page
  | none
  deriving DecidableEq

namespace Request

def has (r : Request) (name : String) (value : String) : Bool :=
  r.arg name.toList == some value.toList

def isPost (r : Request) : Bool := r.method == "POST".toList

def apiRoute (r : Request) : Route :=
  if r.has "api" "status" then .api .status
  else if r.has "api" "clients" then .api .clients
  else if r.has "api" "client" && (r.arg "id".toList).isSome then .api .client
  else if r.has "api" "images" then .api .images
  else if r.has "api" "logs" then .api .logs
  else if r.has "api" "server" && (r.arg "op".toList).isSome then .api .server
  else if r.has "status" "true" then .page
  else .none

/-- The branch of `GetPage` that serves a request. -/
def route (r : Request) : Route :=
  if r.arg "getmebootargs".toList == some r.remote_addr && r.remote_addr != "::1".toList then
    .boot
  else if r.has "setup" "true" && r.isPost then .setup
  else if r.has "login" "true" && r.isPost then .login
  else if r.has "logout" "true" then .logout
  else if r.has "changepw" "true" && r.isPost then .changepw
  else if r.body_data.isSome then .post
  else r.apiRoute

end Request

/-- The branch calls `session.validate`.  The status page does so only once an
administrator exists. -/
def Route.validates (configured : Bool) : Route → Bool
  | .changepw | .post | .api _ => true
  | .page => configured
  | _ => false

/-- What a branch does with the session cookie before anything else. -/
def sessionStep (host : Host) (r : Request) (st : Store) : Call (Option Doc) × Store :=
  if r.route = .logout then
    match Session.getCookie r.http_cookie with
    | some sid => (.returned none, Session.destroy sid st)
    | none => (.returned none, st)
  else if r.route.validates (Auth.isConfigured host st.tree) then
    Session.validate host r.http_cookie st
  else (.returned none, st)

/-! ## Which files a session id can delete -/

def cfgPath : Path := ["srv".toList, "mkyboot".toList, "cfg".toList]

/-- The files the parent of `session.dir` holds. -/
def cfgFiles : List Path :=
  [cfgPath ++ ["auth.json".toList], cfgPath ++ ["ratelimit.json".toList],
    cfgPath ++ ["mkyboot.json".toList]]

/-- Every place that changed lies directly in `session.dir`, and the files of the
parent directory are as they were. -/
def Confined (before after : FileTree Str) : Prop :=
  (∀ p, after.lookup p ≠ before.lookup p → p.dropLast = Session.dirPath) ∧
    ∀ p ∈ cfgFiles, after.lookup p = before.lookup p

/-- The entry a branch would remove when the session id leads to it: logout removes
a file or an empty directory, validation a file with an expired record. -/
def Removes (host : Host) (r : Request) (t : FileTree Str) (p : Path) : Prop :=
  if r.route = .logout then t.removable p = true
  else r.route.validates (Auth.isConfigured host t) = true ∧
    ∃ content, t.lookup p = some (.file content) ∧ Session.stale host content = true

/-- The session id of the cookie leads, through existing directories, to a place
that is not directly in `session.dir` and holds an entry the branch removes. -/
def Escapes (host : Host) (r : Request) (t : FileTree Str) : Prop :=
  ∃ sid p, Session.getCookie r.http_cookie = some sid ∧
    t.resolve (Session.file sid) = some p ∧ p.dropLast ≠ Session.dirPath ∧
    Removes host r t p

theorem removable_of_file {t : FileTree Str} {p : Path} {c : Str}
    (h : t.lookup p = some (.file c)) : t.removable p = true := by
  rw [FileTree.removable, h]

/-- Reading a session changes exactly the place its id leads to, when that holds
an expired record. -/
theorem read_changes_iff (host : Host) {sid : Str} (hsid : sid ≠ []) (t : FileTree Str) (p : Path) :
    (Session.read host sid (.start t)).2.tree.lookup p ≠ t.lookup p ↔
      t.resolve (Session.file sid) = some p ∧
        ∃ content, t.lookup p = some (.file content) ∧ Session.stale host content = true := by
  rw [Session.read_tree host hsid]
  constructor
  · intro h
    by_cases hany : (t.read (Session.file sid)).any (Session.stale host) = true
    · rw [if_pos hany] at h
      obtain ⟨hres, -⟩ := (FileTree.lookup_remove_ne_iff t _ p).mp h
      refine ⟨hres, ?_⟩
      rw [FileTree.read, hres, Option.bind_some] at hany
      split at hany
      · rename_i c hc
        exact ⟨c, hc, hany⟩
      · exact absurd hany (by simp)
    · rw [if_neg hany] at h
      exact absurd rfl h
  · rintro ⟨hres, c, hfile, hstale⟩
    have hany : (t.read (Session.file sid)).any (Session.stale host) = true := by
      rw [FileTree.read, hres, Option.bind_some, hfile]
      exact hstale
    rw [if_pos hany]
    exact (FileTree.lookup_remove_ne_iff t _ p).mpr ⟨hres, removable_of_file hfile⟩

theorem resolve_file_of_no_slash (t : FileTree Str) {sid : Str} (hsid : '/' ∉ sid) {p : Path}
    (h : t.resolve (Session.file sid) = some p) :
    p = Session.dirPath ++ [sid ++ ".json".toList] := by
  rw [FileTree.eq_placeOf_of_resolve h]
  exact Session.placeOf_file hsid

/-- A branch changes exactly the places its session id leads to and it removes. -/
theorem sessionStep_changes_iff (host : Host) (r : Request) (t : FileTree Str) (p : Path) :
    (sessionStep host r (.start t)).2.tree.lookup p ≠ t.lookup p ↔
      ∃ sid, Session.getCookie r.http_cookie = some sid ∧
        t.resolve (Session.file sid) = some p ∧ Removes host r t p := by
  unfold sessionStep Removes
  by_cases hlog : r.route = .logout
  · simp only [if_pos hlog]
    cases hc : Session.getCookie r.http_cookie with
    | none => simp [Store.start]
    | some sid =>
      have hrem := FileTree.lookup_remove_ne_iff t (Session.file sid) p
      simpa [Session.destroy, Store.start] using hrem
  · simp only [if_neg hlog]
    by_cases hval : r.route.validates (Auth.isConfigured host t) = true
    · have hval' : r.route.validates (Auth.isConfigured host (Store.start t).tree) = true := hval
      rw [if_pos hval', Session.validate]
      cases hc : Session.getCookie r.http_cookie with
      | none => simp [Store.start]
      | some sid =>
        have hread := read_changes_iff host (Session.matchCookie_ne_nil hc) t p
        simpa [hval] using hread
    · have hval' : ¬ r.route.validates (Auth.isConfigured host (Store.start t).tree) = true := hval
      rw [if_neg hval']
      simp [hval, Store.start]

/-- A place outside `session.dir` cannot be one of its direct entries, so the files
of the parent directory need no separate argument. -/
theorem cfgFiles_dropLast : ∀ p ∈ cfgFiles, p.dropLast ≠ Session.dirPath := by decide

theorem confined_iff {before after : FileTree Str} :
    Confined before after ↔
      ∀ p, after.lookup p ≠ before.lookup p → p.dropLast = Session.dirPath := by
  constructor
  · exact fun h => h.1
  · intro h
    refine ⟨h, fun p hp => ?_⟩
    by_contra hne
    exact cfgFiles_dropLast p hp (h p hne)

/-- Whatever the request, its session handling stays in `session.dir` exactly when
the session id does not lead to an entry elsewhere that the branch removes. -/
theorem sessionStep_confined_iff (host : Host) (r : Request) (t : FileTree Str) :
    Confined t (sessionStep host r (.start t)).2.tree ↔ ¬ Escapes host r t := by
  rw [confined_iff]
  constructor
  · rintro h ⟨sid, p, hc, hres, hout, hrem⟩
    exact hout (h p ((sessionStep_changes_iff host r t p).mpr ⟨sid, hc, hres, hrem⟩))
  · intro h p hp
    obtain ⟨sid, hc, hres, hrem⟩ := (sessionStep_changes_iff host r t p).mp hp
    by_contra hout
    exact h ⟨sid, p, hc, hres, hout, hrem⟩

/-! A configured server with no session: the credentials lie beside the empty
sessions directory. -/

def configuredHost : Host where
  now := 1000
  decode := Doc.decode
  encode := Doc.encode
  sha1_bin := id
  encode_base64 := id
  urandom := fun _ => none
  date := []
  saves := true

def credentials : Doc :=
  Auth.authData configuredHost "admin".toList (hexText (List.replicate 20 'a'))
    (hexText (List.replicate 64 '0'))

def configuredTree : FileTree Str where
  nodes := ⟨[⟨["srv".toList], .dir⟩, ⟨["srv".toList, "mkyboot".toList], .dir⟩, ⟨cfgPath, .dir⟩,
    ⟨Session.dirPath, .dir⟩,
    ⟨cfgPath ++ ["auth.json".toList], .file (Doc.encode credentials)⟩],
    by rw [List.NodupKeys]; decide⟩
  closed := by decide

/-- `GET /?logout=true` with the session id `../auth`. -/
def logoutRequest : Request where
  remote_addr := "192.168.1.40".toList
  http_cookie := some "mkyboot_session=../auth".toList
  method := "GET".toList
  body_data := none
  arg := fun n => if n = "logout".toList then some "true".toList else none

/-- The cookie is no session, and the logout branch deletes the credentials. -/
theorem logout_removes_credentials :
    (Session.validate configuredHost logoutRequest.http_cookie (.start configuredTree)).1 =
        .returned none ∧
      ¬ Confined configuredTree
        (sessionStep configuredHost logoutRequest (.start configuredTree)).2.tree := by
  have hread : (Store.start configuredTree).tree.read (Session.file "../auth".toList) =
      some (Doc.encode credentials) := rfl
  have hdecode : configuredHost.decode (Doc.encode credentials) = some credentials :=
    Auth.decode_encode_authData configuredHost _ _ _
  have hdata : (Store.start configuredTree).data.lookup "../auth".toList = none := rfl
  have hstale : (Session.read configuredHost "../auth".toList (.start configuredTree)).1 =
      .returned none := by
    rw [Session.read, if_neg (by decide), hdata]
    dsimp only
    rw [Session.readFile, hread, Option.bind_some, hdecode]
    rfl
  refine ⟨hstale, fun h => ?_⟩
  have hkept := h.2 (cfgPath ++ ["auth.json".toList]) (by decide)
  exact absurd hkept (by decide)

/-- The two-character step `..` needs a slash: without one in the session id
nothing escapes. -/
theorem slash_mem_of_escapes {host : Host} {r : Request} {t : FileTree Str} (h : Escapes host r t) :
    ∃ sid, Session.getCookie r.http_cookie = some sid ∧ '/' ∈ sid := by
  obtain ⟨sid, p, hc, hres, hout, -⟩ := h
  refine ⟨sid, hc, ?_⟩
  by_contra hslash
  rw [resolve_file_of_no_slash t hslash hres] at hout
  exact hout List.dropLast_concat

end Control
end MkyBoot
