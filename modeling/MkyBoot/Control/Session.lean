import MkyBoot.Control.Host
import MkyBoot.Posix.Tree

/-!
# Server-side sessions

`mkyboot.inc.session` keeps one JSON file for each session in `session.dir`.  The
session id comes from the Cookie header and is concatenated into the file's path
as it stands.  `session.read` deletes the file of an expired session, and a
record without `expires` counts as expired at time zero.
-/

namespace MkyBoot
namespace Control

open Lua Posix

/-- The file tree and `session._data`, which is empty when a request starts. -/
structure Store where
  tree : FileTree Str
  data : AList (fun _ : Str => Doc)

def Store.start (t : FileTree Str) : Store := { tree := t, data := ∅ }

/-- The configuration directory, with nothing in it. -/
def cfgTree : FileTree Str where
  nodes := ⟨[⟨["srv".toList], .dir⟩, ⟨["srv".toList, "mkyboot".toList], .dir⟩,
    ⟨["srv".toList, "mkyboot".toList, "cfg".toList], .dir⟩],
    by rw [List.NodupKeys]; decide⟩
  closed := by decide

namespace Session

/-- `session.dir` -/
def dir : Str := "/srv/mkyboot/cfg/sessions".toList

/-- The place `session.dir` names. -/
def dirPath : Path := ["srv".toList, "mkyboot".toList, "cfg".toList, "sessions".toList]

/-- `session.COOKIE_NAME` -/
def cookieName : Str := "mkyboot_session".toList

/-- The path of a session's file. -/
def file (sid : Str) : Str := dir ++ "/".toList ++ sid ++ ".json".toList

/-- `cookie:match(COOKIE_NAME .. "=([^;]+)")`: the first place where the name and
the equals sign are followed by something other than a semicolon. -/
def matchCookie : Str → Option Str
  | [] => none
  | c :: cs =>
    let s := c :: cs
    let key := cookieName ++ ['=']
    let value := (s.drop key.length).takeWhile (· != ';')
    if key.isPrefixOf s ∧ value ≠ [] then some value else matchCookie cs

theorem matchCookie_ne_nil {s sid : Str} (h : matchCookie s = some sid) : sid ≠ [] := by
  induction s with
  | nil => exact absurd h (by simp [matchCookie])
  | cons c cs ih =>
    rw [matchCookie] at h
    split at h
    · rename_i hcond
      injection h with h
      exact h ▸ hcond.2
    · exact ih h

/-- `session.get_cookie`, on `ngx.var.http_cookie` -/
def getCookie (http_cookie : Option Str) : Option Str := matchCookie (http_cookie.getD [])

/-- `session.destroy` -/
def destroy (sid : Str) (st : Store) : Store :=
  { tree := st.tree.remove (file sid), data := st.data.erase sid }

/-- `session.destroy_all`, which raises when the directory cannot be listed. -/
def destroyAll (st : Store) : Call Store :=
  if st.tree.opens dir then
    let names := (st.tree.entries dir).filter fun n => ".json".toList.isSuffixOf n
    .returned { tree := names.foldl (fun t n => t.remove (dir ++ "/".toList ++ n)) st.tree
                data := ∅ }
  else .raised

/-- `session.TTL` -/
def TTL : ℕ := 1800

def generateId (host : Host) : Option Str := Random.base64 host 32

def sessionData (host : Host) (sid username ip : Str) : Doc :=
  .table [("sid".toList, .leaf (.str sid)), ("username".toList, .leaf (.str username)),
    ("created".toList, .leaf (.num host.now)),
    ("expires".toList, .leaf (.num (host.now + TTL))), ("ip".toList, .leaf (.str ip))]

/-- `session.create`.  Without random bytes there is no session; a record that
cannot be written is kept in memory only. -/
def create (host : Host) (username ip : Str) (st : Store) : Call (Option Str) × Store :=
  match destroyAll st with
  | .raised => (.raised, { st with data := ∅ })
  | .returned st =>
    match generateId host with
    | none => (.returned none, st)
    | some sid =>
      let data := sessionData host sid username ip
      let tree := if host.saves then (st.tree.write (file sid) (host.encode data)).getD st.tree
        else st.tree
      (.returned (some sid), { tree := tree, data := st.data.insert sid data })

/-- Both branches of `session.read` end alike, on the comparison of the clock with
`expires`: an expired session is destroyed, another one returned. -/
def conclude (sid : Str) (data : Doc) (st kept : Store) :
    Option Bool → Call (Option Doc) × Store
  | none => (.raised, st)
  | some true => (.returned none, destroy sid st)
  | some false => (.returned (some data), kept)

/-- `data.expires or 0`, compared with the clock -/
def lapsed (host : Host) (data : Doc) : Option Bool :=
  ((data.get "expires".toList).val.orElse (.num 0)).below host.now

/-- The part of `session.read` for a session that is not in `session._data`. -/
def readFile (host : Host) (sid : Str) (st : Store) : Call (Option Doc) × Store :=
  match (st.tree.read (file sid)).bind host.decode with
  | none => (.returned none, st)
  | some (.leaf _) => (.returned none, st)
  | some (.table fields) =>
    conclude sid (.table fields) st { st with data := st.data.insert sid (.table fields) }
      (lapsed host (.table fields))

/-- `session.read`: what the call returns, and the store it leaves. -/
def read (host : Host) (sid : Str) (st : Store) : Call (Option Doc) × Store :=
  if sid = [] then (.returned none, st)
  else match st.data.lookup sid with
    | some s => conclude sid s st st ((s.get "expires".toList).val.below host.now)
    | none => readFile host sid st

/-- `session.validate` -/
def validate (host : Host) (http_cookie : Option Str) (st : Store) :
    Call (Option Doc) × Store :=
  match getCookie http_cookie with
  | none => (.returned none, st)
  | some sid => read host sid st

/-- The content of a file is a session record that has expired. -/
def stale (host : Host) (content : Str) : Bool :=
  match host.decode content with
  | some (.table fields) => lapsed host (.table fields) == some true
  | _ => false

theorem conclude_tree {sid : Str} {data : Doc} {st kept : Store} (hkept : kept.tree = st.tree)
    (cmp : Option Bool) :
    (conclude sid data st kept cmp).2.tree =
      if cmp == some true then st.tree.remove (file sid) else st.tree := by
  match cmp with
  | none => rfl
  | some true => rfl
  | some false => exact hkept

theorem readFile_tree (host : Host) (sid : Str) (st : Store) :
    (readFile host sid st).2.tree =
      if (st.tree.read (file sid)).any (stale host) then st.tree.remove (file sid)
      else st.tree := by
  rw [readFile]
  cases hread : st.tree.read (file sid) with
  | none => rfl
  | some content =>
    rw [Option.bind_some, Option.any_some, stale]
    cases hdec : host.decode content with
    | none => rfl
    | some d =>
      cases d with
      | leaf v => rfl
      | table fields =>
        refine conclude_tree ?_ _
        rfl

/-- On a fresh request a read removes the session's file when that holds an
expired record, and otherwise leaves the tree alone. -/
theorem read_tree (host : Host) {sid : Str} (hsid : sid ≠ []) (t : FileTree Str) :
    (read host sid (.start t)).2.tree =
      if (t.read (file sid)).any (stale host) then t.remove (file sid) else t := by
  have hdata : (Store.start t).data.lookup sid = none := rfl
  rw [read, if_neg hsid, hdata]
  exact readFile_tree host sid (.start t)

/-- A session id without a slash names an entry of `session.dir`. -/
theorem placeOf_file {sid : Str} (h : '/' ∉ sid) :
    FileTree.placeOf (file sid) = dirPath ++ [sid ++ ".json".toList] := by
  have hfile : file sid = dir ++ '/' :: (sid ++ ".json".toList) := by simp [file]
  have hname : '/' ∉ sid ++ ".json".toList := by
    rw [List.mem_append, not_or]
    exact ⟨h, by decide⟩
  -- The extension makes the name longer than any of the special components.
  have hlong : 5 ≤ (sid ++ ".json".toList).length := by
    rw [List.length_append]
    exact Nat.le_add_left 5 _
  have hplace : FileTree.place dirPath (sid ++ ".json".toList) =
      dirPath ++ [sid ++ ".json".toList] := by
    refine FileTree.place_of_ne ?_ ?_ ?_
    all_goals
      intro e
      rw [e] at hlong
      exact absurd hlong (by decide)
  rw [FileTree.placeOf, hfile, List.splitOn_append_cons_self, List.splitOn_eq_singleton hname,
    List.foldl_append]
  exact hplace

/-- A session is created when the directory can be listed and random bytes read. -/
theorem create_eq_some_iff (host : Host) (username ip : Str) (st : Store) :
    (∃ sid, (create host username ip st).1 = .returned (some sid)) ↔
      st.tree.opens dir = true ∧ (generateId host).isSome = true := by
  rw [create, destroyAll]
  by_cases hopen : st.tree.opens dir = true
  · rw [if_pos hopen]
    cases hid : generateId host with
    | none => simp
    | some sid => exact ⟨fun _ => ⟨hopen, rfl⟩, fun _ => ⟨sid, rfl⟩⟩
  · rw [if_neg hopen]
    exact ⟨fun ⟨_, h⟩ => (by cases h), fun h => absurd h.1 hopen⟩

end Session
end Control
end MkyBoot
