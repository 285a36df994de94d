import MkyBoot.Control.Sessions

/-!
# Reading a session back

The id of a session is the standard base64 of 32 random bytes, and `session.create`
puts it into a pathname as it stands.  Base64 has the slash in its alphabet, so an id
can name a file in a directory that is not there; the failed `io.open` is passed over
and the record stays in the memory of the request that made it.
`session_read_back_iff` says for which trees and ids a later request finds the record,
whatever requests have looked at sessions in between.
-/

namespace MkyBoot
namespace Control
namespace Session

open Lua Posix Machine

/-! ## Standard base64 -/

def alphabet : List Char :=
  "ABCDEFGHIJKLMNOPQRSTUVWXYZabcdefghijklmnopqrstuvwxyz0123456789+/".toList

def sextet (n : ℕ) : Char := alphabet.getD (n % 64) 'A'

/-- The text `ngx.encode_base64` makes of bytes: four characters for three bytes, with
padding. -/
def base64 : Str → Str
  | [] => []
  | [a] => [sextet (a.toNat / 4), sextet (a.toNat % 4 * 16), '=', '=']
  | [a, b] =>
    [sextet (a.toNat / 4), sextet (a.toNat % 4 * 16 + b.toNat / 16), sextet (b.toNat % 16 * 4), '=']
  | a :: b :: c :: rest =>
    sextet (a.toNat / 4) :: sextet (a.toNat % 4 * 16 + b.toNat / 16) ::
      sextet (b.toNat % 16 * 4 + c.toNat / 64) :: sextet c.toNat :: base64 rest

theorem sextet_mem (n : ℕ) : sextet n ∈ alphabet := by
  have hlt : n % 64 < alphabet.length := Nat.mod_lt n (by decide)
  rw [sextet, List.getD_eq_getElem _ _ hlt]
  exact List.getElem_mem hlt

theorem mem_base64 (bytes : Str) : ∀ c ∈ base64 bytes, c ∈ alphabet ∨ c = '=' := by
  fun_induction base64 bytes with
  | case1 => exact fun c hc => absurd hc List.not_mem_nil
  | case2 a => simp [sextet_mem]
  | case3 a b => simp [sextet_mem]
  | case4 a b c rest ih => simpa [sextet_mem] using ih

/-- A dot is not in the alphabet, so no part of an id looks like a name of a session. -/
theorem dot_notMem_base64 (bytes : Str) : '.' ∉ base64 bytes := by
  intro h
  rcases mem_base64 bytes '.' h with h | h
  · exact absurd h (by decide)
  · exact absurd h (by decide)

theorem base64_ne_nil {bytes : Str} (h : bytes ≠ []) : base64 bytes ≠ [] := by
  fun_cases base64 bytes with
  | case1 => exact absurd rfl h
  | case2 a => simp
  | case3 a b => simp
  | case4 a b c rest => simp

/-! ## What a create writes -/

/-- The tree that `destroy_all` leaves. -/
def swept (t : FileTree Str) : FileTree Str :=
  ((t.entries dir).filter fun n => ".json".toList.isSuffixOf n).foldl
    (fun t n => t.remove (dir ++ "/".toList ++ n)) t

/-- The directories that the id leads through are there, and no directory has the name of
the session's file once the old sessions are removed. -/
def Stores (t : FileTree Str) (sid : Str) : Prop :=
  ∃ p, t.resolve (file sid) = some p ∧ (swept t).isDir p = false

theorem json_slash : '/' ∉ ".json".toList := by decide

theorem json_long : 2 < ".json".toList.length := by decide

/-- No name on the way to a place looks like a session. -/
theorem isDir_swept (t : FileTree Str) {q : Path} (hq : ∀ n ∈ q, ¬ ".json".toList <:+ n) :
    (swept t).isDir q = t.isDir q := by
  have hfold : ∀ (names : List Name) (t' : FileTree Str),
      (∀ n ∈ names, ".json".toList <:+ n) →
      (names.foldl (fun t n => t.remove (dir ++ "/".toList ++ n)) t').lookup q = t'.lookup q := by
    intro names
    induction names with
    | nil => exact fun t' _ => rfl
    | cons n names ih =>
      intro t' hnames
      obtain ⟨stem, rfl⟩ := hnames n List.mem_cons_self
      rw [List.foldl_cons, ih _ fun m hm => hnames m (List.mem_cons_of_mem _ hm),
        ← List.append_assoc, FileTree.lookup_remove_ending json_slash json_long _ _ hq]
  have hlookup : (swept t).lookup q = t.lookup q := by
    refine hfold _ t fun n hn => ?_
    exact List.isSuffixOf_iff_suffix.mp (List.mem_filter.mp hn).2
  rw [FileTree.isDir, FileTree.isDir, hlookup]

theorem file_eq (sid : Str) : file sid = dir ++ '/' :: (sid ++ ".json".toList) := by
  rw [file, List.append_assoc, List.append_assoc]
  rfl

/-- The directories on the way to a session's file survive the sweep. -/
theorem resolve_swept (t : FileTree Str) {sid : Str} (hdot : '.' ∉ sid) :
    (swept t).resolve (file sid) = t.resolve (file sid) := by
  have hdir : ∀ c ∈ dir.splitOn '/', ¬ ".json".toList <:+ c := by decide
  have hslash : ∀ c ∈ ".json".toList, (c == '/') = false := by decide
  obtain ⟨init, last, hsid, hjson⟩ := splitOnP_append hslash sid
  have hparts : (file sid).splitOn '/' = dir.splitOn '/' ++ (init ++ [last ++ ".json".toList]) := by
    rw [file_eq, List.splitOn_append_cons_self]
    exact congrArg (dir.splitOn '/' ++ ·) hjson
  have hwalk : (swept t).walk [] ((file sid).splitOn '/').dropLast =
      t.walk [] ((file sid).splitOn '/').dropLast := by
    refine FileTree.walk_congr (P := fun n => ¬ ".json".toList <:+ n) (fun q => isDir_swept t)
      (fun n hn => absurd hn List.not_mem_nil) fun c hc => ?_
    rw [hparts, ← List.append_assoc, List.dropLast_concat] at hc
    rcases List.mem_append.mp hc with hc | hc
    · exact hdir c hc
    · rintro ⟨stem, rfl⟩
      have hmem : stem ++ ".json".toList ∈ sid.splitOnP (· == '/') := by
        rw [hsid]
        exact List.mem_append_left _ hc
      exact hdot (mem_of_mem_splitOnP hmem (by simp)).1
  rw [FileTree.resolve, FileTree.resolve, hwalk]

/-- The record can be written exactly if the id is stored. -/
theorem write_swept_iff (t : FileTree Str) {sid : Str} (hdot : '.' ∉ sid) (content : Str) :
    (∃ t', (swept t).write (file sid) content = some t') ↔ Stores t sid := by
  rw [FileTree.write, Stores, ← resolve_swept t hdot]
  constructor
  · rintro ⟨t', h⟩
    obtain ⟨p, hp, h⟩ := Option.bind_eq_some_iff.mp h
    refine ⟨p, hp, ?_⟩
    split at h
    · rename_i hw
      rw [FileTree.writable, Bool.and_eq_true, Bool.not_eq_true'] at hw
      exact hw.2
    · cases h
  · rintro ⟨p, hp, hnot⟩
    have hp' : (swept t).resolve (dir ++ "/".toList ++ sid ++ ".json".toList) = some p := hp
    obtain ⟨d, n, hplace, hwalk⟩ := FileTree.resolve_ending json_slash json_long hp'
    have hw : (swept t).writable p = true := by
      rw [FileTree.writable, hnot, hplace, List.dropLast_concat, FileTree.isDir_walk rfl hwalk]
      rfl
    rw [hp, Option.bind_some, dif_pos hw]
    exact ⟨_, rfl⟩

/-- Without a place for the record nothing is read. -/
theorem read_swept_of_not_stores {t : FileTree Str} {sid : Str} (hdot : '.' ∉ sid)
    (h : ¬ Stores t sid) : (swept t).read (file sid) = none := by
  rw [Option.eq_none_iff_forall_ne_some]
  intro c hc
  obtain ⟨p, hp, hfile⟩ := FileTree.read_eq_some_iff.mp hc
  refine h ⟨p, (resolve_swept t hdot).symm.trans hp, ?_⟩
  have hp' : (swept t).resolve (dir ++ "/".toList ++ sid ++ ".json".toList) = some p := hp
  obtain ⟨d, n, rfl, -⟩ := FileTree.resolve_ending json_slash json_long hp'
  rw [FileTree.isDir, hfile]
  simp

/-- `session.create` on a directory that can be listed and written. -/
theorem create_eq {host : Host} {t : FileTree Str} {sid : Str} (hdir : t.opens dir = true)
    (hsaves : host.saves = true) (hid : generateId host = some sid) (username ip : Str) :
    create host username ip (.start t) =
      (.returned (some sid),
        { tree := ((swept t).write (file sid)
            (host.encode (sessionData host sid username ip))).getD (swept t)
          data := AList.insert sid (sessionData host sid username ip) ∅ }) := by
  have hopen : (Store.start t).tree.opens dir = true := hdir
  rw [create, destroyAll, if_pos hopen, hid, hsaves]
  rfl

theorem length_bytes {host : Host} {n : ℕ} {data : Str} (h : Random.bytes host n = some data) :
    data.length = n := by
  rw [Random.bytes] at h
  split at h
  · cases h
  · obtain ⟨drawn, -, h⟩ := Option.bind_eq_some_iff.mp h
    split at h
    · rename_i hlen
      exact Option.some.inj h ▸ hlen
    · cases h

theorem generateId_of_create {host : Host} {username ip sid : Str} {st : Store}
    (h : (create host username ip st).1 = .returned (some sid)) : generateId host = some sid := by
  rw [create] at h
  split at h
  · cases h
  split at h
  · cases h
  · rename_i hid
    rw [hid]
    exact Call.returned.inj h

/-! ## Requests in between -/

/-- What a request that looks at its session leaves of the tree. -/
def visit (t : FileTree Str) (v : Host × Option Str) : FileTree Str :=
  (validate v.1 v.2 (.start t)).2.tree

/-- A visit removes at most one file, and only one with a record that has expired. -/
theorem visit_cases (t : FileTree Str) (v : Host × Option Str) :
    visit t v = t ∨ ∃ s c, t.read s = some c ∧ stale v.1 c = true ∧ visit t v = t.remove s := by
  rw [visit, validate]
  cases hcookie : getCookie v.2 with
  | none => exact Or.inl rfl
  | some sid =>
    by_cases hnil : sid = []
    · rw [hnil]
      exact Or.inl rfl
    · rw [read_tree v.1 hnil]
      cases hread : t.read (file sid) with
      | none => exact Or.inl rfl
      | some c =>
        rw [Option.any_some]
        by_cases hstale : stale v.1 c = true
        · rw [if_pos hstale]
          exact Or.inr ⟨file sid, c, hread, hstale, rfl⟩
        · rw [if_neg hstale]
          exact Or.inl rfl

theorem read_visit_none {t : FileTree Str} {s : Str} (h : t.read s = none)
    (v : Host × Option Str) : (visit t v).read s = none := by
  rcases visit_cases t v with hsame | ⟨s', c, -, -, hremove⟩
  · rw [hsame, h]
  · rw [hremove, Option.eq_none_iff_forall_ne_some]
    intro c' hc'
    rw [FileTree.read_of_read_remove hc'] at h
    cases h

/-- A record that has not expired survives a visit. -/
theorem read_visit_some {t : FileTree Str} {s content : Str} (h : t.read s = some content)
    {v : Host × Option Str} (hfresh : stale v.1 content = false) :
    (visit t v).read s = some content := by
  rcases visit_cases t v with hsame | ⟨s', c, hread, hstale, hremove⟩
  · rw [hsame, h]
  · rw [hremove]
    refine FileTree.read_remove_other hread h ?_
    rintro rfl
    rw [hfresh] at hstale
    cases hstale

theorem read_visits_none {t : FileTree Str} {s : Str} (h : t.read s = none)
    (visits : List (Host × Option Str)) : (run visit t visits).read s = none :=
  inv_run (I := fun t : FileTree Str => t.read s = none) (P := fun _ _ => True)
    (fun _ v ht _ => read_visit_none ht v) h (along_of_forall _ _ fun _ _ => trivial)

theorem read_visits_some {t : FileTree Str} {s content : Str} (h : t.read s = some content)
    {visits : List (Host × Option Str)} (hfresh : ∀ v ∈ visits, stale v.1 content = false) :
    (run visit t visits).read s = some content :=
  inv_run (I := fun t : FileTree Str => t.read s = some content)
    (P := fun _ v => stale v.1 content = false)
    (fun _ _ ht hv => read_visit_some ht hv) h (along_of_forall _ _ hfresh)

/-! ## The record in a later request -/

section Later

variable {host : Host} {sid username ip : Str}

theorem lapsed_sessionData (later : Host) : lapsed later (sessionData host sid username ip) =
    some (decide (host.now + TTL < later.now)) := rfl

/-- Within its time to live a record counts as valid. -/
theorem stale_sessionData {later : Host}
    (hjson : later.decode (host.encode (sessionData host sid username ip)) =
      some (sessionData host sid username ip)) (hnow : later.now ≤ host.now + TTL) :
    stale later (host.encode (sessionData host sid username ip)) = false := by
  have hlapsed : lapsed later (sessionData host sid username ip) = some false := by
    rw [lapsed_sessionData, decide_eq_false (not_lt_of_ge hnow)]
  rw [stale, hjson]
  show (lapsed later (sessionData host sid username ip) == some true) = false
  rw [hlapsed]
  rfl

theorem read_sessionData {later : Host} {t : FileTree Str} (hsid : sid ≠ [])
    (hread : t.read (file sid) = some (host.encode (sessionData host sid username ip)))
    (hjson : later.decode (host.encode (sessionData host sid username ip)) =
      some (sessionData host sid username ip)) (hnow : later.now ≤ host.now + TTL) :
    (read later sid (.start t)).1 = .returned (some (sessionData host sid username ip)) := by
  have hdata : (Store.start t).data.lookup sid = none := rfl
  have htree : (Store.start t).tree = t := rfl
  have hlapsed : lapsed later (sessionData host sid username ip) = some false := by
    rw [lapsed_sessionData, decide_eq_false (not_lt_of_ge hnow)]
  rw [read, if_neg hsid, hdata]
  dsimp only
  rw [readFile, htree, hread, Option.bind_some, hjson]
  show (conclude sid _ _ _ (lapsed later (sessionData host sid username ip))).1 = _
  rw [hlapsed]
  rfl

theorem read_of_none (later : Host) {t : FileTree Str} (hread : t.read (file sid) = none) :
    (read later sid (.start t)).1 = .returned none := by
  have hdata : (Store.start t).data.lookup sid = none := rfl
  have htree : (Store.start t).tree = t := rfl
  rw [read]
  split
  · rfl
  · rw [hdata]
    dsimp only
    rw [readFile, htree, hread]
    rfl

/-- A later request within the time to live finds the record of the session, whatever has
looked at sessions in between, exactly if the id is stored. -/
theorem session_read_back_iff {t : FileTree Str} {visits : List (Host × Option Str)}
    {later : Host} (hbase64 : host.encode_base64 = base64) (hsaves : host.saves = true)
    (hdir : t.opens dir = true)
    (hcreate : (create host username ip (.start t)).1 = .returned (some sid))
    (hvisits : ∀ v ∈ visits, v.1.now ≤ host.now + TTL ∧
      v.1.decode (host.encode (sessionData host sid username ip)) =
        some (sessionData host sid username ip))
    (hnow : later.now ≤ host.now + TTL)
    (hjson : later.decode (host.encode (sessionData host sid username ip)) =
      some (sessionData host sid username ip)) :
    (∃ d, (read later sid (.start (run visit (create host username ip (.start t)).2.tree
        visits))).1 = .returned (some d) ∧ d.get "username".toList = .leaf (.str username)) ↔
      Stores t sid := by
  have hid := generateId_of_create hcreate
  obtain ⟨bytes, hbytes, hsid⟩ := Option.map_eq_some_iff.mp hid
  rw [hbase64] at hsid
  have hdot : '.' ∉ sid := hsid ▸ dot_notMem_base64 bytes
  have hne : sid ≠ [] := by
    refine hsid ▸ base64_ne_nil ?_
    rintro rfl
    exact absurd (length_bytes hbytes) (by decide)
  rw [create_eq hdir hsaves hid, ← write_swept_iff t hdot
    (host.encode (sessionData host sid username ip))]
  dsimp only
  cases hwrite : (swept t).write (file sid) (host.encode (sessionData host sid username ip)) with
  | none =>
    have hnot : ¬ Stores t sid := by
      rw [← write_swept_iff t hdot (host.encode (sessionData host sid username ip)), hwrite]
      simp
    have hread := read_of_none later
      (read_visits_none (read_swept_of_not_stores hdot hnot) visits)
    rw [Option.getD_none, hread]
    simp
  | some t' =>
    refine iff_of_true ⟨_, read_sessionData hne (read_visits_some (FileTree.read_write hwrite)
      fun v hv => ?_) hjson hnow, rfl⟩ ⟨t', rfl⟩
    exact stale_sessionData (hvisits v hv).2 (hvisits v hv).1

end Later

/-! An id without a slash and one with a slash, on a server with an empty session
directory. -/

def drawing (bytes : Str) : Host where
  now := 1000
  decode := Doc.decode
  encode := Doc.encode
  sha1_bin := id
  encode_base64 := base64
  urandom := fun _ => some bytes
  date := "2024-01-01".toList
  saves := true

theorem decode_encode_sessionData {host : Host} {sid username ip : Str}
    (hnow : Doc.writableVal (.num host.now) = true)
    (hend : Doc.writableVal (.num (host.now + TTL)) = true) :
    Doc.decode (Doc.encode (sessionData host sid username ip)) =
      some (sessionData host sid username ip) := by
  refine Doc.decode_encode ?_
  simp only [sessionData, Doc.writable, Doc.writableFields, hnow, hend]
  rfl

theorem drawing_json (bytes : Str) : (drawing bytes).decode ((drawing bytes).encode
    (sessionData (drawing bytes) (base64 bytes) "admin".toList Login.launcherAddress)) =
    some (sessionData (drawing bytes) (base64 bytes) "admin".toList Login.launcherAddress) := by
  have hnow : Doc.writableVal (.num 1000) = true := by decide +kernel
  have hend : Doc.writableVal (.num (1000 + TTL)) = true := by decide +kernel
  exact decode_encode_sessionData hnow hend

abbrev created (bytes : Str) : Call (Option Str) × Store :=
  create (drawing bytes) "admin".toList Login.launcherAddress (.start Login.freshTree)

def plainBytes : Str := List.replicate 32 '\x00'

def slashBytes : Str := '\x00' :: '\x00' :: '\x3f' :: List.replicate 29 '\x00'

theorem plain_id_read_back :
    (created plainBytes).1 = .returned (some (base64 plainBytes)) ∧
      ∃ d, (read (drawing plainBytes) (base64 plainBytes)
        (.start (run visit (created plainBytes).2.tree
          [(drawing plainBytes, some "mkyboot_session=AAAA".toList)]))).1 = .returned (some d) ∧
        d.get "username".toList = .leaf (.str "admin".toList) := by
  have hcreate : (created plainBytes).1 = .returned (some (base64 plainBytes)) := by
    decide +kernel
  refine ⟨hcreate, (session_read_back_iff rfl rfl (by decide +kernel) hcreate ?_ (by decide +kernel)
    (drawing_json _)).mpr ?_⟩
  · intro v hv
    rw [List.mem_singleton.mp hv]
    exact ⟨by decide +kernel, drawing_json _⟩
  · exact ⟨dirPath ++ [base64 plainBytes ++ ".json".toList], by decide +kernel, by decide +kernel⟩

/-- `io.open` fails in the directory `sessions/AAA`, which is not there. -/
theorem slash_id_lost :
    base64 slashBytes = "AAA/AAAAAAAAAAAAAAAAAAAAAAAAAAAAAAAAAAAAAAA=".toList ∧
      (created slashBytes).1 = .returned (some (base64 slashBytes)) ∧
      (read (drawing slashBytes) (base64 slashBytes)
        (.start (created slashBytes).2.tree)).1 = .returned none :=
  ⟨by decide +kernel, by decide +kernel, read_of_none _ (by decide +kernel)⟩

end Session
end Control
end MkyBoot
