import MkyBoot.Control.Readback
import MkyBoot.Control.Tally
import MkyBoot.Machine.Window

/-!
# Lockout

Logins from any addresses are handled one after another on a clock that does not go
back.  `ratelimit.json` counts the failures of each address, locks an address at the
fifth one and forgets its entry at the first login after the lockout.  `tracks_step` says
that the entry and the recorded failures of an address move together, through the whole
handler and whatever fails to be saved; `lockout_bound` counts the failures in any window
and says that the other addresses do not matter.
-/

namespace MkyBoot
namespace Control
namespace Lockout

open Lua Posix Machine RateLimit Window
open Tally (edit Edit Entry load_save)

/-! ## Logins in turn -/

/-- A request to `?login=true`, and the host as it is while the request is handled. -/
structure Attempt where
  host : Host
  ip : Str
  body : Option Str

def answer (t : FileTree Str) (a : Attempt) : Call Str := (Login.login a.host t a.ip a.body).1

def step (t : FileTree Str) (a : Attempt) : FileTree Str := (Login.login a.host t a.ip a.body).2

/-- The tree when `is_locked` has returned. -/
def checked (t : FileTree Str) (a : Attempt) : FileTree Str := (isLocked a.host t a.ip).2

/-- `_save` reaches the disk. -/
def written (host : Host) (t : FileTree Str) (data : Attempts) : Bool :=
  host.saves && (t.write FILE (host.encode (.table data))).isSome

/-- The credentials are refused, and the attempts with this failure are on the disk. -/
def recorded (t : FileTree Str) (a : Attempt) : Bool :=
  decide (answer t a = .returned Login.invalidCredentials) &&
    (edit a.host ⟨.recordFailure, a.ip⟩ (load a.host (checked t a))).saved.any
      (written a.host (checked t a))

def failure (ip : Str) (t : FileTree Str) (a : Attempt) : Option ℚ :=
  if a.ip = ip ∧ recorded t a = true then some a.host.now else none

/-- The times of the failures of an address that a sequence of logins has recorded. -/
def failures (ip : Str) (t : FileTree Str) (as : List Attempt) : List ℚ :=
  (trace step (failure ip) t as).reduceOption

def entryOf (host : Host) (t : FileTree Str) (ip : Str) : Doc := (Doc.table (load host t)).get ip

/-- A program cannot tell the two values apart: tables may have their fields in another
order. -/
def Alike : Doc → Doc → Prop
  | .leaf v, .leaf w => v = w
  | .table fields, .table fields' => ∀ k, (Doc.table fields).get k = (Doc.table fields').get k
  | _, _ => False

/-- The json module reads attempts back with the same entries. -/
def ReadsBack (json host : Host) (data : Attempts) : Prop :=
  ∃ fields, json.decode (host.encode (.table data)) = some (.table fields) ∧
    ∀ ip, Alike ((Doc.table fields).get ip) ((Doc.table data).get ip)

/-- The requests share the json module and the base64 of nginx, and the module reads the
attempts back that a request may save. -/
structure Regular (json : Host) (t : FileTree Str) (a : Attempt) : Prop where
  decode : a.host.decode = json.decode
  base64 : a.host.encode_base64 = Session.base64
  reads : ∀ data ∈ [load json t, load json (checked t a)], ∀ op new,
    (edit a.host ⟨op, a.ip⟩ data).saved = some new → ReadsBack json a.host new

/-! ## The attempts after a call -/

theorem load_congr {h h' : Host} (hdecode : h.decode = h'.decode) (t : FileTree Str) :
    load h t = load h' t := by
  rw [load, load, hdecode]

theorem load_of_read {t t' : FileTree Str} (h : t'.read FILE = t.read FILE) (host : Host) :
    load host t' = load host t := by
  rw [load, load, h]

theorem save_of_not_written {host : Host} {t : FileTree Str} {data : Attempts}
    (h : written host t data = false) : save host t data = t := by
  rw [save]
  split
  · rename_i hsaves
    rw [written, hsaves, Bool.true_and, Option.isSome_eq_false_iff, Option.isNone_iff_eq_none] at h
    rw [h]
    rfl
  · rfl

theorem alike_refl (d : Doc) : Alike d d := by
  cases d with
  | leaf v => exact rfl
  | table fields => exact fun _ => rfl

theorem Alike.trans {d d' d'' : Doc} (h : Alike d d') (h' : Alike d' d'') : Alike d d'' := by
  cases d <;> cases d' <;> cases d''
  case leaf.leaf.leaf => exact Eq.trans h h'
  case table.table.table => exact fun k => (h k).trans (h' k)
  all_goals first | exact absurd h id | exact absurd h' id

theorem Alike.entry {d d' : Doc} {times : List ℚ} (h : Alike d' d) (hentry : Entry times d) :
    Entry times d' := by
  rw [Entry] at hentry ⊢
  cases hlast : times.getLast? with
  | none =>
    rw [hlast] at hentry
    rw [show d = .leaf .nil from hentry] at h
    cases d' with
    | leaf v => exact congrArg Doc.leaf h
    | table fields => exact absurd h id
  | some last =>
    rw [hlast] at hentry
    obtain ⟨fields, rfl, hcount, hlocked⟩ := hentry
    cases d' with
    | leaf v => exact absurd h id
    | table fields' => exact ⟨fields', rfl, (h _).trans hcount, (h _).trans hlocked⟩

theorem entryOf_written {json host : Host} {t : FileTree Str} {data : Attempts}
    (h : written host t data = true) (hjson : ReadsBack json host data) (ip : Str) :
    Alike (entryOf json (save host t data) ip) ((Doc.table data).get ip) := by
  rw [written, Bool.and_eq_true] at h
  obtain ⟨fields, hread, halike⟩ := hjson
  rw [entryOf, load_save h.1 h.2 hread]
  exact halike ip

/-- A call edits the entry of its own address. -/
theorem edit_other {host : Host} {r : Tally.Request} {data new : Attempts}
    (h : (edit host r data).saved = some new) {ip : Str} (hip : ip ≠ r.ip) :
    (Doc.table new).get ip = (Doc.table data).get ip := by
  obtain ⟨op, own⟩ := r
  rw [edit] at h
  split at h
  · exact absurd h (by simp [Edit.saved])
  · cases op with
    | recordFailure =>
      simp only [Tally.recordEdit] at h
      split at h
      · exact absurd h (by simp [Edit.saved])
      · split at h
        · exact absurd h (by simp [Edit.saved])
        · rw [← Option.some.inj h, get_set_of_ne _ hip]
    | isLocked => rw [Tally.lockEdit_saved h, get_unset_of_ne _ hip]
    | clear => rw [← Option.some.inj h, get_unset_of_ne _ hip]

theorem entryOf_commit_other {json host : Host} {t : FileTree Str} {r : Tally.Request}
    (hdecode : host.decode = json.decode)
    (hreads : ∀ new, (edit host r (load host t)).saved = some new → ReadsBack json host new)
    {ip : Str} (hip : ip ≠ r.ip) :
    Alike (entryOf json ((edit host r (load host t)).commit host t) ip) (entryOf json t ip) := by
  rw [Edit.commit]
  cases hsaved : (edit host r (load host t)).saved with
  | none => exact alike_refl _
  | some new =>
    rw [Option.elim_some]
    by_cases hw : written host t new = true
    · have hentry : (Doc.table new).get ip = entryOf json t ip := by
        rw [edit_other hsaved hip, entryOf, load_congr hdecode]
      exact hentry ▸ entryOf_written hw (hreads new hsaved) ip
    · rw [save_of_not_written (Bool.eq_false_iff.mpr hw)]
      exact alike_refl _

/-! ## The sessions lie elsewhere -/

/-- The place `ratelimit.FILE` names. -/
def filePath : Path := ["srv".toList, "mkyboot".toList, "cfg".toList, "ratelimit.json".toList]

theorem read_FILE_congr {t t' : FileTree Str} (h : t'.lookup filePath = t.lookup filePath) :
    t'.read FILE = t.read FILE := by
  have hparts : FILE.splitOn '/' = [] :: filePath := by decide
  exact FileTree.read_plain_congr hparts (by decide) (by decide) h

/-- A pathname below `session.dir` without `..` is not that of the attempts. -/
theorem placeOf_ne_filePath {x : Str} (h : ['.', '.'] ∉ x.splitOn '/') :
    FileTree.placeOf (Session.dir ++ '/' :: x) ≠ filePath := by
  have hdir : (Session.dir.splitOn '/').foldl FileTree.place [] = Session.dirPath := by decide
  have hprefix : Session.dirPath <+: FileTree.placeOf (Session.dir ++ '/' :: x) := by
    rw [FileTree.placeOf, List.splitOn_append_cons_self, List.foldl_append, hdir]
    exact FileTree.prefix_foldl_place h _
  intro e
  rw [e] at hprefix
  exact absurd hprefix (by decide)

theorem dots_notMem_name {n : Name} (hslash : '/' ∉ n) (hjson : ".json".toList <:+ n) :
    ['.', '.'] ∉ n.splitOn '/' := by
  rw [List.splitOn_eq_singleton hslash, List.mem_singleton]
  rintro rfl
  exact absurd hjson (by decide)

theorem dots_notMem_id {sid : Str} (hdot : '.' ∉ sid) :
    ['.', '.'] ∉ (sid ++ ".json".toList).splitOn '/' := by
  have hslash : ∀ c ∈ ".json".toList, (c == '/') = false := by decide
  obtain ⟨init, last, hsid, hjson⟩ := splitOnP_append hslash sid
  intro h
  have h' : ['.', '.'] ∈ init ++ [last ++ ".json".toList] := hjson ▸ h
  rcases List.mem_append.mp h' with h | h
  · have hpart : ['.', '.'] ∈ sid.splitOnP (· == '/') := hsid ▸ List.mem_append_left _ h
    exact hdot (mem_of_mem_splitOnP hpart List.mem_cons_self).1
  · have hlen := congrArg List.length (List.mem_singleton.mp h)
    rw [List.length_append] at hlen
    exact absurd hlen (by simp)

/-- A tree whose attempts are those of another one. -/
structure SameFile (t t' : FileTree Str) : Prop where
  read : t'.read FILE = t.read FILE
  slashless : t'.Slashless

theorem sameFile_swept {t : FileTree Str} (h : t.Slashless) : SameFile t (Session.swept t) := by
  have hfold : ∀ (names : List Name) (t' : FileTree Str), SameFile t t' →
      (∀ n ∈ names, ['.', '.'] ∉ n.splitOn '/') →
      SameFile t (names.foldl (fun t n => t.remove (Session.dir ++ "/".toList ++ n)) t') := by
    intro names
    induction names with
    | nil => exact fun t' ht' _ => ht'
    | cons n names ih =>
      intro t' ht' hnames
      have hne : FileTree.placeOf (Session.dir ++ "/".toList ++ n) ≠ filePath := by
        rw [List.append_assoc]
        exact placeOf_ne_filePath (hnames n List.mem_cons_self)
      have hremove : SameFile t (t'.remove (Session.dir ++ "/".toList ++ n)) :=
        ⟨(read_FILE_congr (FileTree.lookup_remove_of_ne t' hne)).trans ht'.read,
          ht'.slashless.remove _⟩
      exact ih _ hremove fun m hm => hnames m (List.mem_cons_of_mem n hm)
  refine hfold _ t ⟨rfl, h⟩ fun n hn => ?_
  obtain ⟨hentry, hjson⟩ := List.mem_filter.mp hn
  exact dots_notMem_name (h.entries hentry) (List.isSuffixOf_iff_suffix.mp hjson)

/-- `session.create` leaves the attempts alone. -/
theorem sameFile_create {host : Host} {t : FileTree Str} (h : t.Slashless)
    (hbase64 : host.encode_base64 = Session.base64) (username ip : Str) :
    SameFile t (Session.create host username ip (.start t)).2.tree := by
  rw [Session.create, Session.destroyAll]
  split
  · rename_i hraised
    exact ⟨rfl, h⟩
  · rename_i st hswept
    have hst : st.tree = Session.swept t := by
      split at hswept
      · rw [← Call.returned.inj hswept]
        rfl
      · cases hswept
    have hsame : SameFile t st.tree := hst ▸ sameFile_swept h
    split
    · exact hsame
    · rename_i sid hid
      dsimp only
      split
      · cases hwrite : st.tree.write (Session.file sid)
            (host.encode (Session.sessionData host sid username ip)) with
        | none => exact hsame
        | some t' =>
          obtain ⟨bytes, -, rfl⟩ := Option.map_eq_some_iff.mp hid
          have hne : FileTree.placeOf (Session.file (host.encode_base64 bytes)) ≠ filePath := by
            rw [Session.file_eq, hbase64]
            exact placeOf_ne_filePath (dots_notMem_id (Session.dot_notMem_base64 bytes))
          exact ⟨(read_FILE_congr (FileTree.lookup_write_of_ne hwrite hne)).trans hsame.read,
            hsame.slashless.write hwrite⟩
      · exact hsame

theorem slashless_save {t : FileTree Str} (h : t.Slashless) (host : Host) (data : Attempts) :
    (save host t data).Slashless := by
  rcases save_cases host t data with hsame | ⟨c, hwrite⟩
  · rw [hsame]
    exact h
  · exact h.write hwrite

theorem slashless_commit {t : FileTree Str} (h : t.Slashless) (host : Host) (e : Edit) :
    (e.commit host t).Slashless := by
  rw [Edit.commit]
  cases e.saved with
  | none => exact h
  | some data => exact slashless_save h host data

/-! ## What a login does -/

/-- The tree after `session.create`. -/
def opened (t : FileTree Str) (a : Attempt) (user : Str) : FileTree Str :=
  (Session.create a.host user a.ip (.start t)).2.tree

theorem openSession_cases (t : FileTree Str) (a : Attempt) (user : Str) :
    (∃ c, Login.openSession a.host t a.ip user = (c, opened t a user) ∧
      c ≠ .returned Login.invalidCredentials) ∨
    Login.openSession a.host t a.ip user =
      (.returned "OK".toList, clear a.host (opened t a user) a.ip) := by
  rw [Login.openSession, opened]
  rcases Session.create a.host user a.ip (.start t) with ⟨result, st⟩
  cases result with
  | raised => exact Or.inl ⟨_, rfl, by decide⟩
  | returned sid =>
    cases sid with
    | none => exact Or.inl ⟨_, rfl, by decide⟩
    | some sid => exact Or.inr rfl

theorem loginWith_cases (host : Host) (t : FileTree Str) (ip login pass : Str) :
    (∃ c, Login.loginWith host t ip login pass = (c, t) ∧ c ≠ .returned Login.invalidCredentials) ∨
    Login.loginWith host t ip login pass = Login.refuse host t ip ∨
    Login.loginWith host t ip login pass = Login.openSession host t ip login := by
  rw [Login.loginWith]
  split
  · exact Or.inl ⟨_, rfl, by decide⟩
  split
  · exact Or.inr (Or.inl rfl)
  split
  · exact Or.inl ⟨_, rfl, by decide⟩
  · exact Or.inr (Or.inr rfl)
  · exact Or.inr (Or.inl rfl)

/-- After `is_locked` a login leaves the tree, or records a failure, or opens a session. -/
theorem login_cases (t : FileTree Str) (a : Attempt) :
    (answer t a ≠ .returned Login.invalidCredentials ∧ step t a = checked t a) ∨
    ((isLocked a.host t a.ip).1 = .returned false ∧
      (Login.login a.host t a.ip a.body = Login.refuse a.host (checked t a) a.ip ∨
      ∃ user, Login.login a.host t a.ip a.body =
        Login.openSession a.host (checked t a) a.ip user)) := by
  have hplain (c : Call Str) (h : Login.login a.host t a.ip a.body = (c, checked t a))
      (hc : c ≠ .returned Login.invalidCredentials) :
      answer t a ≠ .returned Login.invalidCredentials ∧ step t a = checked t a := by
    rw [answer, step, h]
    exact ⟨hc, rfl⟩
  have hlogin := Login.login.eq_def a.host t a.ip a.body
  rw [checked] at hplain ⊢
  rcases hlocked : isLocked a.host t a.ip with ⟨locked, t'⟩
  rw [hlocked] at hlogin hplain
  cases locked with
  | raised => exact Or.inl (hplain _ hlogin (by decide))
  | returned locked =>
    cases locked with
    | true => exact Or.inl (hplain _ hlogin (by decide))
    | false =>
      dsimp only at hlogin hplain ⊢
      split at hlogin
      · exact Or.inl (hplain _ hlogin (by decide))
      split at hlogin
      · rename_i user pass _ _
        rcases loginWith_cases a.host t' a.ip user pass with ⟨c, h, hc⟩ | h | h
        · exact Or.inl (hplain c (hlogin.trans h) hc)
        · exact Or.inr ⟨rfl, Or.inl (hlogin.trans h)⟩
        · exact Or.inr ⟨rfl, Or.inr ⟨user, hlogin.trans h⟩⟩
      · exact Or.inl (hplain _ hlogin (by decide))

/-! ## The other addresses -/

section Other

variable {json : Host} {t : FileTree Str} {a : Attempt}

/-- Whatever is saved to a tree with these attempts reads back. -/
theorem Regular.reads_of_load (h : Regular json t a) {t' : FileTree Str}
    (ht' : load json t' ∈ [load json t, load json (checked t a)]) (op : Tally.Op)
    {new : Attempts} (hsaved : (edit a.host ⟨op, a.ip⟩ (load a.host t')).saved = some new) :
    ReadsBack json a.host new := by
  rw [load_congr h.decode] at hsaved
  exact h.reads _ ht' op new hsaved

theorem slashless_checked (hslash : t.Slashless) : (checked t a).Slashless := by
  rw [checked, Tally.isLocked_eq]
  exact slashless_commit hslash _ _

theorem Regular.entryOf_checked (h : Regular json t a) {ip : Str} (hip : ip ≠ a.ip) :
    Alike (entryOf json (checked t a) ip) (entryOf json t ip) := by
  rw [checked, Tally.isLocked_eq]
  exact entryOf_commit_other h.decode
    (fun new hsaved => h.reads_of_load List.mem_cons_self .isLocked hsaved) hip

theorem refuse_snd (host : Host) (t : FileTree Str) (ip : Str) :
    (Login.refuse host t ip).2 = (recordFailure host t ip).2 := by
  rw [Login.refuse]
  split
  · rename_i h
    rw [h]
  · rename_i h
    rw [h]

theorem sameFile_opened (h : Regular json t a) (hslash : t.Slashless) (user : Str) :
    SameFile (checked t a) (opened (checked t a) a user) :=
  sameFile_create (slashless_checked hslash) h.base64 user a.ip

/-- The tree before the last call of a login, and what the call makes of it. -/
theorem step_cases (h : Regular json t a) (hslash : t.Slashless) :
    ∃ t', SameFile (checked t a) t' ∧ (step t a = t' ∨
      ∃ op, step t a = (edit a.host ⟨op, a.ip⟩ (load a.host t')).commit a.host t') := by
  have hself : SameFile (checked t a) (checked t a) := ⟨rfl, slashless_checked hslash⟩
  rcases login_cases t a with ⟨-, hstep⟩ | ⟨-, hrefuse | ⟨user, hopen⟩⟩
  · exact ⟨_, hself, Or.inl hstep⟩
  · refine ⟨_, hself, Or.inr ⟨.recordFailure, ?_⟩⟩
    rw [step, hrefuse, refuse_snd, Tally.recordFailure_eq]
  · refine ⟨opened (checked t a) a user, sameFile_opened h hslash user, ?_⟩
    rcases openSession_cases (checked t a) a user with ⟨c, hsession, -⟩ | hsession
    · left
      rw [step, hopen, hsession]
    · refine Or.inr ⟨.clear, ?_⟩
      rw [step, hopen, hsession, Tally.clear_eq]

theorem slashless_step (h : Regular json t a) (hslash : t.Slashless) : (step t a).Slashless := by
  obtain ⟨t', hsame, hstep | ⟨op, hstep⟩⟩ := step_cases h hslash
  · exact hstep ▸ hsame.slashless
  · exact hstep ▸ slashless_commit hsame.slashless _ _

/-- A login leaves the entries of the other addresses. -/
theorem entryOf_step_other (h : Regular json t a) (hslash : t.Slashless) {ip : Str}
    (hip : ip ≠ a.ip) : Alike (entryOf json (step t a) ip) (entryOf json t ip) := by
  obtain ⟨t', hsame, hstep⟩ := step_cases h hslash
  have hload : load json t' = load json (checked t a) := load_of_read hsame.read json
  have hbefore : Alike (entryOf json t' ip) (entryOf json t ip) := by
    rw [entryOf, hload]
    exact h.entryOf_checked hip
  refine Alike.trans ?_ hbefore
  rcases hstep with hstep | ⟨op, hstep⟩
  · rw [hstep]
    exact alike_refl _
  · rw [hstep]
    have hmem : load json t' ∈ [load json t, load json (checked t a)] :=
      hload ▸ List.mem_cons_of_mem _ List.mem_cons_self
    exact entryOf_commit_other h.decode (fun new hsaved => h.reads_of_load hmem op hsaved) hip

end Other

/-! ## Whether an address is locked -/

/-- Whether an address is locked is read off its entry. -/
theorem isLocked_congr {host : Host} {t t' : FileTree Str} {ip : Str}
    (h : Alike (entryOf host t' ip) (entryOf host t ip)) :
    (isLocked host t' ip).1 = (isLocked host t ip).1 := by
  rw [isLocked, isLocked]
  dsimp only
  rw [entryOf, entryOf] at h
  generalize (Doc.table (load host t')).get ip = entry' at h ⊢
  generalize (Doc.table (load host t)).get ip = entry at h ⊢
  have hfalse : isFalse entry' = isFalse entry ∧
      index entry' "locked_until".toList = index entry "locked_until".toList := by
    cases entry' <;> cases entry
    case leaf.leaf v w => exact ⟨by rw [show v = w from h], by rw [show v = w from h]⟩
    case table.table => exact ⟨rfl, congrArg some (h _)⟩
    all_goals exact absurd h id
  rw [hfalse.1, hfalse.2]
  split
  · rfl
  split
  · rfl
  cases index entry "locked_until".toList with
  | none => rfl
  | some deadline =>
    dsimp only
    split
    · rfl
    rw [checkDeadline, checkDeadline]
    cases deadline.val with
    | num q =>
      dsimp only
      split
      · rfl
      · rfl
    | nil | bool _ | str _ | other => rfl

/-- An address is locked, or it has room for another failure, or its lockout is over and
its entry is taken out. -/
theorem isLocked_of_entry {host : Host} {t : FileTree Str} {ip : Str} {times : List ℚ}
    (hip : ip ≠ []) (h : Entry times (entryOf host t ip)) :
    isLocked host t ip = (.returned true, t) ∨
    (isLocked host t ip = (.returned false, t) ∧ times.length < MAX_ATTEMPTS) ∨
    (isLocked host t ip = (.returned false, save host t (unset (load host t) ip)) ∧
      ∃ last, times.getLast? = some last ∧ last + LOCKOUT_SECONDS ≤ host.now) := by
  rw [Entry] at h
  cases hlast : times.getLast? with
  | none =>
    rw [hlast] at h
    rw [List.getLast?_eq_none_iff.mp hlast]
    have hentry : (Doc.table (load host t)).get ip = .leaf .nil := h
    refine Or.inr (Or.inl ⟨?_, by decide⟩)
    rw [isLocked, if_neg hip, hentry]
    rfl
  | some last =>
    rw [hlast] at h
    obtain ⟨fields, hfields, -, hlocked⟩ := h
    have hentry : (Doc.table (load host t)).get ip = .table fields := hfields
    have hindex : index (.table fields) "locked_until".toList =
        some ((Doc.table fields).get "locked_until".toList) := rfl
    have htable : ¬ isFalse (.table fields) = true := Bool.false_ne_true
    have hnum : ¬ isFalse (.leaf (.num (last + LOCKOUT_SECONDS))) = true := Bool.false_ne_true
    rw [isLocked, if_neg hip, hentry]
    dsimp only
    rw [if_neg htable, hindex, hlocked]
    dsimp only
    by_cases hmax : MAX_ATTEMPTS ≤ times.length
    · rw [if_pos hmax, if_neg hnum, checkDeadline, Doc.val]
      dsimp only
      by_cases hnow : host.now < last + LOCKOUT_SECONDS
      · rw [if_pos hnow]
        exact Or.inl rfl
      · rw [if_neg hnow]
        exact Or.inr (Or.inr ⟨rfl, last, rfl, not_lt.mp hnow⟩)
    · rw [if_neg hmax]
      exact Or.inr (Or.inl ⟨rfl, not_le.mp hmax⟩)

/-! ## The own address -/

section Own

variable {json : Host} {t : FileTree Str} {a : Attempt} {past times : List ℚ}

/-- What the entry of an address counts, at the clock of a request. -/
structure Tracks (json : Host) (t : FileTree Str) (ip : Str) (clock : ℚ)
    (past times : List ℚ) : Prop where
  entry : Entry times (entryOf json t ip)
  counted : Counted MAX_ATTEMPTS (LOCKOUT_SECONDS : ℚ) clock past times

/-- A request that `is_locked` lets go on may fail. -/
theorem tracks_checked (h : Regular json t a) (hip : a.ip ≠ [])
    (htracks : Tracks json t a.ip a.host.now past times) :
    ((isLocked a.host t a.ip).1 = .returned true ∧ checked t a = t) ∨
    ∃ times', Tracks json (checked t a) a.ip a.host.now past times' ∧
      (times'.length < MAX_ATTEMPTS ∨ Lapsed (LOCKOUT_SECONDS : ℚ) a.host.now times') := by
  have hload : load a.host t = load json t := load_congr h.decode t
  have hentry : Entry times (entryOf a.host t a.ip) := by
    rw [entryOf, hload]
    exact htracks.entry
  rw [checked]
  rcases isLocked_of_entry hip hentry with
    hlocked | ⟨hlocked, hroom⟩ | ⟨hlocked, last, hlast, hspan⟩
  · rw [hlocked]
    exact Or.inl ⟨rfl, rfl⟩
  · rw [hlocked]
    exact Or.inr ⟨times, htracks, Or.inl hroom⟩
  · have hlapsed := htracks.counted.lapsed hlast hspan
    have hsaved : (edit a.host ⟨.clear, a.ip⟩ (load json t)).saved =
        some (unset (load json t) a.ip) := by
      rw [edit, if_neg hip]
      rfl
    have hjson := h.reads _ List.mem_cons_self _ _ hsaved
    rw [hlocked, hload]
    right
    by_cases hw : written a.host t (unset (load json t) a.ip) = true
    · refine ⟨[], ⟨?_, htracks.counted.forget hlapsed⟩, Or.inl (by decide)⟩
      refine (entryOf_written hw hjson a.ip).entry ?_
      rw [get_unset_self]
      rfl
    · rw [save_of_not_written (Bool.eq_false_iff.mpr hw)]
      exact ⟨times, htracks, Or.inr hlapsed⟩

theorem recordFailure_saves {host : Host} {t : FileTree Str} {ip : Str} {new : Attempts}
    (h : edit host ⟨.recordFailure, ip⟩ (load host t) = .saves new) :
    recordFailure host t ip = (.returned (), save host t new) := by
  unfold edit at h
  unfold recordFailure
  dsimp only at h ⊢
  by_cases hip : ip = []
  · rw [if_pos hip] at h
    cases h
  · rw [if_neg hip] at h ⊢
    unfold Tally.recordEdit at h
    dsimp only at h ⊢
    generalize (if isFalse ((Doc.table (load host t)).get ip) then _ else _ : Doc) = entry at h ⊢
    cases entry with
    | leaf v => cases h
    | table fields =>
      dsimp only at h ⊢
      generalize tonumber ((Doc.table fields).get "count".toList).val = count at h ⊢
      cases count with
      | none => cases h
      | some count =>
        dsimp only at h ⊢
        rw [Edit.saves.inj h]

theorem failure_eq_none (ip : Str) (h : answer t a ≠ .returned Login.invalidCredentials) :
    failure ip t a = none := by
  rw [failure, recorded, decide_eq_false h]
  exact if_neg fun hboth => absurd hboth.2 (by simp)

/-- A refused login is recorded exactly if the attempts are written. -/
theorem failure_refused {new : Attempts} (hanswer : answer t a = .returned Login.invalidCredentials)
    (hedit : edit a.host ⟨.recordFailure, a.ip⟩ (load a.host (checked t a)) = .saves new) :
    failure a.ip t a =
      if written a.host (checked t a) new = true then some a.host.now else none := by
  have hrecorded : recorded t a = written a.host (checked t a) new := by
    rw [recorded, decide_eq_true hanswer, hedit]
    rfl
  rw [failure, hrecorded]
  simp

/-- A refused login moves the entry and the record of its address together. -/
theorem tracks_refused (h : Regular json t a) (hip : a.ip ≠ [])
    (hrefuse : Login.login a.host t a.ip a.body = Login.refuse a.host (checked t a) a.ip)
    (htracks : Tracks json (checked t a) a.ip a.host.now past times)
    (hfree : times.length < MAX_ATTEMPTS ∨ Lapsed (LOCKOUT_SECONDS : ℚ) a.host.now times) :
    ∃ times',
      Tracks json (step t a) a.ip a.host.now (past ++ (failure a.ip t a).toList) times' := by
  have hentry : Entry times ((Doc.table (load a.host (checked t a))).get a.ip) := by
    rw [load_congr h.decode]
    exact htracks.entry
  obtain ⟨entry, hsaves, hnew⟩ := Tally.recordEdit_saves a.host hentry
  have hedit : edit a.host ⟨.recordFailure, a.ip⟩ (load a.host (checked t a)) =
      .saves (set (load a.host (checked t a)) a.ip entry) := by
    rw [edit, if_neg hip]
    exact hsaves
  have hlogin : Login.login a.host t a.ip a.body = (.returned Login.invalidCredentials,
      save a.host (checked t a) (set (load a.host (checked t a)) a.ip entry)) := by
    rw [hrefuse, Login.refuse, recordFailure_saves hedit]
  have hanswer : answer t a = .returned Login.invalidCredentials := by rw [answer, hlogin]
  rw [failure_refused hanswer hedit, step, hlogin]
  by_cases hw : written a.host (checked t a) (set (load a.host (checked t a)) a.ip entry) = true
  · have hjson := h.reads_of_load (List.mem_cons_of_mem _ List.mem_cons_self) .recordFailure
      (congrArg Edit.saved hedit)
    rw [if_pos hw, Option.toList_some]
    refine ⟨times ++ [a.host.now], ?_, htracks.counted.add (by decide) hfree⟩
    refine (entryOf_written hw hjson a.ip).entry ?_
    rw [get_set_self]
    exact hnew
  · rw [if_neg hw, Option.toList_none, List.append_nil,
      save_of_not_written (Bool.eq_false_iff.mpr hw)]
    exact ⟨times, htracks⟩

/-- A login that does not succeed keeps the entry of its address in step with the record. -/
theorem tracks_step (h : Regular json t a) (hslash : t.Slashless) (hip : a.ip ≠ [])
    (hfails : answer t a ≠ .returned "OK".toList)
    (htracks : Tracks json t a.ip a.host.now past times) :
    ∃ times',
      Tracks json (step t a) a.ip a.host.now (past ++ (failure a.ip t a).toList) times' := by
  rcases tracks_checked h hip htracks with ⟨hlocked, hsame⟩ | ⟨times', hchecked, hfree⟩
  · rcases login_cases t a with ⟨hanswer, hstep⟩ | ⟨hunlocked, -⟩
    · rw [failure_eq_none a.ip hanswer, hstep, hsame, Option.toList_none, List.append_nil]
      exact ⟨times, htracks⟩
    · rw [hlocked] at hunlocked
      cases hunlocked
  · rcases login_cases t a with ⟨hanswer, hstep⟩ | ⟨-, hrefuse | ⟨user, hopen⟩⟩
    · rw [failure_eq_none a.ip hanswer, hstep, Option.toList_none, List.append_nil]
      exact ⟨times', hchecked⟩
    · exact tracks_refused h hip hrefuse hchecked hfree
    · rcases openSession_cases (checked t a) a user with ⟨c, hsession, hc⟩ | hsession
      · have hanswer : answer t a ≠ .returned Login.invalidCredentials := by
          rw [answer, hopen, hsession]
          exact hc
        rw [failure_eq_none a.ip hanswer, step, hopen, hsession, Option.toList_none,
          List.append_nil]
        refine ⟨times', ?_, hchecked.counted⟩
        rw [entryOf, load_of_read (sameFile_opened h hslash user).read json]
        exact hchecked.entry
      · rw [answer, hopen, hsession] at hfails
        exact absurd rfl hfails

end Own

/-! ## Sequences of logins -/

theorem failures_cons (ip : Str) (t : FileTree Str) (a : Attempt) (as : List Attempt) :
    failures ip t (a :: as) = (failure ip t a).toList ++ failures ip (step t a) as := by
  rw [failures, trace, failures]
  cases failure ip t a with
  | none => rfl
  | some time => rfl

/-- No login of this address succeeds. -/
def Fails (ip : Str) (t : FileTree Str) (a : Attempt) : Prop :=
  a.ip = ip → answer t a ≠ .returned "OK".toList

instance (ip : Str) (t : FileTree Str) (a : Attempt) : Decidable (Fails ip t a) :=
  inferInstanceAs (Decidable (_ → _))

theorem tracks_run {json : Host} {ip : Str} (hip : ip ≠ []) {as : List Attempt} {t : FileTree Str}
    {clock : ℚ} {past times : List ℚ} (hslash : t.Slashless)
    (htracks : Tracks json t ip clock past times)
    (hclock : (clock :: as.map (·.host.now)).Pairwise (· ≤ ·))
    (hregular : Along step (Regular json) t as) (hfails : Along step (Fails ip) t as) :
    Sparse MAX_ATTEMPTS (LOCKOUT_SECONDS : ℚ) (past ++ failures ip t as) := by
  induction as generalizing t clock past times with
  | nil =>
    rw [failures, trace, List.reduceOption_nil, List.append_nil]
    exact htracks.counted.sparse
  | cons a as ih =>
    obtain ⟨ha, hregular⟩ := hregular
    obtain ⟨hfail, hfails⟩ := hfails
    rw [List.map_cons, List.pairwise_cons] at hclock
    obtain ⟨hle, hclock⟩ := hclock
    have hnow : Tracks json t ip a.host.now past times :=
      ⟨htracks.entry, htracks.counted.tick (hle _ List.mem_cons_self)⟩
    have hslash' := slashless_step ha hslash
    have hnext : ∃ times', Tracks json (step t a) ip a.host.now
        (past ++ (failure ip t a).toList) times' := by
      by_cases hown : a.ip = ip
      · subst hown
        exact tracks_step ha hslash hip (hfail rfl) hnow
      · have hnone : failure ip t a = none := if_neg fun h => hown h.1
        rw [hnone, Option.toList_none, List.append_nil]
        exact ⟨times, (entryOf_step_other ha hslash (Ne.symm hown)).entry hnow.entry, hnow.counted⟩
    obtain ⟨times', hnext⟩ := hnext
    rw [failures_cons, ← List.append_assoc]
    exact ih hslash' hnext hclock hregular hfails

/-- No failure is recorded without an address. -/
theorem failures_nil (t : FileTree Str) (as : List Attempt) : failures [] t as = [] := by
  induction as generalizing t with
  | nil => rfl
  | cons a as ih =>
    have hnone : failure [] t a = none := by
      refine if_neg fun h => ?_
      have hrecorded := h.2
      rw [recorded, edit, if_pos h.1] at hrecorded
      exact absurd hrecorded (by simp [Edit.saved])
    rw [failures_cons, hnone, ih]
    rfl

/-- A login from elsewhere leaves whether this address is locked. -/
def Unmoved (json : Host) (ip : Str) (t : FileTree Str) (a : Attempt) : Prop :=
  a.ip ≠ ip → ∀ host : Host, host.decode = json.decode →
    (isLocked host (step t a) ip).1 = (isLocked host t ip).1

theorem unmoved_of_regular {json : Host} {t : FileTree Str} {a : Attempt} (h : Regular json t a)
    (hslash : t.Slashless) (ip : Str) : Unmoved json ip t a := by
  intro hother host hdecode
  refine isLocked_congr ?_
  rw [entryOf, entryOf, load_congr hdecode, load_congr hdecode]
  exact entryOf_step_other h hslash (Ne.symm hother)

/-- For an address without an entry at the beginning whose logins all fail, no window of
`LOCKOUT_SECONDS` holds more than `MAX_ATTEMPTS` recorded failures, and the logins from
other addresses never change whether it is locked. -/
theorem lockout_bound {json : Host} {t : FileTree Str} {ip : Str} {as : List Attempt}
    (hslash : t.Slashless) (hregular : Along step (Regular json) t as)
    (hclock : (as.map (·.host.now)).Pairwise (· ≤ ·)) (hnew : entryOf json t ip = .leaf .nil)
    (hfails : Along step (Fails ip) t as) :
    (∀ a, (within (LOCKOUT_SECONDS : ℚ) a (failures ip t as)).length ≤ MAX_ATTEMPTS) ∧
      Along step (Unmoved json ip) t as := by
  refine ⟨?_, along_of_along (fun t a hslash h => slashless_step h hslash)
    (fun t a hslash h => unmoved_of_regular h hslash ip) hslash hregular⟩
  by_cases hip : ip = []
  · intro a
    rw [hip, failures_nil]
    exact Nat.zero_le _
  · cases as with
    | nil => exact fun a => Nat.zero_le _
    | cons a as =>
      have htracks : Tracks json t ip a.host.now [] [] := ⟨hnew, Counted.nil _⟩
      refine tracks_run hip hslash htracks (List.pairwise_cons.mpr ⟨fun x hx => ?_, hclock⟩)
        hregular hfails
      rcases List.mem_cons.mp hx with rfl | hx
      · exact le_rfl
      · exact (List.pairwise_cons.mp hclock).1 x hx

/-! Five failed logins of one address, a sixth one while it is locked, one of another address,
and one when the lockout is over. -/

def elsewhere : Str := "192.168.0.7".toList

def client (now : ℚ) : Host where
  now := now
  decode := Doc.decode
  encode := Doc.encode
  sha1_bin := fun _ => []
  encode_base64 := Session.base64
  urandom := fun _ => none
  date := "2024-01-01".toList
  saves := true

def credential : Doc :=
  Auth.authData (client 0) "admin".toList (hexText (List.replicate 20 'a'))
    (hexText (List.replicate 64 '0'))

def configured : FileTree Str :=
  (Login.freshTree.write Auth.file (Doc.encode credential)).getD Login.freshTree

def guess (now : ℚ) (ip : Str) : Attempt := ⟨client now, ip, some "login=root&pass=guess".toList⟩

def guesses : List Attempt :=
  [1000, 1010, 1020, 1030, 1040, 1050].map (guess · Tally.address) ++
    [guess 1060 elsewhere, guess 1340 Tally.address]

theorem slashless_configured : configured.Slashless := by
  have hkeys : ∀ p ∈ configured.nodes.keys, ∀ n ∈ p, '/' ∉ n := by decide +kernel
  exact FileTree.slashless_of_keys hkeys

/-- Whatever the request may save can be written. -/
def savesWritable (t : FileTree Str) (a : Attempt) : Bool :=
  [load (client 0) t, load (client 0) (checked t a)].all fun data =>
    [.recordFailure, .isLocked, .clear].all fun op =>
      ((edit a.host ⟨op, a.ip⟩ data).saved).all fun new => (Doc.table new).writable

theorem regular_guess {t : FileTree Str} {now : ℚ} {ip : Str}
    (h : savesWritable t (guess now ip) = true) : Regular (client 0) t (guess now ip) where
  decode := rfl
  base64 := rfl
  reads := by
    intro data hdata op new hsaved
    have hop : op ∈ [.recordFailure, .isLocked, .clear] := by cases op <;> simp
    have hall := List.all_eq_true.mp (List.all_eq_true.mp h data hdata) op hop
    rw [hsaved] at hall
    exact ⟨new, Doc.decode_encode hall, fun _ => alike_refl _⟩

theorem guesses_bounded :
    failures Tally.address configured guesses = [1000, 1010, 1020, 1030, 1040, 1340] ∧
      (isLocked (client 1050) (run step configured (guesses.take 5)) Tally.address).1 =
        .returned true ∧
      (∀ a, (within (LOCKOUT_SECONDS : ℚ) a (failures Tally.address configured guesses)).length ≤
        MAX_ATTEMPTS) ∧
      Along step (Unmoved (client 0) Tally.address) configured guesses := by
  have hguess : ∀ a ∈ guesses, ∃ now ip, a = guess now ip := by
    intro a ha
    rcases List.mem_append.mp ha with ha | ha
    · obtain ⟨now, -, rfl⟩ := List.mem_map.mp ha
      exact ⟨now, _, rfl⟩
    · simp only [List.mem_cons, List.not_mem_nil, or_false] at ha
      obtain rfl | rfl := ha
      · exact ⟨_, _, rfl⟩
      · exact ⟨_, _, rfl⟩
  have hwritable : Along step (fun t a => savesWritable t a = true) configured guesses := by
    decide +kernel
  have hregular : Along step (Regular (client 0)) configured guesses := by
    refine along_of_along (I := fun _ => True) (fun _ _ _ _ => trivial) (fun t a _ h => ?_) trivial
      ((along_and step).mpr ⟨along_of_forall step configured hguess, hwritable⟩)
    obtain ⟨⟨now, ip, rfl⟩, hw⟩ := h
    exact regular_guess hw
  have hnew : entryOf (client 0) configured Tally.address = .leaf .nil := by
    have hread : configured.read FILE = none := by decide +kernel
    rw [entryOf, load, hread]
    rfl
  exact ⟨by decide +kernel, by decide +kernel, lockout_bound slashless_configured hregular
    (by decide +kernel) hnew (by decide +kernel)⟩

end Lockout
end Control
end MkyBoot
