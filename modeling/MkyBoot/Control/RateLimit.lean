import MkyBoot.Control.Auth
import MkyBoot.Control.Session

/-!
# Failed logins

`mkyboot.inc.ratelimit` counts the failed logins of each address in
`ratelimit.json`.  The file is decoded text like any other, so an entry may have
any shape, and a comparison or a sum with the wrong type raises.
-/

namespace MkyBoot
namespace Control
namespace RateLimit

open Lua Posix

/-- `ratelimit.FILE` -/
def FILE : Str := "/srv/mkyboot/cfg/ratelimit.json".toList

def MAX_ATTEMPTS : ℕ := 5
def LOCKOUT_SECONDS : ℕ := 300

abbrev Attempts := List (Str × Doc)

def load (host : Host) (t : FileTree Str) : Attempts :=
  match (t.read FILE).bind host.decode with
  | some (.table fields) => fields
  | _ => []

def save (host : Host) (t : FileTree Str) (data : Attempts) : FileTree Str :=
  if host.saves then (t.write FILE (host.encode (.table data))).getD t else t

/-- `data[k] = nil` -/
def unset (data : Attempts) (k : Str) : Attempts := data.filter (·.1 != k)

/-- `data[k] = v` -/
def set (data : Attempts) (k : Str) (v : Doc) : Attempts := unset data k ++ [(k, v)]

/-- `entry[k]` for a key that is no string method: indexing a string finds nothing,
indexing another value that is no table raises. -/
def index (entry : Doc) (k : Str) : Option Doc :=
  match entry with
  | .table fields => some ((Doc.table fields).get k)
  | .leaf (.str _) => some (.leaf .nil)
  | .leaf _ => none

/-- `not v` -/
def isFalse : Doc → Bool
  | .leaf .nil => true
  | .leaf (.bool b) => !b
  | _ => false

/-- The comparisons of `ratelimit.is_locked` with a deadline that is set. -/
def checkDeadline (host : Host) (t : FileTree Str) (ip : Str) (deadline : Doc) :
    Call Bool × FileTree Str :=
  match deadline.val with
  | .num q =>
    if host.now < q then (.returned true, t)
    else (.returned false, save host t (unset (load host t) ip))
  | _ => (.raised, t)

/-- `ratelimit.is_locked` -/
def isLocked (host : Host) (t : FileTree Str) (ip : Str) : Call Bool × FileTree Str :=
  if ip = [] then (.returned false, t)
  else
    let entry := (Doc.table (load host t)).get ip
    if isFalse entry then (.returned false, t)
    else match index entry "locked_until".toList with
      | none => (.raised, t)
      | some deadline =>
        if isFalse deadline then (.returned false, t) else checkDeadline host t ip deadline

/-- The entry after another failure. -/
def bump (host : Host) (fields : Attempts) (count : ℚ) : Attempts :=
  let counted := set (set fields "count".toList (.leaf (.num (count + 1)))) "last_at".toList
    (.leaf (.num host.now))
  if MAX_ATTEMPTS ≤ count + 1 then
    set counted "locked_until".toList (.leaf (.num (host.now + LOCKOUT_SECONDS)))
  else counted

/-- `ratelimit.record_failure` -/
def recordFailure (host : Host) (t : FileTree Str) (ip : Str) : Call Unit × FileTree Str :=
  if ip = [] then (.returned (), t)
  else
    let data := load host t
    let entry := (Doc.table data).get ip
    let entry := if isFalse entry then
        .table [("count".toList, .leaf (.num 0)), ("first_at".toList, .leaf (.num host.now))]
      else entry
    match entry with
    | .leaf _ => (.raised, t)
    | .table fields =>
      match tonumber ((Doc.table fields).get "count".toList).val with
      | none => (.raised, t)
      | some count => (.returned (), save host t (set data ip (.table (bump host fields count))))

/-- `ratelimit.clear` -/
def clear (host : Host) (t : FileTree Str) (ip : Str) : FileTree Str :=
  if ip = [] then t else save host t (unset (load host t) ip)

/-! ## Fields of a table -/

theorem find_unset_self (data : Attempts) (k : Str) : (unset data k).find? (·.1 == k) = none := by
  rw [List.find?_eq_none]
  intro e he
  have hne := (List.mem_filter.mp he).2
  rw [bne_iff_ne] at hne
  simpa using hne

theorem get_unset_self (data : Attempts) (k : Str) :
    (Doc.table (unset data k)).get k = .leaf .nil := by
  rw [Doc.get, find_unset_self]
  rfl

theorem get_unset_of_ne (data : Attempts) {k k' : Str} (h : k' ≠ k) :
    (Doc.table (unset data k)).get k' = (Doc.table data).get k' := by
  have hfind : (unset data k).find? (·.1 == k') = data.find? (·.1 == k') := by
    rw [unset, List.find?_filter]
    congr 1
    funext e
    by_cases he : e.1 = k'
    · simp [he, h]
    · simp [he]
  rw [Doc.get, Doc.get, hfind]

theorem get_set_self (data : Attempts) (k : Str) (v : Doc) :
    (Doc.table (set data k v)).get k = v := by
  rw [Doc.get, set, List.find?_append, find_unset_self]
  simp

theorem get_set_of_ne (data : Attempts) {k k' : Str} (h : k' ≠ k) (v : Doc) :
    (Doc.table (set data k v)).get k' = (Doc.table data).get k' := by
  have hfind : (set data k v).find? (·.1 == k') = (unset data k).find? (·.1 == k') := by
    rw [set, List.find?_append]
    simp [Ne.symm h]
  rw [← get_unset_of_ne data h, Doc.get, Doc.get, hfind]

theorem get_count_bump (host : Host) (fields : Attempts) (count : ℚ) :
    (Doc.table (bump host fields count)).get "count".toList = .leaf (.num (count + 1)) := by
  rw [bump]
  split
  · rw [get_set_of_ne _ (by decide), get_set_of_ne _ (by decide), get_set_self]
  · rw [get_set_of_ne _ (by decide), get_set_self]

theorem get_locked_bump (host : Host) (fields : Attempts) (count : ℚ) :
    (Doc.table (bump host fields count)).get "locked_until".toList =
      if MAX_ATTEMPTS ≤ count + 1 then .leaf (.num (host.now + LOCKOUT_SECONDS))
      else (Doc.table fields).get "locked_until".toList := by
  rw [bump]
  split
  · rw [get_set_self]
  · rw [get_set_of_ne _ (by decide), get_set_of_ne _ (by decide)]

theorem isLocked_of_deadline {host : Host} {t : FileTree Str} {ip : Str} {fields : Attempts} {q : ℚ}
    (hip : ip ≠ []) (hentry : (Doc.table (load host t)).get ip = .table fields)
    (hlocked : (Doc.table fields).get "locked_until".toList = .leaf (.num q))
    (hnow : host.now < q) : (isLocked host t ip).1 = .returned true := by
  have hindex : index (.table fields) "locked_until".toList = some (.leaf (.num q)) := by
    rw [index, hlocked]
  have htable : ¬ isFalse (.table fields) = true := Bool.false_ne_true
  have hnum : ¬ isFalse (.leaf (.num q)) = true := Bool.false_ne_true
  rw [isLocked, if_neg hip, hentry]
  dsimp only
  rw [if_neg htable, hindex]
  dsimp only
  rw [if_neg hnum, checkDeadline, Doc.val]
  dsimp only
  rw [if_pos hnow]

/-! ## What stays in place -/

theorem save_cases (host : Host) (t : FileTree Str) (data : Attempts) :
    save host t data = t ∨ ∃ c, t.write FILE c = some (save host t data) := by
  rw [save]
  split
  · cases h : t.write FILE (host.encode (.table data)) with
    | none => exact Or.inl rfl
    | some t' => exact Or.inr ⟨_, h⟩
  · exact Or.inl rfl

theorem save_read_auth (host : Host) (t : FileTree Str) (data : Attempts) :
    (save host t data).read Auth.file = t.read Auth.file := by
  rcases save_cases host t data with h | ⟨c, h⟩
  · rw [h]
  · refine FileTree.read_write_sibling (d := "/srv/mkyboot/cfg".toList) (m := "auth.json".toList)
      (n := "ratelimit.json".toList) (by decide) (by decide) (by decide) (by decide) ?_ h
    intro p e
    rw [FileTree.place_of_ne (by decide) (by decide) (by decide),
      FileTree.place_of_ne (by decide) (by decide) (by decide)] at e
    exact absurd (List.append_cancel_left e) (by decide)

theorem save_opens (host : Host) (t : FileTree Str) (data : Attempts) (d : Str) :
    (save host t data).opens d = t.opens d := by
  rcases save_cases host t data with h | ⟨c, h⟩
  · rw [h]
  · exact FileTree.opens_write h d

/-- Looking an address up leaves the tree or saves the attempts. -/
theorem isLocked_cases (host : Host) (t : FileTree Str) (ip : Str) :
    (isLocked host t ip).2 = t ∨ ∃ data, (isLocked host t ip).2 = save host t data := by
  rw [isLocked]
  split
  · exact Or.inl rfl
  dsimp only
  split
  · exact Or.inl rfl
  split
  · exact Or.inl rfl
  split
  · exact Or.inl rfl
  rw [checkDeadline]
  split
  · split
    · exact Or.inl rfl
    · exact Or.inr ⟨_, rfl⟩
  · exact Or.inl rfl

theorem isLocked_read_auth (host : Host) (t : FileTree Str) (ip : Str) :
    (isLocked host t ip).2.read Auth.file = t.read Auth.file := by
  rcases isLocked_cases host t ip with h | ⟨data, h⟩
  · rw [h]
  · rw [h, save_read_auth]

theorem isLocked_opens (host : Host) (t : FileTree Str) (ip d : Str) :
    (isLocked host t ip).2.opens d = t.opens d := by
  rcases isLocked_cases host t ip with h | ⟨data, h⟩
  · rw [h]
  · rw [h, save_opens]

end RateLimit
end Control
end MkyBoot
