import MkyBoot.Lua.Tab
import MkyBoot.Posix.Files
import MkyBoot.Control.Auth

/-!
# Saving the configuration

`SaveToFile` opens the configuration file for writing, which empties it, and only then
encodes the configuration and writes the text.  The file that `LoadFromFile` would read
after a crash, or after an error of `json.encode`, is therefore often no configuration at
all; `config_atomic_iff` says when it still is one.  `auth.save_auth` of the same program
writes a temporary file and renames it, and keeps the record whole (`auth_atomic`).

A text that is written reaches the file in pieces, as the buffer of the stream fills up
and when the stream is closed.
-/

namespace MkyBoot
namespace Control
namespace Persist

open Lua Posix Machine

/-! ## `checkconf` -/

/-- The fields that have to be there, in the order in which they are looked at. -/
def required : List (List Str) :=
  [["server"], ["iscsi"], ["iscsi", "iqn"], ["iscsi", "listen"], ["iscsi", "port"],
    ["iscsi", "proto"], ["dhcp"], ["dhcp", "config"], ["dhcp", "config", "global"],
    ["server", "vendor"], ["server", "version"], ["server", "ipv4"], ["server", "mask"],
    ["server", "gateway"], ["server", "dns1"], ["server", "dns2"], ["server", "workdir"],
    ["server", "tftp"], ["server", "distdir"], ["server", "imgdir"], ["server", "imgdatadir"],
    ["server", "imgbackdir"], ["server", "config"], ["wks"], ["dhcp", "port"],
    ["dhcp", "workdir"], ["tftp", "port"], ["tftp", "workdir"], ["server", "image_prefix"],
    ["server", "nbd_nbds"], ["server", "nbd_max_part"]].map (List.map String.toList)

/-- The checks from one field on.  A field of a missing table raises an error. -/
def checkFields (cfg : Tab) : List (List Str) → Call Bool
  | [] => .returned true
  | keys :: rest =>
    match cfg.path keys with
    | none => .raised
    | some v =>
      match checkFields cfg rest with
      | .raised => .raised
      | .returned result => .returned (!v.isNil && result)

/-- `mkyboot.inc.checkconf`, on `mkyboot.cfg` -/
def checkconf (cfg : Tab) : Call Bool :=
  if cfg.isNil then .returned false else checkFields cfg required

/-! ## `SaveToFile` -/

/-- The json module.  `none` is an error. -/
structure Json where
  encode : Tab → Option Str
  decode : Str → Option Tab

/-- What becomes of a file that is opened for writing: whether it opens, and the pieces
in which a text reaches it, of which the last ones fail to on a full disk. -/
structure Disk where
  opens : Bool
  pieces : Str → List Str
  pieces_prefix : ∀ text, (pieces text).flatten <+: text

variable (json : Json) (disk : Disk)

/-- `SaveToFile`: what it returns, and what it does to the file system on the way. -/
def saveToFile (cfg : Tab) (fpath : Str) (data : Tab) : Call Bool × List (FileOp Str) :=
  match checkconf cfg with
  | .raised => (.raised, [])
  | .returned false => (.returned false, [])
  | .returned true =>
    -- `json.encode` comes before the first use of the file
    if disk.opens then
      match json.encode data with
      | none => (.raised, [.truncate fpath])
      | some text => (.returned true, FileOp.rewrite fpath (disk.pieces text))
    else (.raised, [])

/-- `LoadFromFile`, on the content of the file -/
def loadFromFile (content : Option Str) : Option Tab := content.bind json.decode

/-- The files after the first `k` operations of a save. -/
def crashed (cfg : Tab) (fpath : Str) (data : Tab) (files : Files Str) (k : ℕ) : Files Str :=
  run FileOp.apply files ((saveToFile json disk cfg fpath data).2.take k)

/-- The configuration in the file is the old one or the new one, as a whole. -/
def Whole (cfg : Tab) (fpath : Str) (data : Tab) (files : Files Str) (k : ℕ) : Prop :=
  loadFromFile json (crashed json disk cfg fpath data files k fpath) =
      loadFromFile json (files fpath) ∨
    loadFromFile json (crashed json disk cfg fpath data files k fpath) = some data

variable {json disk} {cfg data : Tab} {fpath : Str} {files : Files Str}

theorem saveToFile_of_closed (h : ¬ (checkconf cfg = .returned true ∧ disk.opens = true)) :
    (saveToFile json disk cfg fpath data).2 = [] := by
  rw [saveToFile]
  split
  · rfl
  · rfl
  · rename_i hconf
    rw [if_neg fun hopens => h ⟨hconf, hopens⟩]

/-- The content of the file once it has been opened. -/
theorem crashed_of_opened (hconf : checkconf cfg = .returned true) (hopens : disk.opens = true)
    (k : ℕ) : crashed json disk cfg fpath data files (k + 1) fpath =
      some ((json.encode data).elim [] fun text => ((disk.pieces text).take k).flatten) := by
  rw [crashed, saveToFile, hconf]
  dsimp only
  rw [if_pos hopens]
  cases json.encode data with
  | none =>
    show run FileOp.apply files ([FileOp.truncate fpath].take (k + 1)) fpath = _
    rw [List.take_succ_cons, List.take_nil]
    exact Function.update_self fpath _ _
  | some text =>
    dsimp only [Option.elim_some]
    rw [FileOp.take_rewrite, FileOp.run_rewrite, Function.update_self]

theorem prefix_flatten_take (texts : List Str) (k : ℕ) :
    (texts.take k).flatten <+: texts.flatten := by
  refine ⟨(texts.drop k).flatten, ?_⟩
  rw [← List.flatten_append, List.take_append_drop]

/-- After any number of steps of a save the file has the old configuration or the new one
exactly if it has not been opened, or there was no configuration in it, or the whole text
has reached it. -/
theorem config_atomic_iff (json : Json) (disk : Disk) (cfg data : Tab) (fpath : Str)
    (files : Files Str) (k : ℕ) (hempty : json.decode [] = none)
    (hjson : ∀ text, json.encode data = some text → json.decode text = some data ∧
      ∀ part, part <+: text → part ≠ text → json.decode part = none) :
    Whole json disk cfg fpath data files k ↔
      ¬ (checkconf cfg = .returned true ∧ disk.opens = true ∧ 0 < k) ∨
        loadFromFile json (files fpath) = none ∨
        ∃ text, json.encode data = some text ∧
          ((disk.pieces text).take (k - 1)).flatten = text := by
  by_cases hopened : checkconf cfg = .returned true ∧ disk.opens = true ∧ 0 < k
  · obtain ⟨hconf, hopens, hk⟩ := hopened
    obtain ⟨k, rfl⟩ : ∃ m, k = m + 1 := ⟨k - 1, by omega⟩
    have hclosed : ¬ ¬ (checkconf cfg = .returned true ∧ disk.opens = true ∧ 0 < k + 1) :=
      not_not_intro ⟨hconf, hopens, hk⟩
    rw [Whole, crashed_of_opened hconf hopens, Nat.add_sub_cancel, or_iff_right hclosed]
    cases hencode : json.encode data with
    | none =>
      have hnone : loadFromFile json (some []) = none := hempty
      rw [Option.elim_none, hnone]
      simp [eq_comm]
    | some text =>
      obtain ⟨hwhole, hpart⟩ := hjson text hencode
      have hprefix := (prefix_flatten_take (disk.pieces text) k).trans (disk.pieces_prefix text)
      simp only [Option.elim_some, Option.some.injEq, exists_eq_left']
      generalize ((disk.pieces text).take k).flatten = part at hprefix ⊢
      show json.decode part = _ ∨ json.decode part = _ ↔ _
      by_cases heq : part = text
      · exact iff_of_true (Or.inr (heq ▸ hwhole)) (Or.inr heq)
      · rw [hpart part hprefix heq, or_iff_left heq, or_iff_left (Option.some_ne_none data).symm]
        exact eq_comm
  · refine iff_of_true (Or.inl ?_) (Or.inl hopened)
    have hfiles : crashed json disk cfg fpath data files k = files := by
      by_cases hk : k = 0
      · rw [crashed, hk, List.take_zero]
        rfl
      · have hclosed : ¬ (checkconf cfg = .returned true ∧ disk.opens = true) :=
          fun h => hopened ⟨h.1, h.2, Nat.pos_of_ne_zero hk⟩
        rw [crashed, saveToFile_of_closed hclosed, List.take_nil]
        rfl
    rw [hfiles]

/-! A site with every required field, and a save of a small value over another one. -/

def texts (keys : List String) : List (Str × Tab) :=
  keys.map fun key => (key.toList, .val (.str "10".toList))

/-- A configuration with the given part for the DHCP server and the given workstations. -/
def site (dhcp wks : Tab) : Tab :=
  .table [] [("server".toList, .table [] (texts ["vendor", "version", "ipv4", "mask", "gateway",
      "dns1", "dns2", "workdir", "tftp", "distdir", "imgdir", "imgdatadir", "imgbackdir", "config",
      "image_prefix", "nbd_nbds", "nbd_max_part"])),
    ("iscsi".toList, .table [] (texts ["iqn", "listen", "port", "proto"])),
    ("dhcp".toList, .table [] (("config".toList, dhcp) :: texts ["port", "workdir"])),
    ("tftp".toList, .table [] (texts ["port", "workdir"])), ("wks".toList, wks)]

def plainSite : Tab := site (.table [] [("global".toList, .table [] [])]) (.table [] [])

def small (n : ℚ) : Tab := .table [] [("a".toList, .val (.num n))]

def smallText (digit : Char) : Str := "\x7b\"a\":".toList ++ [digit, '\x7d']

/-- The json module on the two values. -/
def smallJson : Json where
  encode := fun _ => some (smallText '1')
  decode := fun s =>
    if s = smallText '0' then some (small 0)
    else if s = smallText '1' then some (small 1)
    else none

/-- Every text reaches the file at once. -/
def plainDisk : Disk where
  opens := true
  pieces := fun text => [text]
  pieces_prefix := fun text => by simp

def configPath : Str := "/srv/mkyboot/cfg/config.json".toList

def oldFiles : Files Str := fun f => if f = configPath then some (smallText '0') else none

theorem smallJson_reads (text : Str) (h : smallJson.encode (small 1) = some text) :
    smallJson.decode text = some (small 1) ∧
      ∀ part, part <+: text → part ≠ text → smallJson.decode part = none := by
  obtain rfl : smallText '1' = text := Option.some.inj h
  refine ⟨rfl, fun part hpart hne => ?_⟩
  have hold : part ≠ smallText '0' := by
    rintro rfl
    exact absurd hpart (by decide)
  show (if part = smallText '0' then _ else if part = smallText '1' then _ else _) = _
  rw [if_neg hold, if_neg hne]

theorem finished_save_whole :
    checkconf plainSite = .returned true ∧
      Whole smallJson plainDisk plainSite configPath (small 1) oldFiles 2 :=
  ⟨by decide +kernel, (config_atomic_iff smallJson plainDisk plainSite (small 1) configPath oldFiles
    2 rfl smallJson_reads).mpr (Or.inr (Or.inr ⟨smallText '1', rfl, rfl⟩))⟩

/-- A crash right after the file has been opened: neither configuration is left. -/
theorem opened_config_lost :
    loadFromFile smallJson (oldFiles configPath) = some (small 0) ∧
      ¬ Whole smallJson plainDisk plainSite configPath (small 1) oldFiles 1 := by
  have hold : loadFromFile smallJson (oldFiles configPath) = some (small 0) := rfl
  have hconf : checkconf plainSite = .returned true := by decide +kernel
  refine ⟨hold, ?_⟩
  rw [Whole, crashed_of_opened hconf rfl, hold]
  rintro (h | h)
  · cases h
  · cases h

/-! ## `auth.save_auth` -/

/-- `auth.save_auth`, on the pieces in which the record reaches the temporary file and on
whether the rename succeeds. -/
def saveAuth (json : Json) (disk : Disk) (renames : Bool) (tmp : Str) (data : Tab) :
    Call Bool × List (FileOp Str) :=
  if disk.opens then
    match json.encode data with
    | none => (.raised, [.truncate tmp])
    | some text =>
      if renames then (.returned true, FileOp.publish tmp Auth.file (disk.pieces text))
      else (.returned false, FileOp.rewrite tmp (disk.pieces text) ++ [.remove tmp])
  else (.returned false, [])

/-- The record is the old one or the new one after every step, on a disk that takes the
whole text. -/
theorem auth_atomic (json : Json) {disk : Disk} (hdisk : ∀ text, (disk.pieces text).flatten = text)
    (renames : Bool) {tmp : Str} (hne : Auth.file ≠ tmp) (data : Tab) (files : Files Str) (k : ℕ) :
    run FileOp.apply files ((saveAuth json disk renames tmp data).2.take k) Auth.file =
        files Auth.file ∨
      ∃ text, json.encode data = some text ∧
        run FileOp.apply files ((saveAuth json disk renames tmp data).2.take k) Auth.file =
          some text := by
  have htmp : ∀ ops : List (FileOp Str), (∀ op ∈ ops, op.files = [tmp]) →
      run FileOp.apply files (ops.take k) Auth.file = files Auth.file := by
    intro ops hops
    refine FileOp.run_of_notMem (fun op hop => ?_) files
    rw [hops op (List.mem_of_mem_take hop), List.mem_singleton]
    exact hne
  rw [saveAuth]
  by_cases hopens : disk.opens = true
  · rw [if_pos hopens]
    cases hencode : json.encode data with
    | none =>
      refine Or.inl (htmp _ fun op hop => ?_)
      rw [List.mem_singleton.mp hop]
      rfl
    | some text =>
      dsimp only
      cases renames with
      | true =>
        rw [if_pos rfl, FileOp.run_publish files hne, hdisk]
        split
        · exact Or.inl rfl
        · exact Or.inr ⟨text, rfl, rfl⟩
      | false =>
        rw [if_neg Bool.false_ne_true]
        refine Or.inl (htmp _ fun op hop => ?_)
        rcases List.mem_append.mp hop with hop | hop
        · exact FileOp.files_of_mem_rewrite hop
        · rw [List.mem_singleton.mp hop]
          rfl
  · rw [if_neg hopens]
    exact Or.inl (htmp _ fun op hop => absurd hop List.not_mem_nil)

end Persist
end Control
end MkyBoot
