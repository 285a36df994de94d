import MkyBoot.Control.Commit
import MkyBoot.Control.Update
import MkyBoot.Machine.Run

/-!
# Super mode on and off

A request that turns super mode on sets the `commit` flags of the disks it lists, and
the three requests that turn it off clear the flags of three images.  With fewer images
clearing raises an error, after `disableCommit` has committed; with more, the flags
behind the third stay as they are, and the next request that turns super mode on adds
its own.  `disable_complete_iff` says when leaving super mode is complete, and
`only_selected_iff` when only disks that were selected are committed.
-/

namespace MkyBoot
namespace Control
namespace Super

open Lua Command Machine Station
open Update (Disable)

/-! ## Turning it off -/

/-- How a request ends: with `OK`, without an answer, or with an error. -/
inductive Reply where
  | ok
  | silent
  | raised
  deriving DecidableEq

section Deeds

variable (w : Workstation)

/-- Clearing raises on the first of three images that is missing. -/
def clears : List Deed :=
  .supper (.str "0".toList) ::
    ((List.range' 1 (min 3 w.img.length)).map (.commit · (.str "0".toList)) ++
      if 3 ≤ w.img.length then [.save] else [])

/-- `disableCommit` clears `supper` twice. -/
theorem clearFlags_eq : clearFlags w = .supper (.str "0".toList) :: clears w := rfl

/-- What a request does and how it ends, when `conf` is what `checkconf` says. -/
def disable (env : Env) (cfg : Station.Config) (peer : Option Workstation) (conf : Bool)
    (s : World) (kind : Disable) : List Deed × Reply :=
  if conf then
    (match kind with
      | .disableUncommit => clears w
      | .disableCommit => disableCommit env cfg peer w s
      | .disableCommitPoint => clears w,
      if 3 ≤ w.img.length then .ok else .raised)
  else ([], .silent)

/-- A deed on the configuration in memory and on the one in the file. -/
def apply (st : Workstation × Option Workstation) : Deed → Workstation × Option Workstation
  | .does _ => st
  | .supper v => ({ st.1 with supper := v }, st.2)
  | .commit i v =>
    ({ st.1 with img := st.1.img.modify (i - 1) fun x => { x with commit := v } }, st.2)
  | .save => (st.1, some st.1)

/-- The workstation that is saved, if one is. -/
def saved (ds : List Deed) : Option Workstation := (ds.foldl apply (w, none)).2

def clear (v : Image) : Image := { v with commit := .str "0".toList }

def clearImages (img : List Image) : List Image := (img.take 3).map clear ++ img.drop 3

def cleared : Workstation := { w with supper := .str "0".toList, img := clearImages w.img }

theorem foldl_does (es : List Event) (st : Workstation × Option Workstation) :
    (es.map Deed.does).foldl apply st = st := by
  induction es with
  | nil => rfl
  | cons e es ih => exact ih

theorem saved_clears :
    saved w (clears w) = if 3 ≤ w.img.length then some (cleared w) else none := by
  obtain ⟨mac, ipv4, enable, supper, tid, img⟩ := w
  match img with
  | [] => rfl
  | [_] => rfl
  | [_, _] => rfl
  | _ :: _ :: _ :: l =>
    have hlen : 3 ≤ l.length + 1 + 1 + 1 := by omega
    rw [saved, clears, List.length_cons, List.length_cons, List.length_cons, if_pos hlen,
      if_pos hlen, Nat.min_eq_left hlen]
    rfl

/-- What is saved does not depend on the state of the system. -/
theorem saved_disable (env : Env) (cfg : Station.Config) (peer : Option Workstation) (s : World)
    (kind : Disable) : saved w (disable w env cfg peer true s kind).1 =
      if 3 ≤ w.img.length then some (cleared w) else none := by
  rw [← saved_clears]
  cases kind with
  | disableUncommit => rfl
  | disableCommit =>
    show saved w (disableCommit env cfg peer w s) = _
    rw [disableCommit, saved, List.foldl_append, foldl_does, clearFlags_eq]
    rfl
  | disableCommitPoint => rfl

/-- A request ends with `OK` and super mode off for all images, or commits nothing. -/
def Complete (done : List Deed × Reply) : Prop :=
  match done.2 with
  | .ok => ∃ w', saved w done.1 = some w' ∧ off w'.supper = true ∧ ∀ v ∈ w'.img, off v.commit = true
  | .silent => ∀ c, .does (.call (.imageCommit c)) ∉ done.1
  | .raised => False

theorem off_zero : off (.str "0".toList) = true := by decide

theorem forall_clearImages (img : List Image) : (∀ v ∈ clearImages img, off v.commit = true) ↔
    ∀ v ∈ img.drop 3, off v.commit = true := by
  simp only [clearImages, List.mem_append, List.mem_map]
  constructor
  · exact fun h v hv => h v (Or.inr hv)
  · rintro h v (⟨u, -, rfl⟩ | hv)
    · exact off_zero
    · exact h v hv

end Deeds

/-- When leaving super mode is complete: for every workstation and each of the three
requests. -/
theorem disable_complete_iff (env : Env) (cfg : Station.Config) (peer : Option Workstation)
    (conf : Bool) (w : Workstation) (s : World) (kind : Disable) :
    Complete w (disable w env cfg peer conf s kind) ↔
      (conf = true → 3 ≤ w.img.length ∧ ∀ v ∈ w.img.drop 3, off v.commit = true) := by
  cases conf with
  | false => exact ⟨fun _ h => absurd h Bool.false_ne_true, fun _ c => List.not_mem_nil⟩
  | true =>
    have hsaved := saved_disable w env cfg peer s kind
    have hreply : (disable w env cfg peer true s kind).2 =
        if 3 ≤ w.img.length then .ok else .raised := rfl
    rw [Complete, hreply, hsaved, imp_iff_right rfl]
    by_cases hlen : 3 ≤ w.img.length
    · rw [if_pos hlen, if_pos hlen, and_iff_right hlen, ← forall_clearImages]
      constructor
      · rintro ⟨w', hw', -, hall⟩
        obtain rfl := Option.some.inj hw'
        exact hall
      · exact fun hall => ⟨cleared w, rfl, off_zero, hall⟩
    · rw [if_neg hlen]
      exact ⟨False.elim, fun h => hlen h.1⟩

/-! The README's workstation has two images. -/

def selectedDisk : Image := { windows with commit := .str "1".toList }

def pair : Workstation := { station [selectedDisk, installer] with supper := .str "1".toList }

/-- The first disk is committed, then the request raises an error and nothing is saved. -/
theorem two_images_raise :
    (disable pair lab shipped (some pair) true idle .disableCommit).2 = .raised ∧
      .does (.call (.imageCommit (.str (child shipped pair selectedDisk)))) ∈
        (disable pair lab shipped (some pair) true idle .disableCommit).1 ∧
      ¬ Complete pair (disable pair lab shipped (some pair) true idle .disableCommit) := by
  refine ⟨rfl, ?_, id⟩
  have hcommits : Commits lab shipped pair idle selectedDisk :=
    ⟨by decide +kernel, by decide +kernel, by decide +kernel, by decide +kernel⟩
  refine List.mem_append_left _ (List.mem_map_of_mem ?_)
  rw [commitImages, if_pos (by decide)]
  exact mem_since_commitImages lab shipped (some pair) pair List.mem_cons_self hcommits

/-! ## Turning it on -/

/-- An assignment to a field of `img[tonumber(k)]`, which raises when there is no such
image. -/
def setAt {α : Type} (f : α → α) (l : List α) (k : Val) : Option (List α) :=
  (tonumber k).bind fun q =>
    if 1 ≤ q ∧ q.den = 1 ∧ q ≤ l.length then some (l.modify (q.num.toNat - 1) f) else none

def flag (v : Image) : Image := { v with commit := .str "1".toList }

def select (img : List Image) (k : Val) : Option (List Image) := setAt flag img k

/-- The request with a list of disks, if it answers `OK`. -/
def enable (ks : List Val) (w : Workstation) : Option Workstation :=
  (ks.foldlM select w.img).map fun img => { w with img := img, supper := .str "1".toList }

/-- Image number `i` is listed. -/
def selected (ks : List Val) (i : ℕ) : Bool := ks.any fun k => tonumber k == some (i : ℚ)

def mark (ks : List Val) (i : ℕ) (v : Image) : Image :=
  if selected ks i then flag v else v

theorem setAt_eq_some {α : Type} {f : α → α} {l l' : List α} {k : Val} : setAt f l k = some l' ↔
    ∃ i, i < l.length ∧ tonumber k = some ((i + 1 : ℕ) : ℚ) ∧ l' = l.modify i f := by
  rw [setAt, Option.bind_eq_some_iff]
  constructor
  · rintro ⟨q, hq, h⟩
    split at h
    · rename_i hrange
      obtain ⟨hone, hden, hlen⟩ := hrange
      have hnum : (q.num.toNat : ℚ) = q := by
        have hpos : 0 ≤ q.num := Rat.num_nonneg.mpr (zero_le_one.trans hone)
        rw [← Int.cast_natCast, Int.toNat_of_nonneg hpos]
        exact Rat.coe_int_num_of_den_eq_one hden
      rw [← hnum] at hone hlen hq
      have hone' : 1 ≤ q.num.toNat := by exact_mod_cast hone
      have hlen' : q.num.toNat ≤ l.length := by exact_mod_cast hlen
      refine ⟨q.num.toNat - 1, by omega, ?_, (Option.some.inj h).symm⟩
      rw [hq, Nat.sub_add_cancel hone']
    · exact absurd h (by simp)
  · rintro ⟨i, hi, hk, rfl⟩
    refine ⟨_, hk, ?_⟩
    rw [if_pos ⟨by exact_mod_cast Nat.le_add_left 1 i, Rat.den_natCast _, by exact_mod_cast hi⟩,
      Rat.num_natCast, Int.toNat_natCast, Nat.add_sub_cancel]

/-- The entry of a list is the number of an image. -/
def Names (n : ℕ) (k : Val) : Prop := ∃ i, i < n ∧ tonumber k = some ((i + 1 : ℕ) : ℚ)

theorem selected_iff {ks : List Val} {i : ℕ} :
    selected ks i = true ↔ ∃ k ∈ ks, tonumber k = some (i : ℚ) := by
  simp only [selected, List.any_eq_true, beq_iff_eq]

theorem selected_cons {k : Val} {ks : List Val} {i : ℕ} :
    selected (k :: ks) i = (tonumber k == some (i : ℚ) || selected ks i) := rfl

theorem select_cons (k : Val) (ks : List Val) (img : List Image) : (k :: ks).foldlM select img =
    (select img k).bind fun mid => ks.foldlM select mid := rfl

/-- The images that are listed get the flag, and the others keep what they have. -/
theorem getElem?_select {ks : List Val} {img img' : List Image}
    (h : ks.foldlM select img = some img') (j : ℕ) :
    img'[j]? = img[j]?.map (mark ks (j + 1)) := by
  induction ks generalizing img with
  | nil =>
    obtain rfl := Option.some.inj h
    exact Option.map_id'.symm
  | cons k ks ih =>
    obtain ⟨mid, hmid, hrest⟩ := Option.bind_eq_some_iff.mp (select_cons k ks img ▸ h)
    obtain ⟨i, -, hk, rfl⟩ := setAt_eq_some.mp hmid
    have hnum : (tonumber k == some ((j + 1 : ℕ) : ℚ)) = decide (i = j) := by
      rw [hk, Bool.eq_iff_iff, beq_iff_eq, Option.some.injEq, Nat.cast_inj, decide_eq_true_eq]
      omega
    rw [ih hrest, List.getElem?_modify, Option.map_eq_map, Option.map_map]
    congr 1
    funext v
    simp only [Function.comp_apply, mark, selected_cons, hnum]
    by_cases hij : i = j
    · simp [hij, flag]
    · simp [hij]

/-- The request answers `OK` if every entry of the list is the number of an image. -/
theorem exists_select_iff {ks : List Val} {img : List Image} :
    (∃ img', ks.foldlM select img = some img') ↔ ∀ k ∈ ks, Names img.length k := by
  induction ks generalizing img with
  | nil => exact ⟨fun _ _ h => absurd h List.not_mem_nil, fun _ => ⟨img, rfl⟩⟩
  | cons k ks ih =>
    rw [List.forall_mem_cons]
    constructor
    · rintro ⟨img', h⟩
      obtain ⟨mid, hmid, hrest⟩ := Option.bind_eq_some_iff.mp (select_cons k ks img ▸ h)
      obtain ⟨i, hi, hk, rfl⟩ := setAt_eq_some.mp hmid
      have hnames := ih.mp ⟨img', hrest⟩
      rw [List.length_modify] at hnames
      exact ⟨⟨i, hi, hk⟩, hnames⟩
    · rintro ⟨⟨i, hi, hk⟩, hnames⟩
      have hmid : select img k = some (img.modify i flag) := setAt_eq_some.mpr ⟨i, hi, hk, rfl⟩
      rw [← List.length_modify (f := flag) (i := i)] at hnames
      obtain ⟨img', hrest⟩ := ih.mpr hnames
      exact ⟨img', by rw [select_cons, hmid]; exact hrest⟩

/-! ## Runs -/

/-- The saved workstation, and the list of the last request that turned super mode on. -/
structure Mode where
  wks : Workstation
  chosen : Option (List Val)

/-- A request to turn super mode on, or one to turn it off in some state of the system. -/
inductive Request where
  | enable (jsondata : Option (List Val))
  | disable (kind : Disable) (peer : Option Workstation) (s : World)

section Runs

variable (env : Env) (cfg : Station.Config)

def step (m : Mode) : Request → Mode
  | .enable none => m
  | .enable (some ks) => (enable ks m.wks).elim m fun w => ⟨w, some ks⟩
  | .disable kind peer s =>
    { m with wks := (saved m.wks (disable m.wks env cfg peer true s kind).1).getD m.wks }

/-- Numbers of the images with the flag. -/
def flags (w : Workstation) : Set ℕ := {i | ∃ v, w.img[i]? = some v ∧ Boot.on v.commit = true}

/-- The images a request lists. -/
def chosen (ks : List Val) : Set ℕ := {i | selected ks (i + 1) = true}

theorem mem_flags {w : Workstation} {i : ℕ} :
    i ∈ flags w ↔ ∃ v, w.img[i]? = some v ∧ Boot.on v.commit = true := Iff.rfl

theorem mem_chosen {ks : List Val} {i : ℕ} : i ∈ chosen ks ↔ selected ks (i + 1) = true := Iff.rfl

/-- After `OK` the flags are those of the list, and what is committed is the child of an
image on the last list. -/
def Sound (m : Mode) : Request → Prop
  | .enable none => True
  | .enable (some ks) => ∀ w, enable ks m.wks = some w → flags w = chosen ks
  | .disable kind peer s => ∀ ks, m.chosen = some ks → ∀ c,
      .does (.call (.imageCommit c)) ∈ (disable m.wks env cfg peer true s kind).1 →
        ∃ i ∈ chosen ks, ∃ v, m.wks.img[i]? = some v ∧ c = .str (child cfg m.wks v)

/-- A list of images contains those that have the flag already. -/
def Fits (m : Mode) : Request → Prop
  | .enable none => True
  | .enable (some ks) => (∀ k ∈ ks, Names m.wks.img.length k) → flags m.wks ⊆ chosen ks
  | .disable _ _ _ => True

variable {env cfg}

theorem on_one : Boot.on (.str "1".toList) = true := by decide

theorem not_on_zero : ¬ Boot.on (.str "0".toList) = true := by decide

theorem enable_eq_some {ks : List Val} {w w' : Workstation} (h : enable ks w = some w') :
    ks.foldlM select w.img = some w'.img := by
  obtain ⟨img, himg, rfl⟩ := Option.map_eq_some_iff.mp h
  exact himg

/-- Turning super mode on adds the images of the list. -/
theorem flags_enable {ks : List Val} {w w' : Workstation} (h : enable ks w = some w') :
    flags w' = flags w ∪ chosen ks := by
  have himg := enable_eq_some h
  ext i
  rw [Set.mem_union, mem_flags, mem_flags, mem_chosen, getElem?_select himg]
  constructor
  · rintro ⟨v', hv', hon⟩
    obtain ⟨v, hv, rfl⟩ := Option.map_eq_some_iff.mp hv'
    by_cases hsel : selected ks (i + 1) = true
    · exact Or.inr hsel
    · rw [mark, if_neg hsel] at hon
      exact Or.inl ⟨v, hv, hon⟩
  · rintro (⟨v, hv, hon⟩ | hsel)
    · refine ⟨mark ks (i + 1) v, by rw [hv, Option.map_some], ?_⟩
      rw [mark]
      split
      · exact on_one
      · exact hon
    · obtain ⟨k, hk, hnum⟩ := selected_iff.mp hsel
      obtain ⟨j, hj, hnum'⟩ := exists_select_iff.mp ⟨_, himg⟩ k hk
      obtain rfl : i = j := by
        have hij : ((i + 1 : ℕ) : ℚ) = ((j + 1 : ℕ) : ℚ) := Option.some.inj (hnum.symm.trans hnum')
        have := Nat.cast_injective hij
        omega
      refine ⟨mark ks (i + 1) w.img[i], by rw [List.getElem?_eq_getElem hj, Option.map_some], ?_⟩
      rw [mark, if_pos hsel]
      exact on_one

theorem getElem?_clearImages (img : List Image) (i : ℕ) : (clearImages img)[i]? =
    img[i]?.map fun v => if i < 3 then clear v else v := by
  rw [clearImages, List.getElem?_append, List.length_map, List.length_take, List.getElem?_map,
    List.getElem?_take, List.getElem?_drop]
  by_cases hi : i < 3
  · simp only [if_pos hi]
    split
    · rfl
    · rename_i hlen
      rw [List.getElem?_eq_none (by omega), List.getElem?_eq_none (by omega)]
      rfl
  · simp only [if_neg hi]
    rw [if_neg (by omega), Option.map_id']
    by_cases hlen : i < img.length
    · rw [show 3 + (i - min 3 img.length) = i by omega]
    · rw [List.getElem?_eq_none (by omega), List.getElem?_eq_none (by omega)]

/-- Turning it off adds none. -/
theorem flags_cleared (w : Workstation) : flags (cleared w) ⊆ flags w := by
  rintro i ⟨v', hv', hon⟩
  rw [cleared, getElem?_clearImages] at hv'
  obtain ⟨v, hv, rfl⟩ := Option.map_eq_some_iff.mp hv'
  split at hon
  · exact absurd hon not_on_zero
  · exact ⟨v, hv, hon⟩

theorem flags_saved (m : Mode) (kind : Disable) (peer : Option Workstation) (s : World) :
    flags (step env cfg m (.disable kind peer s)).wks ⊆ flags m.wks := by
  show flags ((saved m.wks _).getD m.wks) ⊆ _
  rw [saved_disable]
  split
  · exact flags_cleared m.wks
  · exact subset_rfl

/-- What a request to turn super mode off commits has the flag. -/
theorem flagged_of_mem_disable {w : Workstation} {peer : Option Workstation} {s : World}
    {kind : Disable} {c : Val}
    (h : .does (.call (.imageCommit c)) ∈ (disable w env cfg peer true s kind).1) :
    ∃ i ∈ flags w, ∃ v, w.img[i]? = some v ∧ c = .str (child cfg w v) := by
  have hclears : .does (.call (.imageCommit c)) ∉ clears w := by
    rw [clears]
    split <;> simp
  cases kind with
  | disableUncommit | disableCommitPoint => exact absurd h hclears
  | disableCommit =>
    obtain hmem | hmem := List.mem_append.mp h
    · obtain ⟨e, he, heq⟩ := List.mem_map.mp hmem
      obtain rfl := Deed.does.inj heq
      obtain ⟨v, hv, hon, hc⟩ := flagged_of_mem_commitImages env cfg peer w he
      obtain ⟨i, hi⟩ := List.mem_iff_getElem?.mp hv
      exact ⟨i, ⟨v, hi, hon⟩, v, hi, hc⟩
    · rw [clearFlags_eq, List.mem_cons] at hmem
      obtain hmem | hmem := hmem
      · exact absurd hmem (by simp)
      · exact absurd hmem hclears

/-- The flags are on the last list. -/
def Tracked (m : Mode) : Prop := ∀ ks, m.chosen = some ks → flags m.wks ⊆ chosen ks

theorem flags_enable_of_fits {m : Mode} {ks : List Val} (hfits : Fits m (.enable (some ks)))
    {w : Workstation} (h : enable ks m.wks = some w) : flags w = chosen ks := by
  have hnames := exists_select_iff.mp ⟨_, enable_eq_some h⟩
  rw [flags_enable h, Set.union_eq_right]
  exact hfits hnames

theorem tracked_step {m : Mode} {r : Request} (h : Tracked m) (hfits : Fits m r) :
    Tracked (step env cfg m r) := by
  cases r with
  | enable jsondata =>
    cases jsondata with
    | none => exact h
    | some ks =>
      cases henable : enable ks m.wks with
      | none =>
        rw [step, henable]
        exact h
      | some w =>
        rw [step, henable]
        intro ks' hks'
        obtain rfl := Option.some.inj hks'
        exact (flags_enable_of_fits hfits henable).subset
  | disable kind peer s => exact fun ks hks => (flags_saved m kind peer s).trans (h ks hks)

theorem sound_of_fits {m : Mode} {r : Request} (h : Tracked m) (hfits : Fits m r) :
    Sound env cfg m r := by
  cases r with
  | enable jsondata =>
    cases jsondata with
    | none => trivial
    | some ks => exact fun w hw => flags_enable_of_fits hfits hw
  | disable kind peer s =>
    intro ks hks c hc
    obtain ⟨i, hi, hv⟩ := flagged_of_mem_disable hc
    exact ⟨i, h ks hks hi, hv⟩

theorem fits_of_sound {m : Mode} {r : Request} (hsound : Sound env cfg m r) : Fits m r := by
  cases r with
  | enable jsondata =>
    cases jsondata with
    | none => trivial
    | some ks =>
      intro hnames
      obtain ⟨img, himg⟩ := exists_select_iff.mpr hnames
      have henable : enable ks m.wks =
          some { m.wks with img := img, supper := .str "1".toList } := by
        rw [enable, himg, Option.map_some]
      rw [← hsound _ henable, flags_enable henable]
      exact Set.subset_union_left
  | disable kind peer s => trivial

end Runs

/-- When, along every run of requests, only selected disks are flagged and committed. -/
theorem only_selected_iff (env : Env) (cfg : Station.Config) (w : Workstation) (rs : List Request) :
    Along (step env cfg) (Sound env cfg) ⟨w, none⟩ rs ↔ Along (step env cfg) Fits ⟨w, none⟩ rs := by
  constructor
  · exact along_of_along (I := fun _ => True) (fun _ _ _ _ => trivial) (fun _ _ _ => fits_of_sound)
      trivial
  · exact along_of_along (I := Tracked) (fun _ _ => tracked_step) (fun _ _ => sound_of_fits)
      fun _ h => absurd h (by simp)

/-! Four disks.  The fourth is selected and super mode is turned off again; then the
first one is selected. -/

def quad : Workstation := station [windows, windows, windows, windows]

/-- The fourth flag is still there. -/
theorem fourth_flag_stays :
    ¬ Along (step lab shipped) (Sound lab shipped) ⟨quad, none⟩
      [.enable (some [.num 4]), .disable .disableUncommit none idle, .enable (some [.num 1])] := by
  rintro ⟨-, -, hsound, -⟩
  have hrun : (enable [.num 1] (run (step lab shipped) ⟨quad, none⟩
      [.enable (some [.num 4]), .disable .disableUncommit none idle]).wks).map
        (fun w => w.img[3]?.map fun v => Boot.on v.commit) = some (some true) := by
    decide +kernel
  obtain ⟨w, hw, hfourth⟩ := Option.map_eq_some_iff.mp hrun
  obtain ⟨v, hv, hon⟩ := Option.map_eq_some_iff.mp hfourth
  have hmem : 3 ∈ chosen [.num 1] := hsound w hw ▸ mem_flags.mpr ⟨v, hv, hon⟩
  exact absurd (mem_chosen.mp hmem) (by decide +kernel)

/-! ## The same requests on the table of workstations -/

section Table

def toImg (v : Image) : Update.Img where
  enable := v.enable
  commit := v.commit
  type := v.type
  path := .str v.path
  rest := [("boot".toList, v.boot), ("cache".toList, v.cache)]

/-- A workstation as the entry of the table that is saved. -/
def toWks (w : Workstation) : Update.Wks where
  tid := w.tid
  supper := w.supper
  mac := .str w.mac
  empty := .nil
  img := some (w.img.map toImg)
  rest := [("ipv4".toList, .str w.ipv4), ("enable".toList, w.enable)]

/-- The assignment on the entries of a list as others see them. -/
theorem setAt_map {α β : Type} (f : α → α) (f' : β → β) (g : α → β)
    (h : ∀ a, f' (g a) = g (f a)) (l : List α) (k : Val) :
    setAt f' (l.map g) k = (setAt f l k).map (List.map g) := by
  have hmodify (i : ℕ) : (l.map g).modify i f' = (l.modify i f).map g := by
    refine List.ext_getElem? fun j => ?_
    rw [List.getElem?_modify, List.getElem?_map, List.getElem?_map, List.getElem?_modify]
    cases l[j]? with
    | none => rfl
    | some v =>
      by_cases hij : i = j
      · simp [hij, h]
      · simp [hij]
  unfold setAt
  cases tonumber k with
  | none => rfl
  | some q =>
    rw [Option.bind_some, Option.bind_some, List.length_map]
    split
    · rw [hmodify, Option.map_some]
    · rfl

theorem setCommit_one (img : List Image) (k : Val) :
    Update.setCommit (img.map toImg) k Update.one = (select img k).map (List.map toImg) :=
  setAt_map flag (fun x : Update.Img => { x with commit := Update.one }) toImg (fun _ => rfl) img k

/-- The request to turn super mode on is that of the table. -/
theorem saved_update_enable (ks : List Val) (w : Workstation) :
    (Update.enable (some ks) (toWks w)).saved = (enable ks w).map fun w' => some (toWks w') := by
  have hfold (img : List Image) : ks.foldlM (fun img k => img.bind fun imgs =>
      (Update.setCommit imgs k Update.one).map some) (some (img.map toImg)) =
        (ks.foldlM select img).map fun img => some (img.map toImg) := by
    induction ks generalizing img with
    | nil => rfl
    | cons k ks ih =>
      rw [List.foldlM_cons, select_cons, Option.bind_some, setCommit_one]
      cases select img k with
      | none => rfl
      | some mid => exact ih mid
  have himg : (toWks w).img = some (w.img.map toImg) := rfl
  rw [Update.enable, enable, himg, hfold w.img]
  cases ks.foldlM select w.img with
  | none => rfl
  | some img => rfl

theorem setAt_num {α : Type} (f : α → α) (l : List α) (i : ℕ) :
    setAt f l (.num ((i + 1 : ℕ) : ℚ)) = if i < l.length then some (l.modify i f) else none := by
  have hnum : tonumber (.num ((i + 1 : ℕ) : ℚ)) = some ((i + 1 : ℕ) : ℚ) := rfl
  split
  · rename_i hi
    exact setAt_eq_some.mpr ⟨i, hi, hnum, rfl⟩
  · rename_i hi
    refine Option.eq_none_iff_forall_ne_some.mpr fun l' h => ?_
    obtain ⟨j, hj, hk, -⟩ := setAt_eq_some.mp h
    have hij : i + 1 = j + 1 := Nat.cast_injective (Option.some.inj (hnum.symm.trans hk))
    omega

/-- Three assignments clear the first three images. -/
theorem foldlM_clear (img : List Image) :
    [1, 2, 3].foldlM (fun img (q : ℚ) => setAt clear img (.num q)) img =
      if 3 ≤ img.length then some (clearImages img) else none := by
  have hnum (i : ℕ) (q : ℚ) (hq : q = (i + 1 : ℕ)) (l : List Image) :
      setAt clear l (.num q) = if i < l.length then some (l.modify i clear) else none :=
    hq ▸ setAt_num clear l i
  have hone := hnum 0 1 (by norm_num)
  have htwo := hnum 1 2 (by norm_num)
  have hthree := hnum 2 3 (by norm_num)
  match img with
  | [] => simp [hone]
  | [_] => simp [hone, htwo]
  | [_, _] => simp [hone, htwo, hthree]
  | _ :: _ :: _ :: l => simp [hone, htwo, hthree, clearImages, clear]

/-- And so are the requests to turn it off. -/
theorem saved_update_disable (env : Env) (cfg : Station.Config) (peer : Option Workstation)
    (s : World) (w : Workstation) (kind : Disable) : (Update.disable kind (toWks w)).saved =
      (saved w (disable w env cfg peer true s kind).1).map fun w' => some (toWks w') := by
  have himg : (toWks w).img = some (w.img.map toImg) := rfl
  have hcommits : Update.commits kind (toWks w) (w.img.map toImg) = true := by
    rw [Update.commits, Bool.or_eq_true]
    refine Or.inr (List.all_eq_true.mpr fun i hi => ?_)
    obtain ⟨v, -, rfl⟩ := List.mem_map.mp hi
    exact Bool.or_true _
  have hfold (qs : List ℚ) (img : List Image) : qs.foldlM (fun imgs (q : ℚ) =>
      Update.setCommit imgs (.num q) Update.zero) (img.map toImg) =
        (qs.foldlM (fun img q => setAt clear img (.num q)) img).map (List.map toImg) := by
    induction qs generalizing img with
    | nil => rfl
    | cons q qs ih =>
      have hstep : Update.setCommit (img.map toImg) (.num q) Update.zero =
          (setAt clear img (.num q)).map (List.map toImg) :=
        setAt_map clear (fun x : Update.Img => { x with commit := Update.zero }) toImg
          (fun _ => rfl) img _
      rw [List.foldlM_cons, List.foldlM_cons, hstep]
      cases setAt clear img (.num q) with
      | none => rfl
      | some mid => exact ih mid
  rw [saved_disable, Update.disable, himg]
  dsimp only
  rw [if_pos hcommits, hfold, foldlM_clear]
  by_cases hlen : 3 ≤ w.img.length
  · simp only [if_pos hlen]
    rfl
  · simp only [if_neg hlen]
    rfl

end Table

end Super
end Control
end MkyBoot
