import MkyBoot.Control.Update

/-!
# The table of workstations

`mkyboot.cfg.wks` is meant to be a list whose entries carry their position as `tid`.
`GetMy` proposes a position for a new workstation by a scan that mixes positions and
stored `tid`s, `ApplyMy` stores whatever record it gets under the number the record
names, and `DeleteMachine` leaves an empty entry behind.
-/

namespace MkyBoot
namespace Control
namespace Update

open Lua Machine

/-- The table a list is. -/
def ofList (l : List Wks) : Config := fun q =>
  if 1 ≤ q ∧ q.den = 1 then l[q.num.toNat - 1]? else none

theorem ofList_nat (l : List Wks) {i : ℕ} (hi : 1 ≤ i) : ofList l i = l[i - 1]? := by
  have hq : (1 : ℚ) ≤ i ∧ (i : ℚ).den = 1 := ⟨by exact_mod_cast hi, Rat.den_natCast i⟩
  rw [ofList, if_pos hq, Rat.num_natCast, Int.toNat_natCast]

/-- What a request that is handled alone makes of the table. -/
def edit (cfg : Config) (op : Op) : Config :=
  op.target.elim cfg fun k =>
    Function.update cfg k ((op.outcome (cfg k)).saved.getD (cfg k))

theorem edit_of_target {op : Op} {k : ℚ} (h : op.target = some k) (cfg : Config) :
    edit cfg op = Function.update cfg k ((op.outcome (cfg k)).saved.getD (cfg k)) := by
  rw [edit, h]
  rfl

theorem applyMy_saves {r : Wks} {entry : Option Wks} (h : ∀ x, r.tid = .num x → entry = none) :
    applyMy r entry = .saves (some r) := by
  unfold applyMy
  split
  · rename_i x v hx
    exact absurd (h x hx) (by simp)
  · rfl

/-- A `tid` that comes as a text overwrites. -/
theorem edit_applyMy_str {r : Wks} {s : Str} (htid : r.tid = .str s) {k : ℚ}
    (hk : tonumber (.str s) = some k) (cfg : Config) :
    edit cfg (.applyMy r) = Function.update cfg k (some r) := by
  have htarget : (Op.applyMy r).target = some k := by rw [Op.target, htid, hk]
  have hsaves : (Op.applyMy r).outcome (cfg k) = .saves (some r) :=
    applyMy_saves fun x hx => absurd (htid.symm.trans hx) (by simp)
  rw [edit_of_target htarget, hsaves]
  rfl

/-! ## The proposed position -/

def marked (w : Wks) : Prop := w.empty = .str "true".toList

instance (w : Wks) : Decidable (marked w) := inferInstanceAs (Decidable (_ = _))

/-- The loop over the list from position `k` on, with the `t_id` found so far. -/
def scan (k : ℕ) (t : Option ℕ) : List Wks → Option ℕ
  | [] => t
  | w :: l =>
    if marked w then some k
    else scan (k + 1) (if tonumber w.tid = some (k : ℚ) then some (k + 1) else t) l

/-- `GetMy` for id 0.  Without a `t_id` it raises an error. -/
def getMy (l : List Wks) : Option ℕ := scan 1 none l

theorem scan_of_marked {l : List Wks} (h : ∃ w ∈ l, marked w) (k : ℕ) (t : Option ℕ) :
    ∃ i w, l[i]? = some w ∧ marked w ∧ scan k t l = some (k + i) := by
  induction l generalizing k t with
  | nil => exact absurd h (by simp)
  | cons v l ih =>
    by_cases hv : marked v
    · exact ⟨0, v, rfl, hv, by rw [scan, if_pos hv, Nat.add_zero]⟩
    · have hl : ∃ w ∈ l, marked w := by
        obtain ⟨w, hw, hm⟩ := h
        obtain rfl | hw := List.mem_cons.mp hw
        · exact absurd hm hv
        · exact ⟨w, hw, hm⟩
      obtain ⟨i, w, hw, hm, hscan⟩ := ih hl (k + 1) _
      refine ⟨i + 1, w, hw, hm, ?_⟩
      rw [scan, if_neg hv, hscan, Nat.add_assoc, Nat.add_comm 1 i]

theorem scan_append {l : List Wks} (h : ∀ w ∈ l, ¬ marked w) (k : ℕ) (t : Option ℕ)
    (l' : List Wks) :
    scan k t (l ++ l') = scan (k + l.length) (scan k t l) l' := by
  induction l generalizing k t with
  | nil => rfl
  | cons v l ih =>
    have hv := h v List.mem_cons_self
    rw [List.cons_append, scan, if_neg hv, scan, if_neg hv,
      ih (fun w hw => h w (List.mem_cons_of_mem v hw)), List.length_cons]
    congr 1
    omega

theorem scan_bound {l : List Wks} {k n : ℕ} {t : Option ℕ} (hk : 1 ≤ k)
    (ht : ∀ m, t = some m → 1 ≤ m ∧ m ≤ k) (h : scan k t l = some n) :
    1 ≤ n ∧ n ≤ k + l.length := by
  induction l generalizing k t with
  | nil => exact ht n h
  | cons v l ih =>
    rw [scan] at h
    rw [List.length_cons]
    split at h
    · have hn := Option.some.inj h
      omega
    · have hrest := ih (by omega) (fun m hm => ?_) h
      · omega
      · split at hm
        · have := Option.some.inj hm
          omega
        · have := ht m hm
          omega

/-- A proposal is defined, its slot is absent or marked empty, and applying it with the
text of the number stores the record there and changes nothing else. -/
def Allocates (l : List Wks) : Prop :=
  ∃ n : ℕ, getMy l = some n ∧ (∀ w, ofList l n = some w → marked w) ∧
    ∀ r : Wks, r.tid = .str (Nat.toDigits 10 n) →
      edit (ofList l) (.applyMy r) n = some r ∧
        ∀ q, q ≠ (n : ℚ) → edit (ofList l) (.applyMy r) q = ofList l q

theorem allocates_of_slot {l : List Wks} {n : ℕ} (hn : getMy l = some n)
    (hslot : ∀ w, ofList l n = some w → marked w) : Allocates l := by
  refine ⟨n, hn, hslot, fun r hr => ?_⟩
  rw [edit_applyMy_str hr (tonumber_toDigits n)]
  exact ⟨Function.update_self _ _ _, fun q hq => Function.update_of_ne hq _ _⟩

theorem allocates_of_marked {l : List Wks} (h : ∃ w ∈ l, marked w) : Allocates l := by
  obtain ⟨i, w, hw, hm, hscan⟩ := scan_of_marked h 1 none
  refine allocates_of_slot hscan fun v hv => ?_
  rw [ofList_nat l (by omega), Nat.add_sub_cancel_left, hw] at hv
  exact Option.some.inj hv ▸ hm

/-- Without a marked entry the last one decides. -/
theorem getMy_append {l : List Wks} {w : Wks} (h : ∀ v ∈ l ++ [w], ¬ marked v) :
    getMy (l ++ [w]) =
      if tonumber w.tid = some ((l.length + 1 : ℕ) : ℚ) then some (l.length + 2) else getMy l := by
  have hw : ¬ marked w := h w (List.mem_append_right _ (List.mem_singleton_self w))
  rw [getMy, scan_append (fun v hv => h v (List.mem_append_left _ hv)), scan, if_neg hw, scan,
    Nat.add_comm 1]
  rfl

theorem allocates_of_last {l : List Wks} {w : Wks} (h : ∀ v ∈ l ++ [w], ¬ marked v)
    (htid : tonumber w.tid = some ((l.length + 1 : ℕ) : ℚ)) : Allocates (l ++ [w]) := by
  refine allocates_of_slot ((getMy_append h).trans (if_pos htid)) fun v hv => ?_
  rw [ofList_nat _ (by omega), List.getElem?_eq_none (by simp)] at hv
  exact absurd hv (by simp)

theorem not_allocates {l : List Wks} {w : Wks} (h : ∀ v ∈ l ++ [w], ¬ marked v)
    (htid : tonumber w.tid ≠ some ((l.length + 1 : ℕ) : ℚ)) : ¬ Allocates (l ++ [w]) := by
  intro ⟨n, hn, hslot, _⟩
  rw [getMy_append h, if_neg htid] at hn
  -- the proposal is a position of the list, and no entry is marked
  have hbound := scan_bound (by omega) (fun m hm => absurd hm (by simp)) hn
  have hlt : n - 1 < (l ++ [w]).length := by
    rw [List.length_append, List.length_singleton]
    omega
  refine h _ (List.getElem_mem hlt) (hslot _ ?_)
  rw [ofList_nat _ hbound.1, List.getElem?_eq_getElem hlt]

/-- Adding a workstation is safe exactly when there is a slot marked empty or the last
entry has its position as `tid`. -/
theorem allocates_iff (l : List Wks) : Allocates l ↔
    (∃ w ∈ l, marked w) ∨ ∃ w, l.getLast? = some w ∧ tonumber w.tid = some (l.length : ℚ) := by
  by_cases hmarked : ∃ w ∈ l, marked w
  · exact iff_of_true (allocates_of_marked hmarked) (Or.inl hmarked)
  · have hfull : ∀ w ∈ l, ¬ marked w := fun w hw hm => hmarked ⟨w, hw, hm⟩
    rw [or_iff_right hmarked]
    cases l using List.reverseRecOn with
    | nil =>
      refine iff_of_false ?_ ?_
      · intro ⟨n, hn, _⟩
        exact absurd hn (by simp [getMy, scan])
      · intro ⟨w, hw, _⟩
        exact absurd hw (by simp)
    | append_singleton l w =>
      rw [List.getLast?_append_cons, List.length_append, List.length_singleton]
      by_cases htid : tonumber w.tid = some ((l.length + 1 : ℕ) : ℚ)
      · exact iff_of_true (allocates_of_last hfull htid) ⟨w, rfl, htid⟩
      · refine iff_of_false (not_allocates hfull htid) ?_
        intro ⟨v, hv, hvtid⟩
        have hvw : w = v := Option.some.inj hv
        exact htid (hvw ▸ hvtid)

/-! The workstations of the shipped configuration, by their `tid`. -/

def shippedWks (tid : ℚ) (mac : String) : Wks :=
  { tid := .num tid, supper := .num 0, mac := .str mac.toList, empty := .nil, img := some [],
    rest := [] }

def shippedTable : List Wks :=
  [shippedWks 1 "b4:2e:99:2c:dd:52", shippedWks 2 "b4:2e:99:2c:dd:df",
    shippedWks 2 "b4:2e:99:2c:de:5c"]

/-- The proposal is the third workstation, which is overwritten. -/
theorem third_overwritten : getMy shippedTable = some 3 ∧
    (∃ w, ofList shippedTable 3 = some w ∧ ¬ marked w) ∧ ¬ Allocates shippedTable := by
  have hscan : getMy shippedTable = some 3 := by decide +kernel
  have hthird : ofList shippedTable 3 = some (shippedWks 2 "b4:2e:99:2c:de:5c") := by
    decide +kernel
  have hfull : ¬ marked (shippedWks 2 "b4:2e:99:2c:de:5c") := by decide
  refine ⟨hscan, ⟨_, hthird, hfull⟩, fun ⟨n, hn, hslot, _⟩ => ?_⟩
  rw [hscan] at hn
  have hmarked := hslot (shippedWks 2 "b4:2e:99:2c:de:5c")
    (by rw [← Option.some.inj hn]; exact hthird)
  exact hfull hmarked

/-! ## What the rest of the program relies on -/

def Wks.field (w : Wks) (k : String) : Val := (w.rest.lookup k.toList).getD .nil

def Named (w : Wks) : Prop := w.field "name" ≠ .nil

instance (w : Wks) : Decidable (Named w) := inferInstanceAs (Decidable (_ ≠ _))

/-- Both workstations have a field, and it is the same. -/
def Shares (f : Wks → Val) (w w' : Wks) : Prop := f w ≠ .nil ∧ f w = f w'

/-- Two named workstations with one address or one MAC. -/
def Clash (w w' : Wks) : Prop :=
  Named w ∧ Named w' ∧ (Shares (·.field "ipv4") w w' ∨ Shares Wks.mac w w')

theorem Clash.symm {w w' : Wks} (h : Clash w w') : Clash w' w := by
  have hshares {f : Wks → Val} (h : Shares f w w') : Shares f w' w := ⟨h.2 ▸ h.1, h.2.symm⟩
  exact ⟨h.2.1, h.1, h.2.2.imp hshares hshares⟩

theorem clash_congr {v v' w : Wks} (hmac : v'.mac = v.mac) (hrest : v'.rest = v.rest) :
    Clash v' w ↔ Clash v w := by
  have hfield (k : String) : v'.field k = v.field k := by rw [Wks.field, Wks.field, hrest]
  simp only [Clash, Named, Shares, hfield, hmac]

/-- The entries are those of a list, their `tid`s are their positions, and no two named
workstations clash.  With `lenient`, an entry marked empty needs no `tid`. -/
structure Tidy (lenient : Bool) (cfg : Config) : Prop where
  contiguous : ∃ n : ℕ, ∀ q, cfg q ≠ none ↔ ∃ i : ℕ, 1 ≤ i ∧ i ≤ n ∧ q = i
  tid : ∀ q w, cfg q = some w → tonumber w.tid = some q ∨ lenient = true ∧ marked w
  distinct : ∀ q q' w w', cfg q = some w → cfg q' = some w' → q ≠ q' → ¬ Clash w w'

/-- The slot is in the list or the next one after it. -/
def Next (cfg : Config) (k : ℚ) : Prop := k = 1 ∨ cfg k ≠ none ∨ cfg (k - 1) ≠ none

section

variable {lenient : Bool} {cfg : Config} {k : ℚ} {w : Wks}

theorem update_ne_none {q : ℚ} :
    Function.update cfg k (some w) q ≠ none ↔ q = k ∨ cfg q ≠ none := by
  by_cases hq : q = k
  · subst hq
    simp
  · rw [Function.update_of_ne hq]
    exact ⟨Or.inr, fun h => h.resolve_left hq⟩

theorem contiguous_update {n : ℕ}
    (h : ∀ q, cfg q ≠ none ↔ ∃ i : ℕ, 1 ≤ i ∧ i ≤ n ∧ q = i) :
    (∃ m : ℕ, ∀ q, Function.update cfg k (some w) q ≠ none ↔ ∃ i : ℕ, 1 ≤ i ∧ i ≤ m ∧ q = i) ↔
      Next cfg k := by
  constructor
  · intro ⟨m, hm⟩
    obtain ⟨i, hi, him, rfl⟩ := (hm k).mp (update_ne_none.mpr (Or.inl rfl))
    by_cases hone : i = 1
    · exact Or.inl (by rw [hone]; rfl)
    · have hbefore : ((i - 1 : ℕ) : ℚ) = i - 1 := Nat.cast_pred (by omega)
      have hne : ((i : ℚ) - 1) ≠ i := by
        intro heq
        rw [← hbefore, Nat.cast_inj] at heq
        omega
      have hnew := (hm ((i : ℚ) - 1)).mpr ⟨i - 1, by omega, by omega, hbefore.symm⟩
      exact Or.inr (Or.inr ((update_ne_none.mp hnew).resolve_left hne))
  · intro hnext
    -- the slot is a position up to the next one
    have hslot : ∃ j : ℕ, 1 ≤ j ∧ j ≤ n + 1 ∧ k = j := by
      obtain hk | hk | hk := hnext
      · exact ⟨1, by omega, by omega, by rw [hk]; rfl⟩
      · obtain ⟨i, hi, hin, hki⟩ := (h k).mp hk
        exact ⟨i, hi, by omega, hki⟩
      · obtain ⟨i, hi, hin, hki⟩ := (h (k - 1)).mp hk
        refine ⟨i + 1, by omega, by omega, ?_⟩
        rw [Nat.cast_add, Nat.cast_one, ← hki, sub_add_cancel]
    obtain ⟨j, hj, hjn, rfl⟩ := hslot
    refine ⟨max n j, fun q => ?_⟩
    rw [update_ne_none, h q]
    constructor
    · intro hq
      obtain hq | ⟨i, hi, hin, hq⟩ := hq
      · exact ⟨j, hj, by omega, hq⟩
      · exact ⟨i, hi, by omega, hq⟩
    · intro ⟨i, hi, him, hq⟩
      by_cases hij : i = j
      · exact Or.inl (by rw [hq, hij])
      · exact Or.inr ⟨i, hi, by omega, hq⟩

/-- One entry is stored. -/
theorem tidy_update (h : Tidy lenient cfg) : Tidy lenient (Function.update cfg k (some w)) ↔
    Next cfg k ∧ (tonumber w.tid = some k ∨ lenient = true ∧ marked w) ∧
      ∀ q v, q ≠ k → cfg q = some v → ¬ Clash w v := by
  obtain ⟨n, hn⟩ := h.contiguous
  have hself : Function.update cfg k (some w) k = some w := Function.update_self k _ cfg
  have hother {q : ℚ} (hq : q ≠ k) : Function.update cfg k (some w) q = cfg q :=
    Function.update_of_ne hq _ _
  constructor
  · intro h'
    refine ⟨(contiguous_update hn).mp h'.contiguous, h'.tid k w hself, fun q v hq hv => ?_⟩
    exact h'.distinct k q w v hself (by rw [hother hq, hv]) (Ne.symm hq)
  · intro ⟨hnext, htid, hclash⟩
    refine ⟨(contiguous_update hn).mpr hnext, fun q v hv => ?_, fun q q' v v' hv hv' hne => ?_⟩
    · by_cases hq : q = k
      · subst hq
        rw [hself] at hv
        exact Option.some.inj hv ▸ htid
      · exact h.tid q v (hother hq ▸ hv)
    · by_cases hq : q = k
      · subst hq
        rw [hself] at hv
        rw [hother (Ne.symm hne)] at hv'
        exact Option.some.inj hv ▸ hclash q' v' (Ne.symm hne) hv'
      · by_cases hq' : q' = k
        · subst hq'
          rw [hself] at hv'
          rw [hother hq] at hv
          exact fun hc => hclash q v hq hv (Option.some.inj hv' ▸ hc.symm)
        · exact h.distinct q q' v v' (hother hq ▸ hv) (hother hq' ▸ hv') hne

/-- What a request has to meet so that the table stays tidy. -/
def Keeps (lenient : Bool) (cfg : Config) : Op → Prop
  | .applyMy r => ∀ k, tonumber r.tid = some k → (∀ x, r.tid = .num x → cfg k = none) →
    Next cfg k ∧ ∀ q v, q ≠ k → cfg q = some v → ¬ Clash r v
  | .deleteMachine id => lenient = true ∨
    ∀ k v, tonumber (.str id) = some k → cfg k = some v → tostring v.tid ≠ id
  | .enable _ _ => True
  | .disable _ _ => True

/-- Super-mode requests change flags only. -/
theorem saved_super {op : Op} (h : op.reloads = true) {v : Wks} {entry : Option Wks}
    (hsaved : (op.outcome (some v)).saved = some entry) :
    ∃ v', entry = some v' ∧ v'.tid = v.tid ∧ v'.mac = v.mac ∧ v'.empty = v.empty ∧
      v'.rest = v.rest := by
  cases op with
  | enable id jsondata =>
    simp only [Op.outcome, Option.elim_some, Update.enable] at hsaved
    split at hsaved
    · exact absurd hsaved (by simp [Outcome.saved])
    · split at hsaved
      · exact absurd hsaved (by simp [Outcome.saved])
      · exact ⟨_, (Option.some.inj hsaved).symm, rfl, rfl, rfl, rfl⟩
  | disable kind id =>
    simp only [Op.outcome, Option.elim_some, Update.disable] at hsaved
    split at hsaved
    · exact absurd hsaved (by simp [Outcome.saved])
    · split at hsaved
      · split at hsaved
        · exact absurd hsaved (by simp [Outcome.saved])
        · exact ⟨_, (Option.some.inj hsaved).symm, rfl, rfl, rfl, rfl⟩
      · exact absurd hsaved (by simp [Outcome.saved])
  | applyMy r => cases h
  | deleteMachine id => cases h

theorem tidy_super (h : Tidy lenient cfg) {op : Op} (hop : op.reloads = true) :
    Tidy lenient (edit cfg op) := by
  cases htarget : op.target with
  | none =>
    rw [edit, htarget]
    exact h
  | some k =>
    rw [edit_of_target htarget]
    cases hsaved : (op.outcome (cfg k)).saved with
    | none =>
      rw [Option.getD_none, Function.update_eq_self]
      exact h
    | some entry =>
      cases hk : cfg k with
      | none =>
        rw [hk, Op.saved_none hop] at hsaved
        exact absurd hsaved (by simp)
      | some v =>
        rw [hk] at hsaved
        obtain ⟨v', rfl, htid, hmac, hempty, hrest⟩ := saved_super hop hsaved
        rw [Option.getD_some, tidy_update h]
        refine ⟨Or.inr (Or.inl (by rw [hk]; simp)), ?_, fun q u hq hu hclash => ?_⟩
        · rw [htid, marked, hempty]
          exact h.tid k v hk
        · exact h.distinct k q v u hk hu (Ne.symm hq) ((clash_congr hmac hrest).mp hclash)

theorem tidy_applyMy_iff (h : Tidy lenient cfg) (r : Wks) :
    Tidy lenient (edit cfg (.applyMy r)) ↔ Keeps lenient cfg (.applyMy r) := by
  cases hk : tonumber r.tid with
  | none =>
    rw [edit, Op.target, hk]
    exact iff_of_true h fun k hk' => absurd (hk.symm.trans hk') (by simp)
  | some k =>
    have htarget : (Op.applyMy r).target = some k := hk
    rw [edit_of_target htarget]
    by_cases hfree : ∀ x, r.tid = .num x → cfg k = none
    · have hsaves : (Op.applyMy r).outcome (cfg k) = .saves (some r) := applyMy_saves hfree
      rw [hsaves, Outcome.saved, Option.getD_some, tidy_update h]
      constructor
      · intro ⟨hnext, _, hclash⟩ k' hk' _
        obtain rfl : k = k' := Option.some.inj (hk.symm.trans hk')
        exact ⟨hnext, hclash⟩
      · intro hkeeps
        obtain ⟨hnext, hclash⟩ := hkeeps k hk hfree
        exact ⟨hnext, Or.inl hk, hclash⟩
    · have hleaves : (Op.applyMy r).outcome (cfg k) = .leaves := by
        obtain ⟨x, hx⟩ := not_forall.mp hfree
        obtain ⟨htid, htaken⟩ := Classical.not_imp.mp hx
        obtain ⟨v, hv⟩ := Option.ne_none_iff_exists'.mp htaken
        rw [Op.outcome, hv]
        unfold applyMy
        rw [htid]
      rw [hleaves, Outcome.saved, Option.getD_none, Function.update_eq_self]
      refine iff_of_true h fun k' hk' hfree' => absurd ?_ hfree
      obtain rfl : k = k' := Option.some.inj (hk.symm.trans hk')
      exact hfree'

theorem tidy_deleteMachine_iff (h : Tidy lenient cfg) (id : Str) :
    Tidy lenient (edit cfg (.deleteMachine id)) ↔ Keeps lenient cfg (.deleteMachine id) := by
  cases hk : tonumber (.str id) with
  | none =>
    rw [edit, Op.target, hk]
    exact iff_of_true h (Or.inr fun k v hk' => absurd (hk.symm.trans hk') (by simp))
  | some k =>
    have hmisses {w : Option Wks} (hw : cfg k = w) (hne : ∀ v, w = some v → tostring v.tid ≠ id) :
        Keeps lenient cfg (.deleteMachine id) := by
      refine Or.inr fun k' v hk' hv => hne v ?_
      obtain rfl : k = k' := Option.some.inj (hk.symm.trans hk')
      exact hw.symm.trans hv
    have htarget : (Op.deleteMachine id).target = some k := hk
    rw [edit_of_target htarget, Op.outcome]
    cases hentry : cfg k with
    | none =>
      rw [deleteMachine, Outcome.saved, Option.getD_some, ← hentry, Function.update_eq_self]
      exact iff_of_true h (hmisses hentry fun v hv => absurd hv (by simp))
    | some v =>
      rw [deleteMachine]
      by_cases htid : tostring v.tid = id
      · rw [if_pos htid, Outcome.saved, Option.getD_some, tidy_update h]
        constructor
        · intro ⟨_, hslot, _⟩
          exact Or.inl (hslot.resolve_left (by simp [emptied, tonumber])).1
        · intro hkeeps
          have hlenient : lenient = true :=
            hkeeps.resolve_right fun hne => hne k v hk hentry htid
          refine ⟨Or.inr (Or.inl (by rw [hentry]; simp)), Or.inr ⟨hlenient, rfl⟩, ?_⟩
          intro q u _ _ hclash
          exact absurd rfl hclash.1
      · rw [if_neg htid, Outcome.saved, Option.getD_some, ← hentry, Function.update_eq_self]
        refine iff_of_true h (hmisses hentry fun u hu => ?_)
        rwa [← Option.some.inj hu]

theorem tidy_edit_iff (op : Op) (h : Tidy lenient cfg) :
    Tidy lenient (edit cfg op) ↔ Keeps lenient cfg op := by
  cases op with
  | enable id jsondata | disable kind id => exact iff_of_true (tidy_super h rfl) trivial
  | applyMy r => exact tidy_applyMy_iff h r
  | deleteMachine id => exact tidy_deleteMachine_iff h id

end

/-- The table stays tidy through a sequence of requests exactly when every one of them
finds what it relies on. -/
theorem tidy_throughout_iff (lenient : Bool) {cfg : Config} (h : Tidy lenient cfg)
    (ops : List Op) : Throughout edit (Tidy lenient) cfg ops ↔ Along edit (Keeps lenient) cfg ops :=
  throughout_iff_along (fun _ op hcfg => tidy_edit_iff op hcfg) h

/-- As long as a list that is not empty is tidy, a workstation can be added. -/
theorem Tidy.allocates {lenient : Bool} {l : List Wks} (h : Tidy lenient (ofList l))
    (hne : l ≠ []) :
    Allocates l := by
  by_cases hmarked : ∃ w ∈ l, marked w
  · exact allocates_of_marked hmarked
  · have hfull : ∀ w ∈ l, ¬ marked w := fun w hw hm => hmarked ⟨w, hw, hm⟩
    obtain ⟨l, w, rfl⟩ := (List.eq_nil_or_concat' l).resolve_left hne
    have hlast : ofList (l ++ [w]) ((l.length + 1 : ℕ) : ℚ) = some w := by
      rw [ofList_nat _ (by omega), Nat.add_sub_cancel, List.getElem?_concat_length]
    have htid := (h.tid _ w hlast).resolve_right fun hm =>
      hfull w (List.mem_append_right _ (List.mem_singleton_self w)) hm.2
    exact allocates_of_last hfull htid

/-! Workstations that are added to an empty table. -/

def pc (tid ipv4 mac : String) : Wks :=
  { tid := .str tid.toList, supper := zero, mac := .str mac.toList, empty := .nil, img := some [],
    rest := [("name".toList, .str "PC003".toList), ("ipv4".toList, .str ipv4.toList)] }

def noWks : Config := fun _ => none

theorem tidy_noWks (lenient : Bool) : Tidy lenient noWks where
  contiguous := ⟨0, fun q => iff_of_false (fun h => h rfl) fun ⟨i, hi, hin, _⟩ => by omega⟩
  tid := fun q w h => absurd h (by simp [noWks])
  distinct := fun q q' w w' h => absurd h (by simp [noWks])

def firstPc : Wks := pc "1" "192.168.0.3" "b4:2e:99:2c:dd:52"

theorem tonumber_one : tonumber (.str "1".toList) = some 1 := by decide +kernel

theorem keeps_firstPc (lenient : Bool) : Keeps lenient noWks (.applyMy firstPc) := by
  intro k hk _
  obtain rfl : 1 = k := Option.some.inj (tonumber_one.symm.trans hk)
  exact ⟨Or.inl rfl, fun q v _ hv => absurd hv (by simp [noWks])⟩

theorem firstPc_added_and_deleted :
    Throughout edit (Tidy true) noWks [.applyMy firstPc, .deleteMachine "1".toList] :=
  (tidy_throughout_iff true (tidy_noWks true) _).mpr ⟨keeps_firstPc true, Or.inl rfl, trivial⟩

/-- A gap, a second workstation with the address of the first, and a deleted entry. -/
theorem untidy_requests : ∃ cfg, Tidy false cfg ∧
    ¬ Tidy true (edit cfg (.applyMy (pc "3" "192.168.0.5" "b4:2e:99:2c:de:5c"))) ∧
    ¬ Tidy true (edit cfg (.applyMy (pc "2" "192.168.0.3" "b4:2e:99:2c:de:5c"))) ∧
    ¬ Tidy false (edit cfg (.deleteMachine "1".toList)) := by
  have htidy (lenient : Bool) : Tidy lenient (edit noWks (.applyMy firstPc)) :=
    (tidy_edit_iff _ (tidy_noWks lenient)).mpr (keeps_firstPc lenient)
  have hcfg : edit noWks (.applyMy firstPc) = Function.update noWks 1 (some firstPc) :=
    edit_applyMy_str rfl tonumber_one noWks
  rw [hcfg] at htidy
  have hfirst : Function.update noWks 1 (some firstPc) 1 = some firstPc :=
    Function.update_self _ _ _
  refine ⟨_, htidy false, ?_, ?_, ?_⟩
  · rw [tidy_edit_iff _ (htidy true)]
    intro hkeeps
    obtain h | h | h := (hkeeps 3 (by decide +kernel) fun x hx => absurd hx (by simp [pc])).1
    · exact absurd h (by decide)
    · exact absurd h (by decide)
    · exact absurd h (by decide +kernel)
  · rw [tidy_edit_iff _ (htidy true)]
    intro hkeeps
    have hclash := (hkeeps 2 (by decide +kernel) fun x hx => absurd hx (by simp [pc])).2
    exact hclash 1 firstPc (by decide) hfirst
      ⟨by decide, by decide, Or.inl ⟨by decide, by decide⟩⟩
  · rw [tidy_edit_iff _ (htidy false)]
    intro hkeeps
    exact hkeeps.resolve_left (by decide) 1 firstPc tonumber_one hfirst rfl

end Update
end Control
end MkyBoot
