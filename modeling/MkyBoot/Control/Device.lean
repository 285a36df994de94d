import MkyBoot.Control.Export

/-!
# Finding a device

`search_nbd` looks for a device that nobody has open, and `nbdFree` for the device that
serves a child image.  Both ask `lsof`.

The search counts from one although the devices are numbered from zero, and takes a device
that does not exist for a free one.  `findsFree_iff` says when that does no harm.

The device of a child is found in two steps, the process that has the image open and the
device that process has open.  Either step deletes the line breaks of what it reads, so
several lines become one word.  `found_iff` says that the device is found if there is only
one line in both steps, and `getdevNbd_eq_nbdOf` that this is what the model of `nbdFree`
takes the two functions for.
-/

namespace MkyBoot
namespace Control
namespace Station

open Lua Command

/-! ## A free device -/

/-- `lsof` lists a process for device number `i`. -/
def World.busy (s : World) (i : ℕ) : Bool := s.holders.any (·.1 == Boot.devName i)

/-- The search finds a free device among the existing ones, `false` if there is none. -/
def FindsFree (s : World) (cfg : Config) : Prop :=
  ((∃ i < cfg.nbdNbds, s.busy i = false) →
    ∃ i < cfg.nbdNbds, s.busy i = false ∧ searchNbd s cfg = .str (Boot.devName i)) ∧
  ((∀ i < cfg.nbdNbds, s.busy i = true) → searchNbd s cfg = .bool false)

variable {s : World} {cfg : Config}

theorem searchNbd_zero (h : cfg.nbdNbds = 0) : searchNbd s cfg = .bool false := by
  rw [searchNbd, h]
  rfl

/-- The last device looked at does not exist, so the search always finds something. -/
theorem searchNbd_first (hpos : 0 < cfg.nbdNbds) (hnode : s.busy cfg.nbdNbds = false) :
    ∃ j, 0 < j ∧ j ≤ cfg.nbdNbds ∧ s.busy j = false ∧ searchNbd s cfg = .str (Boot.devName j) ∧
      ∀ i, 0 < i → s.busy i = false → j ≤ i := by
  cases hfind : (List.range' 1 cfg.nbdNbds).find? fun i => !s.busy i with
  | none =>
    have hlast := List.find?_range'_eq_none.mp hfind cfg.nbdNbds hpos (by omega)
    rw [hnode] at hlast
    cases hlast
  | some j =>
    obtain ⟨hfree, hmem, hbefore⟩ := List.find?_range'_eq_some.mp hfind
    obtain ⟨hone, hle⟩ := List.mem_range'_1.mp hmem
    refine ⟨j, hone, by omega, by simpa using hfree, ?_, fun i hi hbusy => ?_⟩
    · rw [searchNbd]
      exact congrArg (fun o => Option.elim o (Val.bool false) fun i => .str (Boot.devName i)) hfind
    · by_contra hlt
      have := hbefore i hi (Nat.lt_of_not_le hlt)
      rw [hbusy] at this
      cases this

/-- The search is right exactly when there are no devices, or one beside the first is free. -/
theorem findsFree_iff (hnode : ∀ i, cfg.nbdNbds ≤ i → s.busy i = false) :
    FindsFree s cfg ↔
      cfg.nbdNbds = 0 ∨ ∃ i, 0 < i ∧ i < cfg.nbdNbds ∧ s.busy i = false := by
  obtain hzero | hpos := Nat.eq_zero_or_pos cfg.nbdNbds
  · refine iff_of_true ⟨fun h => ?_, fun _ => searchNbd_zero hzero⟩ (Or.inl hzero)
    obtain ⟨i, hi, -⟩ := h
    omega
  obtain ⟨j, hone, hle, hfree, hsearch, hfirst⟩ := searchNbd_first hpos (hnode _ (Nat.le_refl _))
  rw [FindsFree, hsearch]
  constructor
  · rintro ⟨hfinds, hnone⟩
    right
    by_cases hexists : ∃ i < cfg.nbdNbds, s.busy i = false
    · obtain ⟨i, hi, hbusy, hname⟩ := hfinds hexists
      have hij : j = i := devName_injective (Val.str.inj hname)
      exact ⟨j, hone, hij ▸ hi, hfree⟩
    · have hall : ∀ i < cfg.nbdNbds, s.busy i = true := fun i hi =>
        Bool.eq_true_of_not_eq_false fun hbusy => hexists ⟨i, hi, hbusy⟩
      cases hnone hall
  · rintro (hzero | ⟨i, hi, hlt, hbusy⟩)
    · omega
    · have hj := hfirst i hi hbusy
      refine ⟨fun _ => ⟨j, by omega, hfree, rfl⟩, fun hall => ?_⟩
      rw [hall j (by omega)] at hfree
      cases hfree

/-- Two devices, of which the second one is busy. -/
def twoDevices : Config := { shipped with nbdNbds := 2 }

def secondBusy : World :=
  { idle with holders := [(Boot.devName 1, .qemuNbd (child shipped (station [windows]) windows))] }

theorem busy_secondBusy (i : ℕ) : secondBusy.busy i = (i == 1) := by
  show (Boot.devName 1 == Boot.devName i || false) = (i == 1)
  rw [Bool.or_false, Bool.eq_iff_iff, beq_iff_eq, beq_iff_eq, devName_injective.eq_iff, eq_comm]

theorem idle_findsFree : FindsFree idle twoDevices :=
  (findsFree_iff fun _ _ => rfl).mpr (Or.inr ⟨1, by decide, by decide, rfl⟩)

/-- The first device is free, and the search returns one that does not exist. -/
theorem secondBusy_not_findsFree :
    (∀ i, twoDevices.nbdNbds ≤ i → secondBusy.busy i = false) ∧ secondBusy.busy 0 = false ∧
      searchNbd secondBusy twoDevices = .str "/dev/nbd2".toList ∧
      ¬ FindsFree secondBusy twoDevices := by
  have hsearch : searchNbd secondBusy twoDevices = .str "/dev/nbd2".toList := by decide +kernel
  have hnode (i : ℕ) (hi : 2 ≤ i) : secondBusy.busy i = false := by
    rw [busy_secondBusy, beq_eq_false_iff_ne]
    omega
  refine ⟨hnode, by rw [busy_secondBusy]; rfl, hsearch, fun h => ?_⟩
  obtain ⟨i, hi, -, hname⟩ := h.1 ⟨0, by decide, by rw [busy_secondBusy]; rfl⟩
  rw [hsearch] at hname
  have htwo : 2 = i := devName_injective (Val.str.inj hname)
  exact absurd hi (by rw [← htwo]; decide)

/-! ## The device of a child -/

/-- What `lsof` prints. -/
structure Lsof where
  /-- The processes that `lsof -t` lists for a file. -/
  pids : Str → List ℕ
  pids_pos : ∀ path, ∀ p ∈ pids path, 0 < p
  /-- The lines of `lsof -p`, none if there is no such process. -/
  lines : Str → List Str
  /-- The processes that are a `qemu-nbd`. -/
  qemuNbd : ℕ → Bool

def pidText (p : ℕ) : Str := Nat.toDigits 10 p

/-- Every line ends with a line break. -/
def printed (ls : List Str) : Str := ls.flatMap (· ++ ['\n'])

/-- `gsub("%s+", "")` -/
def unspaced (text : Str) : Str := text.filter (!isSpace ·)

/-- `$NF` of `awk`.  The only white space in a line of `lsof` are blanks. -/
def lastField (line : Str) : Str := (line.rdropWhile isSpace).rtakeWhile (!isSpace ·)

/-- The lines that `awk` prints the last field of. -/
def onNbd (ls : List Str) : List Str := ls.filter ("/dev/nbd".toList <:+: ·)

/-- The text as a result, `nil` if it is empty. -/
def nonempty (text : Str) : Option Str := if text = [] then none else some text

section

variable (files : Str → Bool) (lsof : Lsof)

def getpidNbd (path : Str) : Option Str :=
  if !files path then none
  else if !Valid.safePath (.str path) then none
  else nonempty (unspaced (printed ((lsof.pids path).map pidText)))

def getdevNbd (pid : Option Str) : Option Str :=
  match pid with
  | none => none
  | some pid =>
    let clean := pid.filter isWord
    if !Valid.pid (.str clean) then none
    else nonempty (unspaced (printed ((onNbd (lsof.lines clean)).map lastField)))

/-- The device that `nbdFree` disconnects for a child: `nbd.del` takes device names only. -/
def disconnected (path : Str) : Option Str :=
  (getdevNbd lsof (getpidNbd files lsof path)).filter fun d => Valid.devPath (.str d)

/-- Device number `i` is the one the process has open. -/
def Lsof.Holds (p i : ℕ) : Prop :=
  (∃ line ∈ lsof.lines (pidText p), lastField line = Boot.devName i) ∧
    ∀ line ∈ lsof.lines (pidText p), ∀ j, lastField line = Boot.devName j → j = i

/-- The process is one of those listed, and the device of a `qemu-nbd` among them is found
and disconnected. -/
def Found (path : Str) : Prop :=
  (lsof.pids path = [] → getpidNbd files lsof path = none) ∧
  (lsof.pids path ≠ [] → ∃ p ∈ lsof.pids path, getpidNbd files lsof path = some (pidText p)) ∧
  ∀ q ∈ lsof.pids path, lsof.qemuNbd q = true → ∀ i, lsof.Holds q i →
    getdevNbd lsof (getpidNbd files lsof path) = some (Boot.devName i) ∧
      disconnected files lsof path = some (Boot.devName i)

end

/-! Lines that are joined are one of them only if there is one line. -/

theorem eq_singleton_of_flatMap {α β : Type} {f : α → List β} {l : List α} {a : α}
    (hne : ∀ x ∈ l, f x ≠ []) (ha : a ∈ l) (h : l.flatMap f = f a) : l = [a] := by
  obtain ⟨u, v, rfl⟩ := List.append_of_mem ha
  have hlength := congrArg List.length h
  rw [List.flatMap_append, List.flatMap_cons, List.length_append, List.length_append] at hlength
  have hnil {x : List α} (hx : ∀ y ∈ x, f y ≠ []) (hzero : (x.flatMap f).length = 0) : x = [] := by
    rw [List.eq_nil_iff_forall_not_mem]
    intro y hy
    exact hx y hy (List.flatMap_eq_nil_iff.mp (List.length_eq_zero_iff.mp hzero) y hy)
  have hu : u = [] := hnil (fun y hy => hne y (List.mem_append_left _ hy)) (by omega)
  have hv : v = [] := hnil
    (fun y hy => hne y (List.mem_append_right _ (List.mem_cons_of_mem _ hy))) (by omega)
  rw [hu, hv, List.nil_append]

theorem unspaced_printed (ls : List Str) : unspaced (printed ls) = ls.flatMap unspaced := by
  rw [unspaced, printed, List.filter_flatMap]
  refine List.flatMap_congr fun line _ => ?_
  rw [List.filter_append, unspaced]
  exact List.append_nil _

theorem unspaced_eq_self {text : Str} (h : ∀ c ∈ text, isSpace c = false) :
    unspaced text = text :=
  List.filter_eq_self.mpr fun c hc => by rw [h c hc]; rfl

theorem isSpace_lastField {line : Str} : ∀ c ∈ lastField line, isSpace c = false :=
  fun _ hc => by simpa using List.mem_rtakeWhile_imp hc

theorem lastField_infix (line : Str) : lastField line <:+: line :=
  (List.rtakeWhile_suffix _ _).isInfix.trans (List.rdropWhile_prefix _ _).isInfix

theorem lastField_ne_nil {line : Str} {c : Char} (hmem : c ∈ line) (hc : isSpace c = false) :
    lastField line ≠ [] := by
  have hne : line.rdropWhile isSpace ≠ [] := by
    intro hnil
    have hall := List.rdropWhile_eq_nil_iff.mp hnil c hmem
    rw [hc] at hall
    cases hall
  intro hnil
  have hlast := List.rtakeWhile_eq_nil_iff.mp hnil hne
  have hspace := List.rdropWhile_last_not isSpace line hne
  rw [Bool.not_eq_true] at hspace
  rw [hspace] at hlast
  exact hlast rfl

theorem isSpace_pidText (p : ℕ) : ∀ c ∈ pidText p, isSpace c = false := by
  intro c hc
  have hdigit := isDigit_iff.mp (Nat.isDigit_of_mem_toDigits (by omega) (by omega) hc)
  rw [isSpace, Bool.or_eq_false_iff, beq_eq_false_iff_ne]
  refine ⟨?_, by simp; omega⟩
  rintro rfl
  exact absurd hdigit (by decide)

theorem valid_pidText {p : ℕ} (hp : 0 < p) : Valid.pid (.str (pidText p)) = true := by
  have hdigits : Valid.digits (pidText p) = true := by
    rw [Valid.digits, Bool.and_eq_true, decide_eq_true_eq, List.all_eq_true]
    exact ⟨Nat.toDigits_ne_nil, fun c hc => Nat.isDigit_of_mem_toDigits (by omega) (by omega) hc⟩
  show (Valid.digits (pidText p) &&
    (tonumber (.str (pidText p))).any fun q => decide (0 < q)) = true
  rw [hdigits, pidText, tonumber_toDigits]
  simpa using hp

/-! What the two functions find. -/

section

variable {files : Str → Bool} {lsof : Lsof} {path : Str} {p i : ℕ}

theorem nonempty_eq_some {text t : Str} : nonempty text = some t ↔ text = t ∧ t ≠ [] := by
  rw [nonempty]
  by_cases h : text = []
  · rw [if_pos h, h]
    exact iff_of_false (Option.some_ne_none t).symm fun ht => ht.2 ht.1.symm
  · rw [if_neg h, Option.some_inj]
    exact ⟨fun ht => ⟨ht, ht ▸ h⟩, And.left⟩

theorem flatMap_pidText (ps : List ℕ) :
    unspaced (printed (ps.map pidText)) = ps.flatMap pidText := by
  rw [unspaced_printed, List.flatMap_map]
  exact List.flatMap_congr fun p _ => unspaced_eq_self (isSpace_pidText p)

theorem getpidNbd_iff {t : Str} : getpidNbd files lsof path = some t ↔
    files path = true ∧ Valid.safePath (.str path) = true ∧
      (lsof.pids path).flatMap pidText = t ∧ t ≠ [] := by
  rw [getpidNbd, flatMap_pidText]
  cases files path <;> cases Valid.safePath (.str path) <;> simp [nonempty_eq_some]

theorem getpidNbd_pidText_iff (hp : p ∈ lsof.pids path) :
    getpidNbd files lsof path = some (pidText p) ↔
      files path = true ∧ Valid.safePath (.str path) = true ∧ lsof.pids path = [p] := by
  have hne : pidText p ≠ [] := Nat.toDigits_ne_nil
  rw [getpidNbd_iff, and_iff_left hne]
  refine and_congr_right fun _ => and_congr_right fun _ => ⟨fun h => ?_, fun h => ?_⟩
  · exact eq_singleton_of_flatMap (fun _ _ => Nat.toDigits_ne_nil) hp h
  · rw [h, List.flatMap_singleton]

theorem getdevNbd_pidText (hp : 0 < p) : getdevNbd lsof (some (pidText p)) =
    nonempty ((onNbd (lsof.lines (pidText p))).flatMap lastField) := by
  have hclean : (pidText p).filter isWord = pidText p := List.filter_eq_self.mpr fun c hc =>
    isWord_of_isDigit (Nat.isDigit_of_mem_toDigits (by omega) (by omega) hc)
  rw [getdevNbd, hclean, valid_pidText hp, Bool.not_true, if_neg Bool.false_ne_true,
    unspaced_printed, List.flatMap_map]
  exact congrArg nonempty (List.flatMap_congr fun _ _ => unspaced_eq_self isSpace_lastField)

theorem mem_onNbd {ls : List Str} {line : Str} :
    line ∈ onNbd ls ↔ line ∈ ls ∧ "/dev/nbd".toList <:+: line := by
  rw [onNbd, List.mem_filter, decide_eq_true_eq]

/-- The device of the process is found exactly when one line only is about devices. -/
theorem getdevNbd_holds (hp : 0 < p) (hholds : lsof.Holds p i) :
    getdevNbd lsof (some (pidText p)) = some (Boot.devName i) ↔
      (onNbd (lsof.lines (pidText p))).length = 1 := by
  obtain ⟨⟨line, hline, hfield⟩, -⟩ := hholds
  have hname : "/dev/nbd".toList <:+: Boot.devName i := (List.prefix_append _ _).isInfix
  have hmem : line ∈ onNbd (lsof.lines (pidText p)) :=
    mem_onNbd.mpr ⟨hline, hname.trans (hfield ▸ lastField_infix line)⟩
  have hne : ∀ line ∈ onNbd (lsof.lines (pidText p)), lastField line ≠ [] := fun line hmem =>
    lastField_ne_nil ((mem_onNbd.mp hmem).2.subset (List.mem_cons_self (a := '/'))) (by decide)
  rw [getdevNbd_pidText hp, nonempty_eq_some, ← hfield, and_iff_left (hne line hmem)]
  constructor
  · intro h
    rw [eq_singleton_of_flatMap hne hmem h, List.length_singleton]
  · intro h
    obtain ⟨only, honly⟩ := List.length_eq_one_iff.mp h
    rw [honly, List.mem_singleton] at hmem
    rw [honly, List.flatMap_singleton, hmem]

theorem disconnected_devName
    (h : getdevNbd lsof (getpidNbd files lsof path) = some (Boot.devName i)) :
    disconnected files lsof path = some (Boot.devName i) := by
  rw [disconnected, h, Option.filter_some, devPath_devName, if_pos rfl]

/-- The device of a child is found exactly when `lsof` lists no process for it, or lists one
only, for a file whose name is accepted, and `/dev/nbd` stands in one line only of that
process if it is a `qemu-nbd` with a device. -/
theorem found_iff (files : Str → Bool) (lsof : Lsof) (path : Str) : Found files lsof path ↔
    lsof.pids path = [] ∨ files path = true ∧ Valid.safePath (.str path) = true ∧
      ∃ p, lsof.pids path = [p] ∧ (lsof.qemuNbd p = true → ∀ i, lsof.Holds p i →
        (onNbd (lsof.lines (pidText p))).length = 1) := by
  constructor
  · rintro ⟨-, hone, hdev⟩
    by_cases hnil : lsof.pids path = []
    · exact Or.inl hnil
    obtain ⟨p, hp, hpid⟩ := hone hnil
    obtain ⟨hfile, hsafe, hlist⟩ := (getpidNbd_pidText_iff hp).mp hpid
    refine Or.inr ⟨hfile, hsafe, p, hlist, fun hqemu i hholds => ?_⟩
    have hfound := (hdev p hp hqemu i hholds).1
    rw [hpid] at hfound
    exact (getdevNbd_holds (lsof.pids_pos path p hp) hholds).mp hfound
  · rintro (hnil | ⟨hfile, hsafe, p, hlist, hdev⟩)
    · refine ⟨fun _ => ?_, fun hne => absurd hnil hne, fun q hq => ?_⟩
      · rw [Option.eq_none_iff_forall_ne_some]
        intro t ht
        obtain ⟨-, -, htext, hne⟩ := getpidNbd_iff.mp ht
        rw [hnil] at htext
        exact hne htext.symm
      · rw [hnil] at hq
        cases hq
    · have hp : p ∈ lsof.pids path := hlist ▸ List.mem_singleton_self p
      have hpid : getpidNbd files lsof path = some (pidText p) :=
        (getpidNbd_pidText_iff hp).mpr ⟨hfile, hsafe, hlist⟩
      refine ⟨fun hnil => absurd (hnil ▸ hp) List.not_mem_nil, fun _ => ⟨p, hp, hpid⟩, ?_⟩
      intro q hq hqemu i hholds
      obtain rfl : q = p := by rwa [hlist, List.mem_singleton] at hq
      have hfound : getdevNbd lsof (getpidNbd files lsof path) = some (Boot.devName i) := by
        rw [hpid]
        exact (getdevNbd_holds (lsof.pids_pos path q hp) hholds).mpr (hdev hqemu i hholds)
      exact ⟨hfound, disconnected_devName hfound⟩

end

/-- A `qemu-nbd` with number 100 serves the child, and process 200 reads it. -/
def twoReaders : Lsof where
  pids _ := [100, 200]
  pids_pos _ := by decide
  lines pid :=
    if pid = "100".toList then ["qemu-nbd 100 root 9u BLK 43,16 0t0 712 /dev/nbd1".toList] else []
  qemuNbd p := p == 100

/-- The two numbers are joined, and the device of the first process is not found. -/
theorem twoReaders_not_found :
    getpidNbd (fun _ => true) twoReaders "/srv/writeback/a".toList = some "100200".toList ∧
      twoReaders.Holds 100 1 ∧
      disconnected (fun _ => true) twoReaders "/srv/writeback/a".toList = none ∧
      ¬ Found (fun _ => true) twoReaders "/srv/writeback/a".toList := by
  have hpid : getpidNbd (fun _ => true) twoReaders "/srv/writeback/a".toList =
      some "100200".toList := by decide +kernel
  have hlast : lastField "qemu-nbd 100 root 9u BLK 43,16 0t0 712 /dev/nbd1".toList =
      Boot.devName 1 := by decide +kernel
  have hlines : twoReaders.lines (pidText 100) =
      ["qemu-nbd 100 root 9u BLK 43,16 0t0 712 /dev/nbd1".toList] := by decide +kernel
  have hholds : twoReaders.Holds 100 1 := by
    rw [Lsof.Holds, hlines]
    simp only [List.mem_singleton, exists_eq_left, forall_eq, hlast, true_and]
    exact fun j hj => (devName_injective hj).symm
  have hnone : disconnected (fun _ => true) twoReaders "/srv/writeback/a".toList = none := by
    decide +kernel
  refine ⟨hpid, hholds, hnone, fun h => ?_⟩
  have hfound := (h.2.2 100 List.mem_cons_self rfl 1 hholds).2
  rw [hnone] at hfound
  cases hfound

/-! ## The device of a child in the world -/

/-- `lsof` prints what the world is: a number for each process, one line for the device of a
`qemu-nbd`, and no devices of other processes.  Numbers that are joined are those of no
process with a device. -/
structure Shows (s : World) (lsof : Lsof) where
  pid : Str × Holder → ℕ
  others : Str → List ℕ
  others_iff : ∀ image, others image = [] ↔ image ∉ s.held
  pids_perm : ∀ image,
    (lsof.pids image).Perm ((s.holders.filter (·.2 == .qemuNbd image)).map pid ++ others image)
  lines_served : ∀ h ∈ s.holders, h.2.serves = true →
    (onNbd (lsof.lines (pidText (pid h)))).map lastField = [h.1]
  lines_other : ∀ image, ∀ p ∈ others image, onNbd (lsof.lines (pidText p)) = []
  lines_joined : ∀ image, 2 ≤ (lsof.pids image).length →
    onNbd (lsof.lines ((lsof.pids image).flatMap pidText)) = []

theorem filter_flatMap_pidText (ps : List ℕ) :
    (ps.flatMap pidText).filter isWord = ps.flatMap pidText := by
  refine List.filter_eq_self.mpr fun c hc => ?_
  obtain ⟨p, -, hp⟩ := List.mem_flatMap.mp hc
  exact isWord_of_isDigit (Nat.isDigit_of_mem_toDigits (by omega) (by omega) hp)

theorem getdevNbd_eq_none {lsof : Lsof} {ps : List ℕ}
    (h : onNbd (lsof.lines (ps.flatMap pidText)) = []) :
    getdevNbd lsof (nonempty (ps.flatMap pidText)) = none := by
  rw [nonempty]
  split
  · rfl
  · rw [getdevNbd, filter_flatMap_pidText, h]
    exact ite_self none

/-- A file that another process has open: that process is the only one, or the numbers are
joined. -/
theorem Shows.lines_held {lsof : Lsof} (shows : Shows s lsof) {image : Str}
    (h : image ∈ s.held) : onNbd (lsof.lines ((lsof.pids image).flatMap pidText)) = [] := by
  have hother : shows.others image ≠ [] := fun hnil => (shows.others_iff image).mp hnil h
  obtain ⟨p, hp⟩ := List.exists_mem_of_ne_nil _ hother
  have hmem : p ∈ lsof.pids image :=
    (shows.pids_perm image).mem_iff.mpr (List.mem_append_right _ hp)
  obtain hmany | hfew := Nat.lt_or_ge 1 (lsof.pids image).length
  · exact shows.lines_joined image hmany
  · obtain ⟨q, hq⟩ := List.length_eq_one_iff.mp
      (Nat.le_antisymm hfew (List.length_pos_of_mem hmem))
    rw [hq, List.mem_singleton] at hmem
    rw [hq, List.flatMap_singleton, ← hmem]
    exact shows.lines_other image p hp

section

variable {env : Env} {lsof : Lsof}

theorem Shows.getdevNbd_single (shows : Shows s lsof) {image : Str} {h : Str × Holder}
    (hmem : h ∈ s.holders) (hserves : h.2.serves = true) (hpids : lsof.pids image = [shows.pid h]) :
    getdevNbd lsof (nonempty ((lsof.pids image).flatMap pidText)) = some h.1 := by
  have hpos : 0 < shows.pid h := lsof.pids_pos image _ (hpids ▸ List.mem_singleton_self _)
  have hpid : nonempty (pidText (shows.pid h)) = some (pidText (shows.pid h)) :=
    nonempty_eq_some.mpr ⟨rfl, Nat.toDigits_ne_nil⟩
  have hline := shows.lines_served h hmem hserves
  obtain ⟨line, hlines, hfield⟩ := List.map_eq_singleton_iff.mp hline
  have hon : line ∈ onNbd (lsof.lines (pidText (shows.pid h))) := hlines ▸ List.mem_singleton_self _
  have hne : lastField line ≠ [] :=
    lastField_ne_nil ((mem_onNbd.mp hon).2.subset (List.mem_cons_self (a := '/'))) (by decide)
  rw [hpids, List.flatMap_singleton, hpid, getdevNbd_pidText hpos, hlines, List.flatMap_singleton,
    nonempty_eq_some, hfield]
  exact ⟨rfl, hfield ▸ hne⟩

theorem nbdOf_of_single {image : Str} {h : Str × Holder}
    (hok : (isFile env s (.str image) && Valid.safePath (.str image)) = true)
    (hheld : image ∉ s.held) (hone : s.holders.filter (·.2 == .qemuNbd image) = [h]) :
    nbdOf env s image = some h.1 := by
  rw [nbdOf, hok, hone, Bool.true_and, if_pos (by simpa using hheld)]

theorem nbdOf_eq_none {image : Str} (h : image ∈ s.held ∨
    (s.holders.filter (·.2 == .qemuNbd image)).length ≠ 1) : nbdOf env s image = none := by
  rw [nbdOf]
  split_ifs with hok
  · obtain hheld | hlength := h
    · simp [hheld] at hok
    · split
      · rename_i hone
        rw [hone] at hlength
        exact absurd rfl hlength
      · rfl
  · rfl

/-- Together the two functions are what the model of `nbdFree` takes them for. -/
theorem getdevNbd_eq_nbdOf (shows : Shows s lsof) (image : Str) :
    getdevNbd lsof (getpidNbd (fun n => isFile env s (.str n)) lsof image) = nbdOf env s image := by
  by_cases hok : (isFile env s (.str image) && Valid.safePath (.str image)) = true
  swap
  · have hnone : getpidNbd (fun n => isFile env s (.str n)) lsof image = none := by
      rw [Option.eq_none_iff_forall_ne_some]
      intro t ht
      obtain ⟨hfile, hsafe, -⟩ := getpidNbd_iff.mp ht
      exact hok (Bool.and_eq_true_iff.mpr ⟨hfile, hsafe⟩)
    rw [Bool.not_eq_true] at hok
    rw [hnone, nbdOf, hok, Bool.false_and, if_neg Bool.false_ne_true]
    rfl
  obtain ⟨hfile, hsafe⟩ := Bool.and_eq_true_iff.mp hok
  have hpid : getpidNbd (fun n => isFile env s (.str n)) lsof image =
      nonempty ((lsof.pids image).flatMap pidText) := by
    rw [getpidNbd, flatMap_pidText, hfile, hsafe]
    rfl
  rw [hpid]
  by_cases hheld : image ∈ s.held
  · rw [nbdOf_eq_none (Or.inl hheld), getdevNbd_eq_none (shows.lines_held hheld)]
  · have hperm := shows.pids_perm image
    rw [(shows.others_iff image).mpr hheld, List.append_nil] at hperm
    have hlength := hperm.length_eq
    rw [List.length_map] at hlength
    by_cases hone : (s.holders.filter (·.2 == .qemuNbd image)).length = 1
    · obtain ⟨h, hh⟩ := List.length_eq_one_iff.mp hone
      have hmem : h ∈ s.holders.filter (·.2 == .qemuNbd image) := hh ▸ List.mem_singleton_self h
      obtain ⟨hin, hserves⟩ := List.mem_filter.mp hmem
      rw [beq_iff_eq] at hserves
      rw [hh, List.map_singleton, List.perm_singleton] at hperm
      rw [nbdOf_of_single hok hheld hh]
      exact shows.getdevNbd_single hin (by rw [hserves]; rfl) hperm
    · rw [nbdOf_eq_none (Or.inr hone)]
      obtain hmany | hfew := Nat.lt_or_ge 1 (lsof.pids image).length
      · exact getdevNbd_eq_none (shows.lines_joined image hmany)
      · have hnil : lsof.pids image = [] := List.length_eq_zero_iff.mp (by omega)
        rw [hnil]
        rfl

end

/-! Two disks are served, and a copy of the second one is being made. -/

def winChild : Str := "/srv/writeback/win10cc.qcow2_child_b42e992cdddf".toList

def gamesChild : Str := "/srv/writeback/games.qcow2_child_b42e992cdddf".toList

def copying : World :=
  { idle with
    holders := [(Boot.devName 0, .qemuNbd winChild), (Boot.devName 1, .qemuNbd gamesChild)]
    held := [gamesChild]
    files := [winChild, gamesChild] }

def copyingLsof : Lsof where
  pids path := if path = winChild then [100] else if path = gamesChild then [101, 200] else []
  pids_pos path := by
    split
    · decide
    · split
      · decide
      · decide
  lines pid :=
    if pid = "100".toList then ["qemu-nbd 100 root 9u BLK 43,0 0t0 711 /dev/nbd0".toList]
    else if pid = "101".toList then ["qemu-nbd 101 root 9u BLK 43,16 0t0 712 /dev/nbd1".toList]
    else if pid = "200".toList then ["cp 200 root 3r REG 8,1 0t0 99 ".toList ++ gamesChild]
    else []
  qemuNbd p := p == 100 || p == 101

/-- `lsof` shows the two processes of the devices and the copy. -/
theorem copying_shows : Nonempty (Shows copying copyingLsof) := by
  have hnone {image : Str} (hwin : image ≠ winChild) (hgames : image ≠ gamesChild) :
      copyingLsof.pids image = [] := (if_neg hwin).trans (if_neg hgames)
  have hshown (image : Str) : (copyingLsof.pids image).Perm
      ((copying.holders.filter (·.2 == .qemuNbd image)).map
        (fun h => if h.1 = Boot.devName 0 then 100 else 101) ++
        if image = gamesChild then [200] else []) := by
    by_cases hwin : image = winChild
    · subst hwin
      decide +kernel
    · by_cases hgames : image = gamesChild
      · subst hgames
        decide +kernel
      · have hfilter : copying.holders.filter (·.2 == .qemuNbd image) = [] := by
          simp [copying, Ne.symm hwin, Ne.symm hgames]
        rw [hnone hwin hgames, hfilter, if_neg hgames]
        exact .refl _
  refine ⟨{
    pid := fun h => if h.1 = Boot.devName 0 then 100 else 101
    others := fun image => if image = gamesChild then [200] else []
    others_iff := fun image => ?_
    pids_perm := hshown
    lines_served := by decide +kernel
    lines_other := fun image p hp => ?_
    lines_joined := fun image hmany => ?_ }⟩
  · show _ ↔ image ∉ [gamesChild]
    rw [List.mem_singleton]
    split <;> simp [*]
  · split at hp
    · rw [List.mem_singleton.mp hp]
      decide +kernel
    · cases hp
  · by_cases hwin : image = winChild
    · subst hwin
      exact absurd hmany (by decide +kernel)
    · by_cases hgames : image = gamesChild
      · subst hgames
        decide +kernel
      · rw [hnone hwin hgames] at hmany
        exact absurd hmany (by decide)

example : getdevNbd copyingLsof
    (getpidNbd (fun n => isFile lab copying (.str n)) copyingLsof winChild) =
      some "/dev/nbd0".toList := by
  obtain ⟨shows⟩ := copying_shows
  rw [getdevNbd_eq_nbdOf shows]
  decide +kernel

example : getdevNbd copyingLsof
    (getpidNbd (fun n => isFile lab copying (.str n)) copyingLsof gamesChild) = none := by
  obtain ⟨shows⟩ := copying_shows
  rw [getdevNbd_eq_nbdOf shows]
  decide +kernel

end Station
end Control
end MkyBoot
