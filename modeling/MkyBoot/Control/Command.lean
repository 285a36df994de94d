import MkyBoot.Control.Valid
import MkyBoot.Posix.Argv

/-!
# Shell commands

The functions of `mkyboot.cmd.tgt`, `lun`, `nbd`, `zfs` and `power` and of the image
module build a command line from fixed text and their arguments and hand it to the
shell.  A command line is a list of pieces joined by blanks, as the concatenations
of the source spell it, and an optional redirection.  Its intended reading is the
words of the fixed text with one word for each argument.  `os.execute` and `io.popen`
take a C string, so the shell gets the text up to its first NUL.

`accepts` is the conjunction of the tests a function makes before it builds the
command.  `commands_read_iff` says for every function and all arguments it accepts
when the shell reads the command as intended.
-/

namespace MkyBoot
namespace Control
namespace Command

open Lua Posix.Shell

/-! ## Command lines -/

inductive Piece where
  | fixed (s : String)
  | arg (v : Val)

def Piece.words : Piece → List Str
  | .fixed s => s.toList.splitOn ' '
  | .arg v => [tostring v]

def Piece.text : Piece → Str
  | .fixed s => s.toList
  | .arg v => tostring v

/-- A command line: pieces joined by blanks, and the redirection after them. -/
structure Line where
  pieces : List Piece
  redirect : Option Redirect

/-- A text handed to the shell and what it is meant to say. -/
structure Run where
  text : Str
  intended : List Token

namespace Line

def words (l : Line) : List Str := l.pieces.flatMap Piece.words

def text (l : Line) : Str :=
  [' '].intercalate (l.pieces.map Piece.text) ++ l.redirect.elim [] fun r => ' ' :: r.text

def args (l : Line) : List Val :=
  l.pieces.filterMap fun
    | .fixed _ => none
    | .arg v => some v

def intended (l : Line) : List Token :=
  l.words.map wordOf ++ l.redirect.elim [] Redirect.toks

def run (l : Line) : Run := { text := l.text, intended := l.intended }

end Line

def devNull : Redirect := ⟨['2'], ['>'], "/dev/null".toList⟩

def tmpResult : Redirect := ⟨['2'], ['>'], "/tmp/result".toList⟩

def messages : Redirect := ⟨['2'], ['>', '>'], "/var/log/messages".toList⟩

def toStdout : Redirect := ⟨['2'], ['>', '&'], ['1']⟩

/-! ## The functions -/

inductive Call where
  | tgtNew (opt tid : Val)
  | tgtDestroy (opt : Val)
  | tgtKill (opt : Val)
  | tgtShow
  | tgtRules (tid opt : Val)
  | tgtUnrul (tid opt : Val)
  | tgtUsed (tgt : Val)
  | lunAdd (tid lun dev : Val)
  | lunDel (tid lun : Val)
  | lunStop (opt : Val)
  | lunStart (opt : Val)
  | nbdMod (maxPart nbds : Val)
  | nbdUnmod
  | nbdAdd (dev path flags : Val)
  | nbdDel (dev : Val)
  | nbdKill (pid : Val)
  | nbdUsed (dev : Val)
  | nbdUsewho (dev : Val)
  | zfsMtab (args : Val)
  | zfsSnap (data : Val)
  | zfsUnsnap (data : Val)
  | zfsMount (data point : Val)
  | zfsUnmount (point : Val)
  | powerOn (iface mac : Val)
  | imageNew (path size : Val)
  | imageChild (parent child : Val)
  | imageCommit (image : Val)
  | imageUsed (image : Val)

/-- `type(s) ~= "string" or #s == 0` rejects. -/
def nonempty : Val → Bool := Valid.onStr fun s => s ≠ []

/-- The class `[;|&$()]`, and the backquote. -/
def metacharacters : Str := [';', '|', '&', '\x60', '$', '(', ')']

/-- `^[%w%-]+$` -/
def iface : Val → Bool := Valid.onStr fun s => s ≠ [] && s.all fun c => isWord c || c == '-'

/-- The function goes on to build its command. -/
def accepts : Call → Bool
  | .tgtNew opt tid => Valid.tid tid && Valid.iqn opt
  | .tgtDestroy opt | .tgtKill opt => Valid.tid opt
  | .tgtShow | .nbdUnmod => true
  | .tgtRules tid opt | .tgtUnrul tid opt => Valid.tid tid && Valid.ipv4 opt
  | .tgtUsed tgt =>
    Valid.onStr (fun s => s ≠ [] && s.length ≤ 128 && s.all (· ∉ metacharacters)) tgt
  | .lunAdd tid lun dev => Valid.tid tid && Valid.lunId lun && Valid.devPath dev
  | .lunDel tid lun => Valid.tid tid && Valid.lunId lun
  | .lunStop opt | .lunStart opt => Valid.tid opt
  | .nbdMod maxPart nbds => Valid.inRange 1 255 maxPart && Valid.inRange 1 256 nbds
  | .nbdAdd dev path flags => Valid.devPath dev && Valid.safePath path && Valid.cacheMode flags
  | .nbdDel dev | .nbdUsed dev | .nbdUsewho dev => Valid.devPath dev
  | .nbdKill pid => Valid.pid pid
  | .zfsMtab args => Valid.onStr (fun s => s ≠ [] && s.all (· ∉ metacharacters)) args
  | .zfsSnap data | .zfsUnsnap data => Valid.safePath data
  | .zfsMount data point => Valid.safePath data && Valid.safePath point
  | .zfsUnmount point => Valid.safePath point
  | .powerOn ifc mac => iface ifc && Valid.mac mac
  | .imageNew path size => nonempty path && Valid.imgSize size
  | .imageChild parent child => nonempty parent && nonempty child
  | .imageCommit image | .imageUsed image => nonempty image && Valid.safePath image

def lsofLine (v : Val) : Line := ⟨[.fixed "/usr/bin/lsof -t", .arg v], some devNull⟩

def tgtadm : String := "/usr/sbin/tgtadm --lld iscsi"

/-- The command line of a function whose arguments are plain words of it. -/
def line : Call → Option Line
  | .tgtNew opt tid =>
    some ⟨[.fixed tgtadm, .fixed "--op new --mode target --tid", .arg tid, .fixed "-T", .arg opt],
      none⟩
  | .tgtDestroy opt =>
    some ⟨[.fixed tgtadm, .fixed "--op delete --mode target --tid", .arg opt], none⟩
  | .tgtKill opt =>
    some ⟨[.fixed tgtadm, .fixed "--op delete --force --mode target --tid", .arg opt], none⟩
  | .tgtShow => some ⟨[.fixed tgtadm, .fixed "--op show --mode target"], none⟩
  | .tgtRules tid opt =>
    some ⟨[.fixed tgtadm, .fixed "--mode target --op bind --tid", .arg tid, .fixed "-I", .arg opt],
      none⟩
  | .tgtUnrul tid opt =>
    some ⟨[.fixed tgtadm, .fixed "--mode target --op unbind --tid", .arg tid, .fixed "-I",
      .arg opt], none⟩
  | .lunAdd tid lun dev =>
    some ⟨[.fixed tgtadm, .fixed "--op new --mode logicalunit --tid", .arg tid, .fixed "--lun",
      .arg lun, .fixed "-b", .arg dev], none⟩
  | .lunDel tid lun =>
    some ⟨[.fixed tgtadm, .fixed "--op delete --mode logicalunit --tid", .arg tid, .fixed "--lun",
      .arg lun], none⟩
  | .lunStop opt => some ⟨[.fixed "/usr/sbin/tgtadm --offline --tid", .arg opt], none⟩
  | .lunStart opt => some ⟨[.fixed "/usr/sbin/tgtadm --ready --tid", .arg opt], none⟩
  | .nbdMod maxPart nbds =>
    some ⟨[.fixed "/usr/sbin/modprobe nbd max_part", .arg maxPart, .fixed "nbds", .arg nbds], none⟩
  | .nbdUnmod => some ⟨[.fixed "/usr/sbin/modprobe -r nbd"], none⟩
  | .nbdAdd dev path flags =>
    some ⟨[.fixed "/srv/mkyboot/client.lua", .arg dev, .arg path, .arg flags], none⟩
  | .nbdDel dev => some ⟨[.fixed "/usr/bin/qemu-nbd -d", .arg dev], some devNull⟩
  | .nbdKill pid => some ⟨[.fixed "/usr/bin/kill -9", .arg pid], none⟩
  | .nbdUsed dev | .nbdUsewho dev => some (lsofLine dev)
  | .zfsSnap data => some ⟨[.fixed "/usr/sbin/zfs snap", .arg data], some devNull⟩
  | .zfsUnsnap data => some ⟨[.fixed "/usr/sbin/zfs destroy -f", .arg data], some devNull⟩
  | .zfsMount data point =>
    some ⟨[.fixed "/usr/bin/mount -t zfs", .arg data, .arg point], some messages⟩
  | .zfsUnmount point => some ⟨[.fixed "/usr/bin/umount -f", .arg point], some devNull⟩
  | .powerOn ifc mac => some ⟨[.fixed "/usr/sbin/etherwake -i", .arg ifc, .arg mac], none⟩
  | .imageNew path size =>
    some ⟨[.fixed "/usr/bin/qemu-img -f qcow2 -o",
      .fixed "preallocation=metadata,compat=1.1,lazy_refcounts=on encryption=off", .arg path,
      .arg size], none⟩
  | .imageChild parent child =>
    some ⟨[.fixed "/usr/bin/qemu-img create -f qcow2 -b", .arg parent, .arg child,
      .fixed "-o lazy_refcounts=on"], some tmpResult⟩
  | .imageCommit image => some ⟨[.fixed "/usr/bin/qemu-img commit", .arg image], some toStdout⟩
  | .imageUsed image => some (lsofLine image)
  -- `tgt.used` quotes its argument, and `zfs.mtab` reads a file
  | .tgtUsed _ | .zfsMtab _ => none

/-- `tgt.used` pipes the list of targets into `grep`. -/
def usedHead : Str :=
  "/usr/sbin/tgtadm --lld iscsi --op show --mode target 2>/dev/null | /usr/bin/grep \"".toList

def usedTokens : List Token :=
  ("/usr/sbin/tgtadm --lld iscsi --op show --mode target".toList.splitOn ' ').map wordOf ++
    devNull.toks ++ [.op ['|'], wordOf "/usr/bin/grep".toList]

def usedRun (tgt : Val) : Run where
  text := usedHead ++ (tostring tgt ++ '"' :: ' ' :: devNull.text)
  intended := usedTokens ++ wordOf (tostring tgt) :: devNull.toks

/-- The second command of `nbd.usewho` goes on after its `lsof`. -/
def usewhoPipe : Str := String.toList
  "| /usr/bin/xargs -I\x7b\x7d /usr/bin/cat /proc/\x7b\x7d/comm 2>/dev/null | /usr/bin/head -1"

def usewhoRun (dev : Val) : Run where
  text := (lsofLine dev).text ++ ' ' :: usewhoPipe
  intended := (lsofLine dev).intended ++ (tokens usewhoPipe).getD []

/-- The commands a call runs, in order. -/
def runs : Call → List Run
  | .tgtUsed tgt => [usedRun tgt]
  | .nbdUsewho dev => ((line (.nbdUsewho dev)).map Line.run).toList ++ [usewhoRun dev]
  | c => ((line c).map Line.run).toList

/-- The shell reads each command as intended, up to a NUL. -/
def ReadAsIntended (c : Call) : Prop := ∀ r ∈ runs c, tokens (cText r.text) = some r.intended

instance (c : Call) : Decidable (ReadAsIntended c) := inferInstanceAs (Decidable (∀ r ∈ _, _))

/-! ## Reading a line -/

theorem intercalate_blank {ws : List Str} (h : ws ≠ []) :
    [' '].intercalate ws ++ [' '] = spaced ws := by
  induction ws with
  | nil => exact absurd rfl h
  | cons w ws ih =>
    by_cases hws : ws = []
    · subst hws
      rw [List.intercalate_singleton]
      simp [spaced]
    · rw [List.intercalate_cons_of_ne_nil hws, List.append_assoc, ih hws]
      simp [spaced]

theorem Piece.words_ne_nil (p : Piece) : p.words ≠ [] := by
  cases p with
  | fixed s => exact List.splitOn_ne_nil ' ' s.toList
  | arg v => exact List.cons_ne_nil _ _

theorem Piece.spaced_words (p : Piece) : spaced p.words = p.text ++ [' '] := by
  rw [← intercalate_blank p.words_ne_nil]
  cases p with
  | fixed s => rw [Piece.words, List.intercalate_splitOn, Piece.text]
  | arg v => rw [Piece.words, List.intercalate_singleton, Piece.text]

theorem spaced_flatMap (ps : List Piece) :
    spaced (ps.flatMap Piece.words) = spaced (ps.map Piece.text) := by
  induction ps with
  | nil => rfl
  | cons p ps ih =>
    have happ (us vs : List Str) : spaced (us ++ vs) = spaced us ++ spaced vs :=
      List.flatMap_append
    rw [List.flatMap_cons, happ, ih, p.spaced_words, List.map_cons]
    rfl

theorem Line.words_ne_nil {l : Line} (h : l.pieces ≠ []) : l.words ≠ [] := by
  intro hnil
  obtain ⟨p, ps, hps⟩ := List.exists_cons_of_ne_nil h
  rw [Line.words, hps, List.flatMap_cons] at hnil
  exact p.words_ne_nil (List.append_eq_nil_iff.mp hnil).1

theorem Line.pieces_text {l : Line} (h : l.pieces ≠ []) :
    [' '].intercalate (l.pieces.map Piece.text) = [' '].intercalate l.words := by
  have hmap : l.pieces.map Piece.text ≠ [] := by simpa using h
  have heq := (intercalate_blank hmap).trans
    ((spaced_flatMap l.pieces).symm.trans (intercalate_blank (l.words_ne_nil h)).symm)
  exact List.append_cancel_right heq

/-- The redirections in use read as they are meant. -/
def Line.Reads (l : Line) : Prop := ∀ r ∈ l.redirect, r.Parses ∧ '\x00' ∉ r.text

theorem Line.text_redirect {l : Line} (h : l.pieces ≠ []) {r : Redirect}
    (hr : l.redirect = some r) : l.text = spaced l.words ++ r.text := by
  rw [Line.text, l.pieces_text h, hr, ← intercalate_blank (l.words_ne_nil h), List.append_assoc]
  rfl

/-- A line without a redirection ends with its last word. -/
theorem Line.text_plain {l : Line} (h : l.pieces ≠ []) (hr : l.redirect = none) :
    ∃ ws w, l.words = ws ++ [w] ∧ l.text = spaced ws ++ w ∧
      l.intended = (ws ++ [w]).map wordOf := by
  obtain ⟨ws, w, hw⟩ := List.eq_nil_or_concat' l.words |>.resolve_left (l.words_ne_nil h)
  refine ⟨ws, w, hw, ?_, ?_⟩
  · have hblank := intercalate_blank (l.words_ne_nil h)
    have hlast : spaced (ws ++ [w]) = spaced ws ++ w ++ [' '] := by simp [spaced]
    rw [Line.text, l.pieces_text h, hr]
    show [' '].intercalate l.words ++ [] = _
    rw [List.append_nil]
    rw [hw] at hblank ⊢
    exact List.append_cancel_right (hblank.trans hlast)
  · rw [Line.intended, hr, hw]
    exact List.append_nil _

theorem Line.tokens_iff {l : Line} (hne : l.pieces ≠ []) (hr : l.Reads) :
    tokens l.text = some l.intended ↔ ∀ w ∈ l.words, Inert w := by
  cases hred : l.redirect with
  | none =>
    obtain ⟨ws, w, hw, htext, hintended⟩ := l.text_plain hne hred
    rw [htext, hintended, hw]
    exact tokens_words_iff ws w
  | some r =>
    rw [l.text_redirect hne hred, Line.intended, hred]
    exact tokens_redirect_iff l.words (hr r hred).1

/-- No character of a line is spared by its tokens. -/
theorem Line.cost_intended {l : Line} (hne : l.pieces ≠ []) :
    cost l.intended.reverse = l.text.length := by
  cases hred : l.redirect with
  | none =>
    obtain ⟨ws, w, -, htext, hintended⟩ := l.text_plain hne hred
    rw [htext, hintended, cost_plain]
  | some r =>
    rw [l.text_redirect hne hred, Line.intended, hred]
    exact cost_redirect l.words r

theorem Line.nul_not_mem_text {l : Line} (hne : l.pieces ≠ []) (hr : l.Reads) :
    '\x00' ∉ l.text ↔ ∀ w ∈ l.words, '\x00' ∉ w := by
  cases hred : l.redirect with
  | none =>
    obtain ⟨ws, w, hw, htext, -⟩ := l.text_plain hne hred
    rw [htext, hw, List.mem_append, not_or, nul_not_mem_spaced, List.forall_mem_append,
      List.forall_mem_singleton]
  | some r =>
    rw [l.text_redirect hne hred, List.mem_append, not_or, nul_not_mem_spaced]
    exact and_iff_left (hr r hred).2

/-- A line that is read as intended is read to its end. -/
theorem Line.read_iff {l : Line} (hne : l.pieces ≠ []) (hr : l.Reads) :
    tokens (cText l.text) = some l.intended ↔ ∀ w ∈ l.words, Verbatim w := by
  constructor
  · intro h
    have hnul : '\x00' ∉ l.text := by
      rw [tokens, ← List.append_nil l.text] at h
      refine nul_not_mem_of_cost h ?_
      rw [l.cost_intended hne]
      exact (Nat.zero_add _).le
    rw [cText_eq_self hnul] at h
    exact fun w hw => ⟨(l.tokens_iff hne hr).mp h w hw, (l.nul_not_mem_text hne hr).mp hnul w hw⟩
  · intro h
    rw [cText_eq_self ((l.nul_not_mem_text hne hr).mpr fun w hw => (h w hw).2)]
    exact (l.tokens_iff hne hr).mpr fun w hw => (h w hw).1

/-! ## Which arguments are read as themselves -/

/-- The characters the shell may not take for themselves, and the one it never gets. -/
def shellChars : Str :=
  [' ', '\t', '\n', '&', ';', '|', '<', '>', '(', ')', '\\', '\'', '"', '$', '\x60', '*', '?', '[',
    '#', '~', '\x00']

theorem verbatim_of_plain {s : Str} (hne : s ≠ []) (h : ∀ c ∈ s, c ∉ shellChars) : Verbatim s := by
  have hplain (c : Char) (hc : c ∈ s) : classOf c = .plain := by
    have hnot := h c hc
    simp only [shellChars, List.mem_cons, List.not_mem_nil, or_false, not_or] at hnot
    simp [classOf, hnot]
  obtain ⟨c, cs, rfl⟩ := List.exists_cons_of_ne_nil hne
  refine ⟨⟨?_, fun d hd => Or.inl (hplain d hd)⟩, fun hmem => h _ hmem (by decide)⟩
  rw [List.head?_cons, Option.map_some, hplain c List.mem_cons_self]

/-- Words of a class that holds none of these characters. -/
theorem verbatim_of_all {p : Char → Bool} (hp : ∀ c ∈ shellChars, p c = false) {s : Str}
    (hne : s ≠ []) (hs : ∀ c ∈ s, p c = true) : Verbatim s :=
  verbatim_of_plain hne fun c hc hm => absurd ((hs c hc).symm.trans (hp c hm)) (by decide)

theorem verbatim_of_address {s : Str} (h : Valid.Address s) : Verbatim s :=
  verbatim_of_all (by decide) h.1 h.2

theorem verbatim_iface {v : Val} (h : iface v = true) : Verbatim (tostring v) := by
  refine verbatim_of_address (Valid.address_of_onStr (fun s hs => ?_) h)
  refine Valid.address_of_all (fun c hc => ?_) hs
  obtain hc | hc := Bool.or_eq_true_iff.mp hc
  · exact Valid.isAddressChar_of_isWord hc
  · rw [beq_iff_eq.mp hc]
    decide

theorem verbatim_cacheMode {v : Val} (h : Valid.cacheMode v = true) : Verbatim (tostring v) := by
  cases v with
  | str s =>
    have hmodes : ∀ t ∈ ["none".toList, "unsafe".toList, "writeback".toList, "directsync".toList,
        "writethrough".toList], Verbatim t := by decide
    exact hmodes s (of_decide_eq_true h)
  | nil | bool | num | other => exact absurd h Bool.false_ne_true

/-! Numbers are read through `tonumber`, which allows white space around them. -/

def Spaceless (v : Val) : Prop := ∀ c ∈ tostring v, c ∉ [' ', '\t', '\n']

instance (v : Val) : Decidable (Spaceless v) := inferInstanceAs (Decidable (∀ c ∈ _, _))

theorem spaceless_of_inert {v : Val} (h : Inert (tostring v)) : Spaceless v := by
  intro c hc hblank
  have hnone : ∀ d ∈ [' ', '\t', '\n'], ¬ Ordinary d := by decide
  exact hnone c hblank (h.2 c hc)

theorem verbatim_number_iff {lo hi : ℚ} {v : Val} (h : Valid.inRange lo hi v = true) :
    Verbatim (tostring v) ↔ Spaceless v := by
  refine ⟨fun h => spaceless_of_inert h.1, fun hblank => ?_⟩
  obtain ⟨q, hq, -⟩ := (Option.any_eq_true _ _).mp h
  cases v with
  | num n =>
    exact verbatim_of_all (p := isNumberChar) (by decide) (numberText_ne_nil n)
      fun c hc => mem_numberText hc
  | str s =>
    refine verbatim_of_plain ?_ fun c hc hm => ?_
    · intro hnil
      have hnone : tonumber (.str []) = none := by decide +kernel
      change s = [] at hnil
      rw [hnil, hnone] at hq
      exact absurd hq (by simp)
    · have hshell : ∀ d ∈ shellChars, (isSpace d = true ∨ isNumeralChar d = true) →
          d ∈ [' ', '\t', '\n'] := by decide
      exact hblank c hc (hshell c hm (tonumber_chars hq c hc))
  | nil | bool | other => exact absurd hq (by simp [tonumber])

/-! ## Every call -/

/-- The arguments are read as words: those a validator does not cover for the shell
stand for themselves, numbers are free of blanks, and the pattern of `tgt.used` is quotable
and has no NUL. -/
def Safe : Call → Prop
  | .tgtNew _ tid | .tgtRules tid _ | .tgtUnrul tid _ => Spaceless tid
  | .tgtDestroy opt | .tgtKill opt | .lunStop opt | .lunStart opt => Spaceless opt
  | .tgtUsed tgt => quotable (tostring tgt) = true ∧ '\x00' ∉ tostring tgt
  | .lunAdd tid lun _ | .lunDel tid lun => Spaceless tid ∧ Spaceless lun
  | .nbdMod maxPart nbds => Spaceless maxPart ∧ Spaceless nbds
  | .nbdAdd _ path _ => Verbatim (tostring path)
  | .zfsSnap data | .zfsUnsnap data => Verbatim (tostring data)
  | .zfsMount data point => Verbatim (tostring data) ∧ Verbatim (tostring point)
  | .zfsUnmount point => Verbatim (tostring point)
  | .imageNew path _ => Verbatim (tostring path)
  | .imageChild parent child => Verbatim (tostring parent) ∧ Verbatim (tostring child)
  | .imageCommit image | .imageUsed image => Verbatim (tostring image)
  | .tgtShow | .nbdUnmod | .nbdDel _ | .nbdKill _ | .nbdUsed _ | .nbdUsewho _ | .zfsMtab _
  | .powerOn _ _ => True

def Piece.fixedVerbatim : Piece → Bool
  | .fixed s => (s.toList.splitOn ' ').all fun w => decide (Verbatim w)
  | .arg _ => true

theorem Piece.fixedVerbatim_fixed {s : String}
    (h : (s.toList.splitOn ' ').all (fun w => decide (Verbatim w)) = true) :
    (Piece.fixed s).fixedVerbatim = true := h

theorem Piece.fixedVerbatim_arg (v : Val) : (Piece.arg v).fixedVerbatim = true := rfl

theorem Line.mem_args {l : Line} {v : Val} : v ∈ l.args ↔ .arg v ∈ l.pieces := by
  rw [Line.args, List.mem_filterMap]
  constructor
  · rintro ⟨p, hp, hv⟩
    cases p with
    | fixed s => exact absurd hv (by simp)
    | arg u =>
      injection hv with hv
      exact hv ▸ hp
  · exact fun hv => ⟨.arg v, hv, rfl⟩

theorem Line.verbatim_iff {l : Line} (h : l.pieces.all Piece.fixedVerbatim = true) :
    (∀ w ∈ l.words, Verbatim w) ↔ ∀ v ∈ l.args, Verbatim (tostring v) := by
  constructor
  · intro hw v hv
    have hpiece := Line.mem_args.mp hv
    exact hw _ (List.mem_flatMap.mpr ⟨.arg v, hpiece, List.mem_singleton_self _⟩)
  · intro hv w hw
    obtain ⟨p, hp, hwp⟩ := List.mem_flatMap.mp hw
    cases p with
    | fixed s =>
      have hfixed := List.all_eq_true.mp h _ hp
      exact of_decide_eq_true (List.all_eq_true.mp hfixed w hwp)
    | arg v =>
      rw [List.mem_singleton.mp hwp]
      exact hv v (Line.mem_args.mpr hp)

theorem devNull_reads : devNull.Parses ∧ '\x00' ∉ devNull.text :=
  ⟨Redirect.parses_of (fun _ => rfl) (by decide) (by decide), by decide⟩

theorem tmpResult_reads : tmpResult.Parses ∧ '\x00' ∉ tmpResult.text :=
  ⟨Redirect.parses_of (fun _ => rfl) (by decide) (by decide), by decide⟩

theorem messages_reads : messages.Parses ∧ '\x00' ∉ messages.text :=
  ⟨Redirect.parses_of (fun _ => rfl) (by decide) (by decide), by decide⟩

theorem toStdout_reads : toStdout.Parses ∧ '\x00' ∉ toStdout.text :=
  ⟨Redirect.parses_of (fun _ => rfl) (by decide) (by decide), by decide⟩

theorem line_ok {c : Call} {l : Line} (h : line c = some l) :
    l.pieces ≠ [] ∧ l.pieces.all Piece.fixedVerbatim = true ∧ l.Reads := by
  have htgtadm : (Piece.fixed tgtadm).fixedVerbatim = true := by decide +kernel
  cases c with
  | tgtUsed | zfsMtab => exact absurd h (by simp [line])
  | _ =>
    injection h with h
    subst h
    refine ⟨List.cons_ne_nil _ _, ?_, ?_⟩
    · simp (disch := rewrite [String.toList_ofList]; decide +kernel) only [lsofLine,
        List.all_cons, List.all_nil, htgtadm, Piece.fixedVerbatim_fixed, Piece.fixedVerbatim_arg,
        Bool.and_self]
    · simp [Line.Reads, lsofLine, devNull_reads, tmpResult_reads, messages_reads, toStdout_reads]

/-- A line is read as intended exactly when its arguments stand for themselves. -/
theorem line_read_iff {c : Call} {l : Line} (h : line c = some l) :
    tokens (cText l.run.text) = some l.run.intended ↔ ∀ v ∈ l.args, Verbatim (tostring v) := by
  obtain ⟨hne, hfixed, hreads⟩ := line_ok h
  rw [← Line.verbatim_iff hfixed]
  exact Line.read_iff hne hreads

/-! ## The two commands with a pipe -/

theorem nul_not_mem_usedHead : '\x00' ∉ usedHead := by
  have htext : usedHead = _ := String.toList_ofList
  rewrite [htext]
  decide

theorem lex_usedHead :
    lex ⟨.gap, false, []⟩ usedHead = ⟨.double [], false, usedTokens.reverse⟩ := by
  have htext : usedHead = _ := String.toList_ofList
  rewrite [htext, usedTokens, String.toList_ofList, String.toList_ofList]
  decide +kernel

theorem usedRun_tokens_iff {tgt : Val} (h : accepts (.tgtUsed tgt) = true) :
    tokens (usedRun tgt).text = some (usedRun tgt).intended ↔ quotable (tostring tgt) = true := by
  have hdollar : ∀ c ∈ tostring tgt, classOf c ≠ .dollar := by
    cases tgt with
    | str s =>
      have hmeta : ∀ c ∈ s, c ∉ metacharacters := by
        simp only [accepts, Valid.onStr, Bool.and_eq_true, List.all_eq_true,
          decide_eq_true_eq] at h
        exact h.2
      intro c hc hd
      obtain rfl | rfl := classOf_eq_dollar hd <;> exact hmeta _ hc (by decide)
    | nil | bool | num | other => exact absurd h Bool.false_ne_true
  have hquoted := finish_quoted_iff devNull_reads.1 (by decide) (by decide) hdollar
    usedTokens.reverse
  rw [List.reverse_reverse] at hquoted
  rw [← hquoted, usedRun, tokens, lex_append, lex_usedHead]

theorem nul_not_mem_usedRun {tgt : Val} (h : '\x00' ∉ tostring tgt) :
    '\x00' ∉ (usedRun tgt).text := by
  have htail : '\x00' ∉ '"' :: ' ' :: devNull.text := by decide
  intro hmem
  rcases List.mem_append.mp hmem with hmem | hmem
  · exact nul_not_mem_usedHead hmem
  · exact (List.mem_append.mp hmem).elim h htail

theorem usedRun_read_iff {tgt : Val} (h : accepts (.tgtUsed tgt) = true) :
    tokens (cText (usedRun tgt).text) = some (usedRun tgt).intended ↔
      quotable (tostring tgt) = true ∧ '\x00' ∉ tostring tgt := by
  constructor
  · intro hread
    have hnul : '\x00' ∉ tostring tgt := by
      have hcost := cost_quoted usedTokens.reverse (tostring tgt) devNull
      rw [List.reverse_reverse] at hcost
      have hlex := hread
      rw [usedRun, cText_append nul_not_mem_usedHead, tokens, lex_append, lex_usedHead] at hlex
      refine nul_not_mem_of_cost hlex ?_
      rw [hcost]
      omega
    rw [cText_eq_self (nul_not_mem_usedRun hnul)] at hread
    exact ⟨(usedRun_tokens_iff h).mp hread, hnul⟩
  · rintro ⟨hquotable, hnul⟩
    rw [cText_eq_self (nul_not_mem_usedRun hnul)]
    exact (usedRun_tokens_iff h).mpr hquotable

theorem usewhoRun_read {dev : Val} (h : Verbatim (tostring dev)) :
    tokens (cText (usewhoRun dev).text) = some (usewhoRun dev).intended := by
  have hne : (lsofLine dev).pieces ≠ [] := List.cons_ne_nil _ _
  have hwords : ∀ w ∈ (lsofLine dev).words, Verbatim w := by
    refine (Line.verbatim_iff rfl).mpr fun v hv => ?_
    obtain rfl : v = dev := by simpa [lsofLine, Line.args] using hv
    exact h
  have hpipe : (tokens usewhoPipe).isSome = true ∧ '\x00' ∉ usewhoPipe := by
    have htext : usewhoPipe = _ := String.toList_ofList
    rewrite [htext]
    decide +kernel
  obtain ⟨ts, hts⟩ := Option.isSome_iff_exists.mp hpipe.1
  have hnul : '\x00' ∉ (usewhoRun dev).text := by
    have hreads : (lsofLine dev).Reads := fun r hr => Option.some.inj hr ▸ devNull_reads
    have hline := ((lsofLine dev).nul_not_mem_text hne hreads).mpr fun w hw => (hwords w hw).2
    have hrest : '\x00' ∉ ' ' :: usewhoPipe := fun hmem =>
      hpipe.2 ((List.mem_cons.mp hmem).resolve_left (by decide))
    exact fun hmem => (List.mem_append.mp hmem).elim hline hrest
  -- The blank after the redirection ends its target, and the pipe is read from a gap.
  have hstep (w : List Sym) (out : List Token) (t : Str) :
      lex ⟨.bare true w, false, out⟩ (' ' :: t) = lex ⟨.gap, false, .word w.reverse :: out⟩ t := rfl
  rw [cText_eq_self hnul, usewhoRun, tokens, lex_append, (lsofLine dev).text_redirect hne rfl,
    lex_append, lex_spaced fun w hw => (hwords w hw).1, devNull_reads.1, hstep, finish_lex_gap, hts]
  simp [Line.intended, lsofLine, Redirect.toks, wordOf]

theorem read_iff_args {c : Call} {l : Line} (hline : line c = some l) (hruns : runs c = [l.run]) :
    ReadAsIntended c ↔ ∀ v ∈ l.args, Verbatim (tostring v) := by
  rw [ReadAsIntended, hruns, List.forall_mem_singleton]
  exact line_read_iff hline

/-- For every function and all arguments it accepts, the shell reads the command as
the fixed words and one word for each argument exactly when the arguments are safe. -/
theorem commands_read_iff {c : Call} (h : accepts c = true) : ReadAsIntended c ↔ Safe c := by
  cases c with
  | tgtNew opt tid =>
    obtain ⟨htid, hiqn⟩ := Bool.and_eq_true_iff.mp h
    rw [read_iff_args rfl rfl]
    simp [Line.args, Safe, verbatim_number_iff htid, verbatim_of_address (Valid.address_iqn hiqn)]
  | tgtDestroy opt | tgtKill opt | lunStop opt | lunStart opt =>
    rw [read_iff_args rfl rfl]
    simp [Line.args, Safe, verbatim_number_iff h]
  | tgtShow | nbdUnmod =>
    rw [read_iff_args rfl rfl]
    simp [Line.args, Safe]
  | tgtRules tid opt | tgtUnrul tid opt =>
    obtain ⟨htid, hip⟩ := Bool.and_eq_true_iff.mp h
    rw [read_iff_args rfl rfl]
    simp [Line.args, Safe, verbatim_number_iff htid, verbatim_of_address (Valid.address_ipv4 hip)]
  | tgtUsed tgt =>
    rw [ReadAsIntended, runs, List.forall_mem_singleton]
    exact usedRun_read_iff h
  | lunAdd tid lun dev =>
    obtain ⟨hnum, hdev⟩ := Bool.and_eq_true_iff.mp h
    obtain ⟨htid, hlun⟩ := Bool.and_eq_true_iff.mp hnum
    rw [read_iff_args rfl rfl]
    simp [Line.args, Safe, verbatim_number_iff htid, verbatim_number_iff hlun,
      verbatim_of_address (Valid.address_devPath hdev)]
  | lunDel tid lun =>
    obtain ⟨htid, hlun⟩ := Bool.and_eq_true_iff.mp h
    rw [read_iff_args rfl rfl]
    simp [Line.args, Safe, verbatim_number_iff htid, verbatim_number_iff hlun]
  | nbdMod maxPart nbds =>
    obtain ⟨hmax, hnbds⟩ := Bool.and_eq_true_iff.mp h
    rw [read_iff_args rfl rfl]
    simp [Line.args, Safe, verbatim_number_iff hmax, verbatim_number_iff hnbds]
  | nbdAdd dev path flags =>
    obtain ⟨hpath, hflags⟩ := Bool.and_eq_true_iff.mp h
    obtain ⟨hdev, -⟩ := Bool.and_eq_true_iff.mp hpath
    rw [read_iff_args rfl rfl]
    simp [Line.args, Safe, verbatim_of_address (Valid.address_devPath hdev),
      verbatim_cacheMode hflags]
  | nbdDel dev | nbdUsed dev =>
    rw [read_iff_args rfl rfl]
    simp [Line.args, lsofLine, Safe, verbatim_of_address (Valid.address_devPath h)]
  | nbdUsewho dev =>
    have hdev := verbatim_of_address (Valid.address_devPath h)
    have hfirst := (line_read_iff (c := .nbdUsewho dev) rfl).mpr
      (by simp [Line.args, lsofLine, hdev])
    refine ⟨fun _ => trivial, fun _ r hr => ?_⟩
    obtain rfl | rfl : r = (lsofLine dev).run ∨ r = usewhoRun dev := by simpa [runs, line] using hr
    · exact hfirst
    · exact usewhoRun_read hdev
  | nbdKill pid =>
    rw [read_iff_args rfl rfl]
    simp [Line.args, Safe, verbatim_of_address (Valid.address_pid h)]
  | zfsMtab args => exact ⟨fun _ => trivial, fun _ r hr => absurd hr (by simp [runs, line])⟩
  | powerOn ifc mac =>
    obtain ⟨hifc, hmac⟩ := Bool.and_eq_true_iff.mp h
    rw [read_iff_args rfl rfl]
    simp [Line.args, Safe, verbatim_iface hifc, verbatim_of_address (Valid.address_mac hmac)]
  | imageNew path size =>
    obtain ⟨-, hsize⟩ := Bool.and_eq_true_iff.mp h
    rw [read_iff_args rfl rfl]
    simp [Line.args, Safe, verbatim_of_address (Valid.address_imgSize hsize)]
  | zfsSnap | zfsUnsnap | zfsMount | zfsUnmount | imageChild | imageCommit | imageUsed =>
    rw [read_iff_args rfl rfl]
    simp [Line.args, lsofLine, Safe]

theorem commands_read_target :
    ReadAsIntended (.tgtNew (.str "iqn.2024-01.lab:aabbcc000001".toList) (.num 3)) :=
  (commands_read_iff (by decide +kernel)).mpr (show Spaceless (.num 3) by decide +kernel)

/-- The image module accepts a command separator, the deny-list of the paths has no
redirection and no NUL in it, and a number may come with a line break. -/
theorem accepted_arguments_inject :
    (accepts (.imageNew (.str "/images/a;reboot".toList) (.str "10G".toList)) = true ∧
      ¬ ReadAsIntended (.imageNew (.str "/images/a;reboot".toList) (.str "10G".toList))) ∧
    (accepts (.zfsSnap (.str "tank/a >/etc/passwd".toList)) = true ∧
      ¬ ReadAsIntended (.zfsSnap (.str "tank/a >/etc/passwd".toList))) ∧
    (accepts (.zfsSnap (.str "tank/a\x00b".toList)) = true ∧
      ¬ ReadAsIntended (.zfsSnap (.str "tank/a\x00b".toList))) ∧
    (accepts (.tgtDestroy (.str "1\n".toList)) = true ∧
      ¬ ReadAsIntended (.tgtDestroy (.str "1\n".toList))) := by
  decide +kernel

end Command
end Control
end MkyBoot
