import MkyBoot.Control.Session
import MkyBoot.Control.Valid
import MkyBoot.Lua.Search

/-!
# The status snapshot

`status.refresh` takes the addresses of the connected clients from the output of
`tgtadm`, writes them with the state of three services to a file of lines, and the
pages read that file back to tell which workstations are online.

`status_survives_iff` follows an output of any number of lines through all of this.
-/

namespace MkyBoot
namespace Control
namespace Status

open Lua Posix

inductive Service where
  | dhcp
  | tftp
  | iscsi
  deriving DecidableEq

/-- A snapshot.  `none` is `nil`, and `ips` are the keys of the table of that name. -/
structure Snap where
  ts : Option ℚ
  targets : Option Str
  ips : List Str
  flag : Service → Option Bool

/-! ## Reading the output of `tgtadm` -/

def label : Str := "IP Address:".toList

/-- `[%d%.]` -/
def isAddress (c : Char) : Bool := c.isDigit || c == '.'

/-- `"?` -/
def unquote (s : Str) : Str := if s.head? = some '"' then s.tail else s

/-- `IP Address:%s*"?([%d%.]+)"?` at the beginning of a text.  None of its repetitions
can do with less than it takes, so the matcher does not go back. -/
def matchAddress (s : Str) : Option (Str × ℕ) :=
  if label.isPrefixOf s then
    let t := unquote ((s.drop label.length).dropWhile isSpace)
    let rest := unquote (t.dropWhile isAddress)
    if t.takeWhile isAddress = [] then none
    else some (t.takeWhile isAddress, s.length - rest.length)
  else none

/-- `status.parse_targets`: the keys of the table, each once. -/
def parseTargets (out : Str) : List Str :=
  ((gmatch matchAddress 0 out).filter fun ip => Valid.ipv4 (.str ip)).dedup

/-! ## The file -/

def flagText (b : Option Bool) : Str := if b = some true then ['1'] else ['0']

def numText : Option ℚ → Str
  | none => tostring .nil
  | some q => tostring (.num q)

def strText : Option Str → Str
  | none => tostring .nil
  | some s => s

/-- The lines of the file, as keys and values. -/
def fields (snap : Snap) : List (Str × Str) :=
  [("v".toList, "1".toList), ("ts".toList, numText snap.ts),
    ("targets".toList, strText snap.targets)] ++
  snap.ips.map (fun ip => ("ip".toList, ip)) ++
  [("svc_dhcp".toList, flagText (snap.flag .dhcp)), ("svc_tftp".toList, flagText (snap.flag .tftp)),
    ("svc_iscsi".toList, flagText (snap.flag .iscsi))]

def lineOf (kv : Str × Str) : Str := kv.1 ++ '=' :: kv.2

/-- `status.encode`.  The addresses are in the order in which `pairs` visits them. -/
def encode (snap : Snap) : Str := ['\n'].intercalate ((fields snap).map lineOf) ++ ['\n']

/-- `[%w_]` -/
def isKey (c : Char) : Bool := isWord c || c == '_'

/-- `line:match("^([%w_]+)=(.*)$")` -/
def keyValue (line : Str) : Option (Str × Str) :=
  match line.dropWhile isKey with
  | '=' :: v => if line.takeWhile isKey = [] then none else some (line.takeWhile isKey, v)
  | _ => none

def setFlag (snap : Snap) (s : Service) (v : Str) : Snap :=
  { snap with flag := Function.update snap.flag s (some (v == "1".toList)) }

/-- What `status.decode` does with a key and its value. -/
def absorb (snap : Snap) (kv : Str × Str) : Snap :=
  if kv.1 = "ts".toList then { snap with ts := tonumber (.str kv.2) }
  else if kv.1 = "targets".toList then { snap with targets := some kv.2 }
  else if kv.1 = "svc_dhcp".toList then setFlag snap .dhcp kv.2
  else if kv.1 = "svc_tftp".toList then setFlag snap .tftp kv.2
  else if kv.1 = "svc_iscsi".toList then setFlag snap .iscsi kv.2
  else if kv.1 = "ip".toList then
    if Valid.ipv4 (.str kv.2) then { snap with ips := kv.2 :: snap.ips } else snap
  else snap

def blank : Snap := ⟨none, none, [], fun _ => none⟩

/-- `data:gmatch("[^\n]+")` -/
def linesOf (data : Str) : List Str := (data.splitOn '\n').filter (· ≠ [])

/-- `status.decode` -/
def decode (data : Str) : Option Snap :=
  if data = [] ∨ 65536 < data.length then none
  else
    let snap := ((linesOf data).filterMap keyValue).foldl absorb blank
    if snap.ts = none then none else some snap

/-- `status.file` -/
def file : Str := "/srv/mkyboot/cfg/status.cache".toList

/-- `status.write`, where the file can be written. -/
def write (t : FileTree Str) (snap : Snap) : Option (FileTree Str) := t.write file (encode snap)

/-- `status.read` -/
def read (t : FileTree Str) : Option Snap := (t.read file).bind decode

/-! ## The state of a workstation -/

/-- `status.max_age` -/
def maxAge : ℚ := 60

/-- `status.age` -/
def age (now : ℚ) (snap : Option Snap) : Option ℚ :=
  match snap.bind Snap.ts with
  | none => none
  | some ts => if now - ts < 0 then none else some (now - ts)

inductive Answer where
  | online
  | offline
  | unknown
  deriving DecidableEq

/-- `status.state_of` -/
def stateOf (now : ℚ) (snap : Option Snap) (ip : Val) : Answer :=
  if !Valid.ipv4 ip then .unknown
  else match age now snap with
    | none => .unknown
    | some a =>
      if maxAge < a then .unknown
      else if snap.bind Snap.targets ≠ some "ok".toList then .unknown
      else if tostring ip ∈ (snap.map Snap.ips).getD [] then .online
      else .offline

/-! ## The refresh -/

/-- What `status.refresh` finds: the clock, the output of `tgtadm` (`none` if it is not
installed, `some none` if it cannot be run), and that of `lsof` for each service. -/
structure Probes where
  now : ℚ
  tgtadm : Option (Option Str)
  lsof : Bool
  port : Service → Val
  listeners : Service → Option Str

/-- `valid.port` -/
def validPort (v : Val) : Bool :=
  (tonumber v).any fun n => decide (1 ≤ n ∧ n ≤ 65535 ∧ n = n.floor)

/-- The probe of one service.  The budget is never used up by then. -/
def probe (p : Probes) (s : Service) : Option Bool :=
  if p.lsof && validPort (p.port s) then some ((p.listeners s).any (· ≠ [])) else none

/-- The snapshot that `status.refresh` builds. -/
def collect (p : Probes) : Snap where
  ts := some p.now
  targets :=
    match p.tgtadm with
    | none => some "missing".toList
    | some none => some "failed".toList
    | some (some _) => some "ok".toList
  ips :=
    match p.tgtadm with
    | some (some out) => parseTargets out
    | _ => []
  flag := probe p

/-! ## Outputs made of lines -/

/-- A line of output: one with the label and an address after it, quoted or not, or one
without the label. -/
inductive OutLine where
  | address (before blanks : Str) (quoted : Bool) (ip after : Str)
  | other (text : Str)

namespace OutLine

def quotes (quoted : Bool) : Str := if quoted then ['"'] else []

def text : OutLine → Str
  | .address before blanks quoted ip after =>
    before ++ (label ++ (blanks ++ (quotes quoted ++ (ip ++ (quotes quoted ++ after)))))
  | .other text => text

/-- The label stands once in the line, and what follows an address does not continue it. -/
def Ok : OutLine → Prop
  | .address before blanks quoted ip after =>
    (¬ label <:+: before ∧ '\n' ∉ before) ∧ (∀ c ∈ blanks, isSpace c = true ∧ c ≠ '\n') ∧
      Valid.ipv4 (.str ip) = true ∧ (¬ label <:+: after ∧ '\n' ∉ after) ∧
      (quoted = false → after.head?.any isAddress = false)
  | .other text => ¬ label <:+: text ∧ '\n' ∉ text

instance (l : OutLine) : Decidable l.Ok := by
  cases l with
  | address before blanks quoted ip after =>
    exact inferInstanceAs (Decidable ((_ ∧ _) ∧ _ ∧ _ ∧ (_ ∧ _) ∧ _))
  | other text => exact inferInstanceAs (Decidable (_ ∧ _))

def ip? : OutLine → Option Str
  | .address _ _ _ ip _ => some ip
  | .other _ => none

end OutLine

/-- The output of lines.  A newline at the end makes an empty last line. -/
def outputOf (ls : List OutLine) : Str := ['\n'].intercalate (ls.map OutLine.text)

def addresses (ls : List OutLine) : List Str := ls.filterMap OutLine.ip?

/-! ## What the search finds -/

theorem matchAddress_eq_none {s : Str} (h : ¬ label <+: s) : matchAddress s = none := by
  rw [matchAddress, if_neg]
  rw [List.isPrefixOf_iff_prefix]
  exact h

/-- The search passes text without the label, up to the end of a line. -/
theorem gmatch_other {u : Str} (h : ¬ label <:+: u) (v : Str) :
    gmatch matchAddress 0 (u ++ '\n' :: v) = gmatch matchAddress 0 v := by
  have hpass : gmatch matchAddress 0 (u ++ '\n' :: v) = gmatch matchAddress 0 ('\n' :: v) := by
    refine gmatch_pass fun b hb _ => matchAddress_eq_none ?_
    exact not_prefix_of_stop (by decide) (not_infix_of_suffix hb h)
  have hnewline : gmatch matchAddress 0 (['\n'] ++ v) = gmatch matchAddress 0 v := by
    refine gmatch_pass fun b hb hne => matchAddress_eq_none ?_
    obtain rfl : b = ['\n'] := hb.eq_of_length_le (List.length_pos_iff.mpr hne)
    exact not_prefix_of_stop (b := []) (by decide) (by decide)
  rw [hpass]
  exact hnewline

theorem gmatch_last {u : Str} (h : ¬ label <:+: u) : gmatch matchAddress 0 u = [] := by
  have hpass : gmatch matchAddress 0 (u ++ []) = gmatch matchAddress 0 [] := by
    refine gmatch_pass fun b hb _ => matchAddress_eq_none fun hpre => ?_
    rw [List.append_nil] at hpre
    exact not_infix_of_suffix hb h hpre.isInfix
  rw [List.append_nil] at hpass
  exact hpass

theorem isAddress_of_ipv4 {ip : Str} (h : Valid.ipv4 (.str ip) = true) :
    ip ≠ [] ∧ ∀ c ∈ ip, isAddress c = true := by
  refine ⟨(Valid.address_ipv4 h).1, ?_⟩
  obtain ⟨a, b, c, d, hsplit, ha, hb, hc, hd⟩ := Valid.ipv4_iff.mp h
  have hjoin : ['.'].intercalate (ip.splitOn '.') = ip := List.intercalate_splitOn '.'
  have hoctet {s : Str} (hs : Valid.octet s = true) : ∀ c ∈ s, isAddress c = true := by
    intro c hc
    rw [Valid.octet, Bool.and_eq_true, Valid.digits, Bool.and_eq_true, List.all_eq_true] at hs
    rw [isAddress, hs.1.2 c hc, Bool.true_or]
  rw [hsplit] at hjoin
  simp only [List.intercalate_cons_cons, List.intercalate_singleton] at hjoin
  rw [← hjoin]
  simp only [List.forall_mem_append, List.forall_mem_singleton]
  exact ⟨⟨hoctet ha, rfl⟩, ⟨hoctet hb, rfl⟩, ⟨hoctet hc, rfl⟩, hoctet hd⟩

theorem isSpace_of_isAddress {c : Char} (h : isAddress c = true) : isSpace c = false := by
  rw [isAddress, Bool.or_eq_true, beq_iff_eq, isDigit_iff] at h
  obtain hdigit | rfl := h
  · rw [Bool.eq_false_iff, isSpace, ne_eq, Bool.or_eq_true, beq_iff_eq, Bool.and_eq_true,
      decide_eq_true_eq, decide_eq_true_eq, not_or]
    refine ⟨?_, by omega⟩
    rintro rfl
    exact absurd hdigit (by decide)
  · decide

/-- The matcher on a label with its address.  `tail` is what comes after the quotes. -/
theorem matchAddress_label {blanks ip v tail : Str} (quoted : Bool)
    (hblanks : ∀ c ∈ blanks, isSpace c = true) (hip : Valid.ipv4 (.str ip) = true)
    (hv : v.head?.any isAddress = false) (htail : unquote v = tail) :
    matchAddress (label ++ (blanks ++ (OutLine.quotes quoted ++ (ip ++ v)))) =
      some (ip,
        (label ++ (blanks ++ (OutLine.quotes quoted ++ (ip ++ v)))).length - tail.length) := by
  obtain ⟨hne, hchars⟩ := isAddress_of_ipv4 hip
  obtain ⟨c, cs, rfl⟩ := List.exists_cons_of_ne_nil hne
  have hc := hchars c List.mem_cons_self
  have hspace : isSpace c = false := isSpace_of_isAddress hc
  have hquote : c ≠ '"' := by
    rintro rfl
    exact absurd hc (by decide)
  have hrest : unquote ((blanks ++ (OutLine.quotes quoted ++ (c :: cs ++ v))).dropWhile isSpace) =
      c :: cs ++ v := by
    rw [(takeWhile_append_stop hblanks ?_).2]
    · cases quoted with
      | true => rfl
      | false => exact if_neg (by simpa [OutLine.quotes] using hquote)
    · cases quoted with
      | true => rfl
      | false => simpa [OutLine.quotes] using hspace
  obtain ⟨htake, hdrop⟩ := takeWhile_append_stop hchars hv
  rw [matchAddress, if_pos (List.isPrefixOf_iff_prefix.mpr (List.prefix_append _ _)),
    List.drop_left]
  dsimp only
  rw [hrest, htake, hdrop, htail, if_neg hne]

theorem unquote_suffix (s : Str) : unquote s <:+ s := by
  unfold unquote
  split
  · exact List.tail_suffix s
  · exact List.suffix_refl s

/-- The search finds the address of a line and goes on within the line, before `v`, which
is nothing or the next lines. -/
theorem gmatch_address {before blanks : Str} {quoted : Bool} {ip after v : Str}
    (hok : (OutLine.address before blanks quoted ip after).Ok) (hv : ∀ c ∈ v.head?, c = '\n') :
    ∃ u, u <:+ after ∧
      gmatch matchAddress 0 ((OutLine.address before blanks quoted ip after).text ++ v) =
        ip :: gmatch matchAddress 0 (u ++ v) := by
  obtain ⟨⟨hbefore, -⟩, hblanks, hip, -, hafter⟩ := hok
  -- what is left of the line when the match takes a quote after the address
  obtain ⟨u, hu, hrest, hstop⟩ : ∃ u, u <:+ after ∧
      unquote (OutLine.quotes quoted ++ (after ++ v)) = u ++ v ∧
      (OutLine.quotes quoted ++ (after ++ v)).head?.any isAddress = false := by
    cases quoted with
    | true => exact ⟨after, List.suffix_refl _, rfl, rfl⟩
    | false =>
      cases after with
      | nil =>
        have hhead (p : Char → Bool) (hp : p '\n' = false) : v.head?.any p = false := by
          cases hc : v.head? with
          | none => rfl
          | some c =>
            rw [hv c hc]
            exact hp
        refine ⟨[], List.suffix_refl _, if_neg fun hq => ?_, hhead isAddress rfl⟩
        have hnot := hhead (· == '"') rfl
        rw [show v.head? = some '"' from hq] at hnot
        exact absurd hnot (by decide)
      | cons c cs =>
        refine ⟨unquote (c :: cs), unquote_suffix _, ?_, hafter rfl⟩
        show (if some c = some '"' then cs ++ v else c :: cs ++ v) =
          (if some c = some '"' then cs else c :: cs) ++ v
        split <;> rfl
  refine ⟨u, hu, ?_⟩
  have htext : (OutLine.address before blanks quoted ip after).text ++ v =
      before ++ (label ++ (blanks ++ (OutLine.quotes quoted ++
        (ip ++ (OutLine.quotes quoted ++ (after ++ v)))))) := by
    simp only [OutLine.text, List.append_assoc]
  have hmatch := matchAddress_label quoted (fun c hc => (hblanks c hc).1) hip hstop hrest
  rw [htext, gmatch_pass fun b hb hne => matchAddress_eq_none
    (not_prefix_of_unbordered (by decide) hne (not_infix_of_suffix hb hbefore))]
  have hsuffix : u ++ v <:+ OutLine.quotes quoted ++ (after ++ v) := hrest ▸ unquote_suffix _
  refine gmatch_hit ?_ ?_ hmatch
  · exact hsuffix.trans ((List.suffix_append _ _).trans ((List.suffix_append _ _).trans
      ((List.suffix_append _ _).trans (List.suffix_append _ _))))
  · have hle := hsuffix.length_le
    have hlabel : label.length = 11 := rfl
    simp only [List.length_append] at hle ⊢
    omega

/-- The search finds the addresses of the lines. -/
theorem gmatch_outputOf {ls : List OutLine} (hok : ∀ l ∈ ls, l.Ok) :
    gmatch matchAddress 0 (outputOf ls) = addresses ls := by
  induction ls with
  | nil => rfl
  | cons l ls ih =>
    have hrest := ih fun l' hl' => hok l' (List.mem_cons_of_mem l hl')
    have hl := hok l List.mem_cons_self
    by_cases hnil : ls = []
    · subst hnil
      show gmatch matchAddress 0 (['\n'].intercalate [l.text]) = _
      rw [List.intercalate_singleton]
      cases l with
      | other text => exact gmatch_last hl.1
      | address before blanks quoted ip after =>
        obtain ⟨u, hu, hfind⟩ := gmatch_address (v := []) hl (by simp)
        rw [List.append_nil, List.append_nil,
          gmatch_last (not_infix_of_suffix hu hl.2.2.2.1.1)] at hfind
        exact hfind
    · have hout : outputOf (l :: ls) = l.text ++ '\n' :: outputOf ls := by
        rw [outputOf, List.map_cons, List.intercalate_cons_of_ne_nil (by simpa using hnil),
          List.append_assoc]
        rfl
      rw [hout]
      cases l with
      | other text =>
        rw [OutLine.text, gmatch_other hl.1, hrest]
        rfl
      | address before blanks quoted ip after =>
        obtain ⟨u, hu, hfind⟩ := gmatch_address (v := '\n' :: outputOf ls) hl (by simp)
        rw [hfind, gmatch_other (not_infix_of_suffix hu hl.2.2.2.1.1), hrest]
        rfl

theorem ipv4_of_mem_addresses {ls : List OutLine} (hok : ∀ l ∈ ls, l.Ok) :
    ∀ ip ∈ addresses ls, Valid.ipv4 (.str ip) = true := by
  intro ip hip
  obtain ⟨l, hl, hip⟩ := List.mem_filterMap.mp hip
  have hl := hok l hl
  cases l with
  | other text => exact absurd hip (by simp [OutLine.ip?])
  | address before blanks quoted ip' after =>
    obtain rfl := Option.some.inj hip
    exact hl.2.2.1

theorem parseTargets_outputOf {ls : List OutLine} (hok : ∀ l ∈ ls, l.Ok) :
    parseTargets (outputOf ls) = (addresses ls).dedup := by
  rw [parseTargets, gmatch_outputOf hok,
    List.filter_eq_self.mpr fun ip hip => ipv4_of_mem_addresses hok ip hip]

/-! ## The round trip of the file -/

theorem keyValue_lineOf {k : Str} (hne : k ≠ []) (hk : ∀ c ∈ k, isKey c = true) (v : Str) :
    keyValue (lineOf (k, v)) = some (k, v) := by
  obtain ⟨htake, hdrop⟩ := takeWhile_append_stop (v := '=' :: v) hk rfl
  have htake' : (lineOf (k, v)).takeWhile isKey = k := htake
  have hdrop' : (lineOf (k, v)).dropWhile isKey = '=' :: v := hdrop
  simp only [keyValue, htake', hdrop', hne, if_false]

def keys : List Str :=
  ["v".toList, "ts".toList, "targets".toList, "ip".toList, "svc_dhcp".toList, "svc_tftp".toList,
    "svc_iscsi".toList]

theorem key_of_mem_fields {snap : Snap} {kv : Str × Str} (h : kv ∈ fields snap) : kv.1 ∈ keys := by
  simp only [fields, List.mem_append, List.mem_cons, List.not_mem_nil, or_false, List.mem_map] at h
  obtain ((rfl | rfl | rfl) | ⟨ip, -, rfl⟩) | (rfl | rfl | rfl) := h <;> simp [keys]

theorem keys_ok : ∀ k ∈ keys, k ≠ [] ∧ '\n' ∉ k ∧ ∀ c ∈ k, isKey c = true := by decide

theorem linesOf_encode {snap : Snap} (h : ∀ kv ∈ fields snap, '\n' ∉ kv.2) :
    linesOf (encode snap) = (fields snap).map lineOf := by
  have hne : (fields snap).map lineOf ≠ [] := by simp [fields]
  have hjoin : encode snap = ['\n'].intercalate ((fields snap).map lineOf ++ [[]]) := by
    rw [intercalate_append hne (List.cons_ne_nil _ _), List.intercalate_singleton, List.append_nil,
      encode]
  have hclean : ∀ l ∈ (fields snap).map lineOf ++ [[]], '\n' ∉ l := by
    intro l hl
    obtain hl | hl := List.mem_append.mp hl
    · obtain ⟨kv, hkv, rfl⟩ := List.mem_map.mp hl
      have hk := keys_ok kv.1 (key_of_mem_fields hkv)
      simp only [lineOf, List.mem_append, List.mem_cons, not_or]
      exact ⟨hk.2.1, by decide, h kv hkv⟩
    · rw [List.mem_singleton.mp hl]
      exact List.not_mem_nil
  rw [linesOf, hjoin, List.splitOn_intercalate '\n' hclean (by simp), List.filter_append,
    List.filter_eq_self.mpr]
  · exact List.append_nil _
  · intro l hl
    obtain ⟨kv, -, rfl⟩ := List.mem_map.mp hl
    simp [lineOf]

theorem filterMap_keyValue (snap : Snap) :
    ((fields snap).map lineOf).filterMap keyValue = fields snap := by
  rw [List.filterMap_map]
  refine (List.filterMap_congr fun kv hkv => ?_).trans List.filterMap_some
  have hk := keys_ok kv.1 (key_of_mem_fields hkv)
  exact keyValue_lineOf hk.1 hk.2.2 kv.2

theorem absorb_ip {snap : Snap} {ip : Str} (h : Valid.ipv4 (.str ip) = true) :
    absorb snap ("ip".toList, ip) = { snap with ips := ip :: snap.ips } := by
  have hkey : absorb snap ("ip".toList, ip) =
      if Valid.ipv4 (.str ip) then { snap with ips := ip :: snap.ips } else snap := rfl
  rw [hkey, if_pos h]

theorem foldl_absorb_ips {ips : List Str} (h : ∀ ip ∈ ips, Valid.ipv4 (.str ip) = true)
    (snap : Snap) : (ips.map fun ip => ("ip".toList, ip)).foldl absorb snap =
      { snap with ips := ips.reverse ++ snap.ips } := by
  induction ips generalizing snap with
  | nil => rfl
  | cons ip ips ih =>
    rw [List.map_cons, List.foldl_cons, absorb_ip (h ip List.mem_cons_self),
      ih fun ip' hip' => h ip' (List.mem_cons_of_mem ip hip')]
    simp

theorem flagText_eq_one (b : Option Bool) :
    (flagText b == "1".toList) = decide (b = some true) := by
  cases b with
  | none => rfl
  | some b => cases b <;> rfl

/-- What the fields of a snapshot add up to. -/
theorem foldl_absorb {snap : Snap} (h : ∀ ip ∈ snap.ips, Valid.ipv4 (.str ip) = true) :
    (fields snap).foldl absorb blank =
      { ts := tonumber (.str (numText snap.ts)), targets := some (strText snap.targets),
        ips := snap.ips.reverse, flag := fun s => some (decide (snap.flag s = some true)) } := by
  have hhead : [("v".toList, "1".toList), ("ts".toList, numText snap.ts),
      ("targets".toList, strText snap.targets)].foldl absorb blank =
        { blank with
          ts := tonumber (.str (numText snap.ts)), targets := some (strText snap.targets) } :=
    rfl
  rw [fields, List.foldl_append, List.foldl_append, hhead, foldl_absorb_ips h, blank,
    List.append_nil]
  have htail (b : Snap) (d t i : Str) : [("svc_dhcp".toList, d), ("svc_tftp".toList, t),
      ("svc_iscsi".toList, i)].foldl absorb b =
        setFlag (setFlag (setFlag b .dhcp d) .tftp t) .iscsi i := rfl
  rw [htail]
  have hflag : Function.update (Function.update (Function.update (fun _ => none) Service.dhcp
      (some (flagText (snap.flag .dhcp) == "1".toList))) .tftp
      (some (flagText (snap.flag .tftp) == "1".toList))) .iscsi
      (some (flagText (snap.flag .iscsi) == "1".toList)) =
        fun s => some (decide (snap.flag s = some true)) := by
    funext s
    rw [flagText_eq_one, flagText_eq_one, flagText_eq_one]
    cases s <;> rfl
  rw [← hflag]
  rfl

/-- A snapshot without newlines in its values is decoded unless it is too long. -/
theorem decode_encode {snap : Snap} (hclean : ∀ kv ∈ fields snap, '\n' ∉ kv.2)
    (hlen : (encode snap).length ≤ 65536) :
    decode (encode snap) = if ((fields snap).foldl absorb blank).ts = none then none
      else some ((fields snap).foldl absorb blank) := by
  have hne : encode snap ≠ [] := by simp [encode]
  rw [decode, if_neg (not_or.mpr ⟨hne, by omega⟩), linesOf_encode hclean, filterMap_keyValue]

theorem length_lines {ls : List Str} (h : ls ≠ []) :
    (['\n'].intercalate ls ++ ['\n']).length = (ls.map fun l => l.length + 1).sum := by
  induction ls with
  | nil => exact absurd rfl h
  | cons l ls ih =>
    by_cases hls : ls = []
    · subst hls
      simp [List.intercalate]
    · rw [List.intercalate_cons_of_ne_nil hls, List.append_assoc, List.append_assoc,
        List.length_append, List.length_append, ih hls, List.map_cons, List.sum_cons,
        List.length_singleton, Nat.add_assoc]

theorem length_encode (snap : Snap) :
    (encode snap).length = ((fields snap).map fun kv => kv.1.length + kv.2.length + 2).sum := by
  rw [encode, length_lines (by simp [fields]), List.map_map]
  refine congrArg List.sum (List.map_congr_left fun kv _ => ?_)
  show (kv.1 ++ '=' :: kv.2).length + 1 = _
  rw [List.length_append, List.length_cons]
  omega

/-! ## From the output to the answer -/

/-- The bytes of the file for a clock and addresses. -/
def fileSize (now : ℚ) (ips : List Str) : ℕ :=
  53 + (tostring (.num now)).length + (ips.map fun ip => ip.length + 4).sum

theorem fileSize_perm {now : ℚ} {ips ips' : List Str} (h : ips.Perm ips') :
    fileSize now ips = fileSize now ips' := by
  rw [fileSize, fileSize, (h.map _).sum_eq]

theorem length_flagText (b : Option Bool) : (flagText b).length = 1 := by
  unfold flagText
  split <;> rfl

theorem length_encode_ok {snap : Snap} {now : ℚ} (hts : snap.ts = some now)
    (htargets : snap.targets = some "ok".toList) :
    (encode snap).length = fileSize now snap.ips := by
  have hips : ((snap.ips.map fun ip => ("ip".toList, ip)).map
      fun kv => kv.1.length + kv.2.length + 2) = snap.ips.map fun ip => ip.length + 4 := by
    rw [List.map_map]
    refine List.map_congr_left fun ip _ => ?_
    show 2 + ip.length + 2 = ip.length + 4
    omega
  rw [length_encode, fields, hts, htargets, List.map_append, List.map_append, List.sum_append,
    List.sum_append, hips, fileSize]
  have hnum : (numText (some now)).length = (tostring (.num now)).length := rfl
  simp only [List.map_cons, List.map_nil, List.sum_cons, List.sum_nil, length_flagText, hnum]
  have hkeys : "v".toList.length = 1 ∧ "1".toList.length = 1 ∧ "ts".toList.length = 2 ∧
      "targets".toList.length = 7 ∧ (strText (some "ok".toList)).length = 2 ∧
      "svc_dhcp".toList.length = 8 ∧ "svc_tftp".toList.length = 8 ∧
      "svc_iscsi".toList.length = 9 := by decide
  omega

/-- The pages get the snapshot with its clock and services, and find exactly the given
addresses online at the same second. -/
def Survives (p : Probes) (ips : List Str) (got : Option Snap) : Prop :=
  (∃ snap, got = some snap ∧ snap.ts = some p.now ∧
    ∀ s, snap.flag s = some (decide ((collect p).flag s = some true))) ∧
  ∀ ip, Valid.ipv4 ip = true →
    stateOf p.now got ip = if tostring ip ∈ ips then .online else .offline

theorem newline_not_mem_number (now : ℚ) : '\n' ∉ tostring (.num now) :=
  fun h => absurd (mem_numberText h) (by decide)

theorem newline_not_mem_fields {snap : Snap} {now : ℚ} (hts : snap.ts = some now)
    (htargets : '\n' ∉ strText snap.targets)
    (hips : ∀ ip ∈ snap.ips, Valid.ipv4 (.str ip) = true) :
    ∀ kv ∈ fields snap, '\n' ∉ kv.2 := by
  have hflag (b : Option Bool) : '\n' ∉ flagText b := by
    unfold flagText
    split <;> decide
  have hip (ip : Str) (h : ip ∈ snap.ips) : '\n' ∉ ip := fun hmem =>
    absurd ((isAddress_of_ipv4 (hips ip h)).2 _ hmem) (by decide)
  intro kv hkv
  simp only [fields, List.mem_append, List.mem_cons, List.not_mem_nil, or_false, List.mem_map,
    hts] at hkv
  obtain ((rfl | rfl | rfl) | ⟨ip, hmem, rfl⟩) | (rfl | rfl | rfl) := hkv
  · decide
  · exact newline_not_mem_number now
  · exact htargets
  · exact hip ip hmem
  · exact hflag _
  · exact hflag _
  · exact hflag _

/-- The snapshot that comes back from the file. -/
def restored (snap : Snap) (now : ℚ) : Snap where
  ts := some now
  targets := some "ok".toList
  ips := snap.ips.reverse
  flag := fun s => some (decide (snap.flag s = some true))

section

variable {snap : Snap} {now : ℚ} (hts : snap.ts = some now)
  (htargets : snap.targets = some "ok".toList)
  (hips : ∀ ip ∈ snap.ips, Valid.ipv4 (.str ip) = true)

include hts htargets

theorem decode_too_long (h : ¬ fileSize now snap.ips ≤ 65536) : decode (encode snap) = none := by
  rw [← length_encode_ok hts htargets] at h
  rw [decode, if_pos (Or.inr (by omega))]

include hips

theorem decode_snapshot (h : fileSize now snap.ips ≤ 65536) :
    decode (encode snap) =
      (tonumber (.str (tostring (.num now)))).map (restored snap) := by
  have hclean : '\n' ∉ strText snap.targets := by
    rw [htargets]
    decide
  rw [← length_encode_ok hts htargets] at h
  rw [decode_encode (newline_not_mem_fields hts hclean hips) h, foldl_absorb hips, hts, htargets]
  show (if tonumber (.str (tostring (.num now))) = none then none else _) = _
  cases htime : tonumber (.str (tostring (.num now))) with
  | none => rfl
  | some q =>
    rw [if_neg (by simp)]
    show some _ = some (restored snap q)
    rw [restored, ← htime]
    rfl

/-- The clock and the size decide whether the snapshot comes back. -/
theorem survives_decode_iff {p : Probes} (hnow : p.now = now) (hflag : snap.flag = (collect p).flag)
    {ips : List Str} (hmem : ∀ ip, ip ∈ ips ↔ ip ∈ snap.ips) :
    Survives p ips (decode (encode snap)) ↔
      fileSize now snap.ips ≤ 65536 ∧ tonumber (.str (tostring (.num now))) = some now := by
  subst hnow
  constructor
  · intro h
    obtain ⟨⟨got, hgot, htime, -⟩, -⟩ := h
    have hlen : fileSize p.now snap.ips ≤ 65536 := by
      by_contra hlen
      rw [decode_too_long hts htargets hlen] at hgot
      exact absurd hgot (by simp)
    rw [decode_snapshot hts htargets hips hlen] at hgot
    obtain ⟨q, hq, rfl⟩ := Option.map_eq_some_iff.mp hgot
    exact ⟨hlen, hq.trans htime⟩
  · intro h
    obtain ⟨hlen, htime⟩ := h
    rw [decode_snapshot hts htargets hips hlen, htime]
    refine ⟨⟨restored snap p.now, rfl, rfl, fun s => by rw [restored, hflag]⟩, fun ip hip => ?_⟩
    have hage : age p.now (some (restored snap p.now)) = some 0 := by
      show (if p.now - p.now < 0 then none else some (p.now - p.now)) = some 0
      rw [sub_self, if_neg (lt_irrefl 0)]
    have hfresh : ¬ maxAge < 0 := by decide
    rw [Option.map_some, stateOf, hip, hage]
    show (if maxAge < 0 then Answer.unknown
      else if some "ok".toList ≠ some "ok".toList then .unknown
      else if tostring ip ∈ snap.ips.reverse then .online else .offline) = _
    rw [if_neg hfresh, if_neg (fun hne => hne rfl)]
    simp only [List.mem_reverse, hmem]

end

/-- The addresses in an output of lines, and no other ones, are online when the snapshot
has been written and read back, and its clock and services are unchanged, exactly when
the file is not too long to be read and the clock is printed exactly. -/
theorem status_survives_iff {p : Probes} {ls : List OutLine} (hok : ∀ l ∈ ls, l.Ok)
    (hout : p.tgtadm = some (some (outputOf ls))) {order : List Str}
    (horder : order.Perm (collect p).ips) {t t' : FileTree Str}
    (hwrite : write t { collect p with ips := order } = some t') :
    Survives p (addresses ls) (read t') ↔
      fileSize p.now (addresses ls).dedup ≤ 65536 ∧
        tonumber (.str (tostring (.num p.now))) = some p.now := by
  have hparse : (collect p).ips = (addresses ls).dedup := by
    rw [collect, hout]
    exact parseTargets_outputOf hok
  rw [hparse] at horder
  have htargets : (collect p).targets = some "ok".toList := by
    rw [collect, hout]
  have hmem (ip : Str) : ip ∈ addresses ls ↔ ip ∈ order := by
    rw [horder.mem_iff, List.mem_dedup]
  have hread : read t' = decode (encode { collect p with ips := order }) := by
    rw [read, FileTree.read_write hwrite, Option.bind_some]
  rw [hread, ← fileSize_perm horder]
  exact @survives_decode_iff { collect p with ips := order } p.now rfl htargets
    (fun ip hip => ipv4_of_mem_addresses hok ip ((hmem ip).mpr hip)) p rfl rfl _ hmem

/-! The server has a directory for the file. -/

theorem cfgTree_write (snap : Snap) : (write cfgTree snap).isSome = true := rfl

/-- The clock at an output, with all services listening. -/
def probesOf (ls : List OutLine) : Probes where
  now := 1700000000
  tgtadm := some (some (outputOf ls))
  lsof := true
  port := fun _ => .num 67
  listeners := fun _ => some "1234".toList

def twoClients : List OutLine :=
  [.other "Target 1: iqn.2020-02-10.com.mkyboot".toList,
    .address "        ".toList " ".toList true "192.168.0.3".toList [],
    .address "        ".toList " ".toList false "192.168.0.4".toList [], .other []]

theorem two_clients_survive :
    Survives (probesOf twoClients) (addresses twoClients)
      (read ((write cfgTree (collect (probesOf twoClients))).get (cfgTree_write _))) := by
  refine (status_survives_iff (by decide +kernel) rfl (List.Perm.refl _)
    (Option.some_get _).symm).mpr ⟨?_, ?_⟩
  · decide +kernel
  · decide +kernel

/-! Clients of a network of their own, 256 in each part. -/

def clientIp (i : ℕ) : Str :=
  ['.'].intercalate ["10".toList, "0".toList, Nat.toDigits 10 (i / 256), Nat.toDigits 10 (i % 256)]

def clients (n : ℕ) : List OutLine :=
  (List.range n).map fun i => .address [] " ".toList true (clientIp i) []

theorem octet_toDigits : ∀ n < 256, Valid.octet (Nat.toDigits 10 n) = true := by decide +kernel

theorem dot_not_mem_toDigits (n : ℕ) : '.' ∉ Nat.toDigits 10 n :=
  fun h => absurd (Nat.isDigit_of_mem_toDigits (by decide) (by decide) h) (by decide)

theorem splitOn_clientIp (i : ℕ) : (clientIp i).splitOn '.' =
    ["10".toList, "0".toList, Nat.toDigits 10 (i / 256), Nat.toDigits 10 (i % 256)] := by
  refine List.splitOn_intercalate '.' ?_ (by simp)
  simp only [List.forall_mem_cons]
  exact ⟨by decide, by decide, dot_not_mem_toDigits _, dot_not_mem_toDigits _, by simp⟩

theorem ipv4_clientIp {i : ℕ} (h : i < 65536) : Valid.ipv4 (.str (clientIp i)) = true := by
  refine Valid.ipv4_iff.mpr ⟨_, _, _, _, splitOn_clientIp i, ?_, ?_, ?_, ?_⟩
  · decide +kernel
  · decide +kernel
  · exact octet_toDigits _ (by omega)
  · exact octet_toDigits _ (Nat.mod_lt i (by decide))

theorem toDigits_inj {m n : ℕ} (h : Nat.toDigits 10 m = Nat.toDigits 10 n) : m = n := by
  have hm := tonumber_toDigits m
  rw [h, tonumber_toDigits n] at hm
  exact_mod_cast (Option.some.inj hm).symm

theorem clientIp_injective : Function.Injective clientIp := by
  intro i j h
  have hsplit := (splitOn_clientIp i).symm.trans
    ((congrArg (·.splitOn '.') h).trans (splitOn_clientIp j))
  simp only [List.cons.injEq, true_and, and_true] at hsplit
  have hdiv := toDigits_inj hsplit.1
  have hmod := toDigits_inj hsplit.2
  omega

theorem addresses_clients (n : ℕ) : addresses (clients n) = (List.range n).map clientIp := by
  rw [addresses, clients, List.filterMap_map]
  exact congrFun (List.filterMap_eq_map (f := clientIp)) (List.range n)

theorem clients_ok {n : ℕ} (hn : n ≤ 65536) : ∀ l ∈ clients n, l.Ok := by
  intro l hl
  obtain ⟨i, hi, rfl⟩ := List.mem_map.mp hl
  have hip := ipv4_clientIp ((List.mem_range.mp hi).trans_le hn)
  exact ⟨by decide, by decide, hip, by decide, by decide⟩

theorem length_clientIp (i : ℕ) : 5 ≤ (clientIp i).length := by
  rw [clientIp, List.intercalate_cons_cons, List.intercalate_cons_cons]
  simp only [List.length_append, List.length_singleton]
  have hten : "10".toList.length = 2 := rfl
  have hzero : "0".toList.length = 1 := rfl
  omega

/-- Each client takes nine bytes of the file or more. -/
theorem fileSize_clients (now : ℚ) (n : ℕ) :
    n * 9 ≤ fileSize now (addresses (clients n)).dedup := by
  have hnodup : (addresses (clients n)).Nodup := by
    rw [addresses_clients]
    exact List.nodup_range.map clientIp_injective
  have hsum : n * 9 ≤ ((addresses (clients n)).map fun ip => ip.length + 4).sum := by
    have hle := List.card_nsmul_le_sum ((addresses (clients n)).map fun ip => ip.length + 4) 9
    rw [addresses_clients, List.map_map, List.length_map, List.length_range, smul_eq_mul] at hle
    rw [addresses_clients, List.map_map]
    refine hle fun x hx => ?_
    obtain ⟨i, -, rfl⟩ := List.mem_map.mp hx
    exact Nat.add_le_add_right (length_clientIp i) 4
  rw [hnodup.dedup, fileSize]
  omega

/-- The file of many clients is written, but nothing is read back. -/
theorem read_clients {n : ℕ} (hn : n ≤ 65536) (hlong : 65536 < n * 9) {t : FileTree Str}
    (h : write cfgTree (collect (probesOf (clients n))) = some t) : read t = none := by
  have hips : (collect (probesOf (clients n))).ips = (addresses (clients n)).dedup :=
    parseTargets_outputOf (clients_ok hn)
  have hsize := fileSize_clients (probesOf (clients n)).now n
  rw [← hips] at hsize
  rw [read, FileTree.read_write h, Option.bind_some]
  exact decode_too_long rfl rfl (by omega)

theorem many_clients_unknown :
    (∀ l ∈ clients 8192, l.Ok) ∧ (write cfgTree (collect (probesOf (clients 8192)))).isSome = true ∧
      ∀ t, write cfgTree (collect (probesOf (clients 8192))) = some t → read t = none ∧
        stateOf 1700000000 (read t) (.str (clientIp 0)) = .unknown ∧
        ¬ Survives (probesOf (clients 8192)) (addresses (clients 8192)) (read t) := by
  refine ⟨clients_ok (by omega), cfgTree_write _, fun t ht => ?_⟩
  have hread := read_clients (by omega) (by omega) ht
  rw [hread]
  refine ⟨rfl, ?_, fun h => ?_⟩
  · rw [stateOf, ipv4_clientIp (by omega)]
    rfl
  · obtain ⟨⟨snap, hsnap, -⟩, -⟩ := h
    exact absurd hsnap (by simp)

end Status
end Control
end MkyBoot
