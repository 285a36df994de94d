import MkyBoot.Text

/-!
# Words of a shell command

Token recognition and quote removal of the POSIX shell, as a machine that reads a
command one character at a time.  A word is a list of symbols: a character that
stands for itself, or one the shell would expand, that is an unquoted `*`, `?`,
`[` or leading `~`, and a `$` or backquote outside single quotes.  Every token of
the result is a word, an operator or the number before a redirection.

The main result, `tokens_cost`, bounds what the tokens of a command can spell by
the length of the command.  When the bound is attained no character was spent on
quoting, a comment or a second blank, and every word is spelled as it is read.
-/

namespace MkyBoot
namespace Posix
namespace Shell

abbrev Text := List Char

inductive Class where
  | blank
  | newline
  | oper
  | backslash
  | single
  | double
  | dollar
  | glob
  | hash
  | tilde
  | plain
  deriving DecidableEq

def classOf (c : Char) : Class :=
  if c = ' ' ∨ c = '\t' then .blank
  else if c = '\n' then .newline
  else if c ∈ ['&', ';', '|', '<', '>', '(', ')'] then .oper
  else if c = '\\' then .backslash
  else if c = '\'' then .single
  else if c = '"' then .double
  else if c = '$' ∨ c = '\x60' then .dollar
  else if c ∈ ['*', '?', '['] then .glob
  else if c = '#' then .hash
  else if c = '~' then .tilde
  else .plain

inductive Sym where
  | lit (c : Char)
  | active (c : Char)
  deriving DecidableEq

inductive Token where
  | word (w : List Sym)
  | op (o : Text)
  | io (fd : Text)
  deriving DecidableEq

/-- The operators of more than one character. -/
def longOperators : List Text :=
  ["&&".toList, "||".toList, ";;".toList, "<<".toList, ">>".toList, "<&".toList, ">&".toList,
    "<>".toList, "<<-".toList, ">|".toList]

/-- What is being read.  The symbols of an unfinished word are kept in reverse, and
`clean` says that none of them was quoted. -/
inductive Ctx where
  | gap
  | comment
  | oper (o : Text)
  | bare (clean : Bool) (w : List Sym)
  | single (w : List Sym)
  | double (w : List Sym)
  deriving DecidableEq

structure Lex where
  ctx : Ctx
  /-- A backslash has been read and waits for its character. -/
  esc : Bool
  /-- Finished tokens, the last one first. -/
  out : List Token
  deriving DecidableEq

def newline : Token := .op ['\n']

/-- The first character of a token. -/
def start (out : List Token) (c : Char) : Lex :=
  match classOf c with
  | .blank => ⟨.gap, false, out⟩
  | .newline => ⟨.gap, false, newline :: out⟩
  | .oper => ⟨.oper [c], false, out⟩
  | .backslash => ⟨.gap, true, out⟩
  | .single => ⟨.single [], false, out⟩
  | .double => ⟨.double [], false, out⟩
  | .dollar | .glob | .tilde => ⟨.bare true [.active c], false, out⟩
  | .hash => ⟨.comment, false, out⟩
  | .plain => ⟨.bare true [.lit c], false, out⟩

def digitSyms (w : List Sym) : Option Text :=
  w.reverse.mapM fun
    | .lit c => if c.isDigit then some c else none
    | .active _ => none

/-- A word that an operator ends: digits before a redirection are its number. -/
def ended (clean : Bool) (w : List Sym) (c : Char) : Token :=
  match digitSyms w with
  | some fd => if clean ∧ (c = '<' ∨ c = '>') then .io fd else .word w.reverse
  | none => .word w.reverse

/-- A character of an unquoted word. -/
def inWord (clean : Bool) (w : List Sym) (out : List Token) (c : Char) : Lex :=
  match classOf c with
  | .blank => ⟨.gap, false, .word w.reverse :: out⟩
  | .newline => ⟨.gap, false, newline :: .word w.reverse :: out⟩
  | .oper => ⟨.oper [c], false, ended clean w c :: out⟩
  | .backslash => ⟨.bare clean w, true, out⟩
  | .single => ⟨.single w, false, out⟩
  | .double => ⟨.double w, false, out⟩
  | .dollar | .glob => ⟨.bare clean (.active c :: w), false, out⟩
  | .hash | .tilde | .plain => ⟨.bare clean (.lit c :: w), false, out⟩

/-- A backslash keeps its meaning in double quotes before these characters only. -/
def special (c : Char) : Bool := classOf c ∈ [.dollar, .double, .backslash]

/-- The character after a backslash, other than a newline. -/
def escaped (ctx : Ctx) (out : List Token) (c : Char) : Lex :=
  match ctx with
  | .gap => ⟨.bare false [.lit c], false, out⟩
  | .oper o => ⟨.bare false [.lit c], false, .op o :: out⟩
  | .bare _ w => ⟨.bare false (.lit c :: w), false, out⟩
  | .double w =>
    if special c then ⟨.double (.lit c :: w), false, out⟩
    else ⟨.double (.lit c :: .lit '\\' :: w), false, out⟩
  | .single w => ⟨.single w, false, out⟩
  | .comment => ⟨.comment, false, out⟩

def inDouble (w : List Sym) (out : List Token) (c : Char) : Lex :=
  match classOf c with
  | .double => ⟨.bare false w, false, out⟩
  | .backslash => ⟨.double w, true, out⟩
  | .dollar => ⟨.double (.active c :: w), false, out⟩
  | _ => ⟨.double (.lit c :: w), false, out⟩

def inOper (o : Text) (out : List Token) (c : Char) : Lex :=
  if o ++ [c] ∈ longOperators then ⟨.oper (o ++ [c]), false, out⟩
  else if classOf c = .backslash then ⟨.oper o, true, out⟩
  else start (.op o :: out) c

def step (st : Lex) (c : Char) : Lex :=
  if st.esc then
    -- a backslash and a newline continue the line
    if c = '\n' then { st with esc := false } else escaped st.ctx st.out c
  else
    match st.ctx with
    | .gap => start st.out c
    | .comment => if c = '\n' then ⟨.gap, false, newline :: st.out⟩ else st
    | .oper o => inOper o st.out c
    | .bare clean w => inWord clean w st.out c
    | .single w =>
      if c = '\'' then ⟨.bare false w, false, st.out⟩ else ⟨.single (.lit c :: w), false, st.out⟩
    | .double w => inDouble w st.out c

def lex (st : Lex) (t : Text) : Lex := t.foldl step st

/-- The tokens at the end of the input.  An open quote or a backslash without a
character leaves the command unfinished. -/
def finish (st : Lex) : Option (List Token) :=
  if st.esc then none
  else match st.ctx with
    | .gap | .comment => some st.out.reverse
    | .oper o => some (.op o :: st.out).reverse
    | .bare _ w => some (.word w.reverse :: st.out).reverse
    | .single _ | .double _ => none

def tokens (t : Text) : Option (List Token) := finish (lex ⟨.gap, false, []⟩ t)

example : tokens "lsof -t \"a b\" 2>/dev/null".toList =
    some [.word ("lsof".toList.map .lit), .word ("-t".toList.map .lit),
      .word ("a b".toList.map .lit), .io ['2'], .op ['>'],
      .word ("/dev/null".toList.map .lit)] := by
  decide

/-! ## Earlier tokens do not matter -/

def Lex.after (st : Lex) (out : List Token) : Lex := { st with out := st.out ++ out }

theorem start_after (out' out : List Token) (c : Char) :
    start (out' ++ out) c = (start out' c).after out := by
  unfold start
  cases classOf c <;> rfl

theorem inOper_after (o : Text) (out' out : List Token) (c : Char) :
    inOper o (out' ++ out) c = (inOper o out' c).after out := by
  unfold inOper
  split
  · rfl
  · split
    · rfl
    · exact start_after (.op o :: out') out c

theorem escaped_after (ctx : Ctx) (out' out : List Token) (c : Char) :
    escaped ctx (out' ++ out) c = (escaped ctx out' c).after out := by
  cases ctx with
  | double w =>
    simp only [escaped]
    split <;> rfl
  | gap | comment | oper o | bare clean w | single w => rfl

theorem step_after (st : Lex) (out : List Token) (c : Char) :
    step (st.after out) c = (step st c).after out := by
  obtain ⟨ctx, esc, out'⟩ := st
  cases esc with
  | true =>
    unfold step Lex.after
    dsimp only
    rw [if_pos rfl, if_pos rfl]
    split
    · rfl
    · exact escaped_after ctx out' out c
  | false =>
    cases ctx with
    | gap => exact start_after out' out c
    | comment =>
      simp only [step, Lex.after, Bool.false_eq_true, if_false]
      split <;> rfl
    | oper o => exact inOper_after o out' out c
    | bare clean w =>
      show inWord clean w (out' ++ out) c = (inWord clean w out' c).after out
      unfold inWord
      cases classOf c <;> rfl
    | single w =>
      simp only [step, Lex.after, Bool.false_eq_true, if_false]
      split <;> rfl
    | double w =>
      show inDouble w (out' ++ out) c = (inDouble w out' c).after out
      unfold inDouble
      cases classOf c <;> rfl

theorem lex_after (st : Lex) (out : List Token) (t : Text) :
    lex (st.after out) t = (lex st t).after out := by
  induction t generalizing st with
  | nil => rfl
  | cons c t ih =>
    show lex (step (st.after out) c) t = (lex (step st c) t).after out
    rw [step_after, ih]

theorem finish_after (st : Lex) (out : List Token) :
    finish (st.after out) = (finish st).map (out.reverse ++ ·) := by
  obtain ⟨ctx, esc, out'⟩ := st
  cases esc with
  | true => rfl
  | false => cases ctx <;> simp [finish, Lex.after]

/-- From a gap on, a text reads as it does alone. -/
theorem finish_lex_gap (out : List Token) (t : Text) :
    finish (lex ⟨.gap, false, out⟩ t) = (tokens t).map (out.reverse ++ ·) := by
  have h := lex_after ⟨.gap, false, []⟩ out t
  rw [tokens, ← finish_after, ← h]
  rfl

/-! ## Words that need no quoting -/

/-- The character stands for itself inside an unquoted word. -/
def Ordinary (c : Char) : Prop := classOf c = .plain ∨ classOf c = .hash ∨ classOf c = .tilde

instance (c : Char) : Decidable (Ordinary c) := inferInstanceAs (Decidable (_ ∨ _ ∨ _))

/-- The text reads as one word that is the text itself. -/
def Inert (w : Text) : Prop := w.head?.map classOf = some .plain ∧ ∀ c ∈ w, Ordinary c

instance (w : Text) : Decidable (Inert w) := inferInstanceAs (Decidable (_ ∧ _))

def wordOf (w : Text) : Token := .word (w.map .lit)

theorem inWord_of_ordinary {c : Char} (h : Ordinary c) (clean : Bool) (w : List Sym)
    (out : List Token) : inWord clean w out c = ⟨.bare clean (.lit c :: w), false, out⟩ := by
  obtain h | h | h := h <;> rw [inWord, h]

theorem lex_ordinary {v : Text} (hv : ∀ c ∈ v, Ordinary c) (clean : Bool) (w : List Sym)
    (out : List Token) :
    lex ⟨.bare clean w, false, out⟩ v = ⟨.bare clean ((v.map .lit).reverse ++ w), false, out⟩ := by
  induction v generalizing w with
  | nil => rfl
  | cons c v ih =>
    have hstep : step ⟨.bare clean w, false, out⟩ c = ⟨.bare clean (.lit c :: w), false, out⟩ :=
      inWord_of_ordinary (hv c List.mem_cons_self) clean w out
    show lex (step ⟨.bare clean w, false, out⟩ c) v = _
    rw [hstep, ih fun d hd => hv d (List.mem_cons_of_mem c hd)]
    simp

theorem lex_inert {w : Text} (hw : Inert w) (out : List Token) :
    lex ⟨.gap, false, out⟩ w = ⟨.bare true (w.map .lit).reverse, false, out⟩ := by
  obtain ⟨hhead, hord⟩ := hw
  cases w with
  | nil => exact absurd hhead (by simp)
  | cons c v =>
    have hplain : classOf c = .plain := by simpa using hhead
    have hstep : step ⟨.gap, false, out⟩ c = ⟨.bare true [.lit c], false, out⟩ := by
      show start out c = _
      rw [start, hplain]
    show lex (step ⟨.gap, false, out⟩ c) v = _
    rw [hstep, lex_ordinary fun d hd => hord d (List.mem_cons_of_mem c hd)]
    simp

theorem lex_append (st : Lex) (t u : Text) : lex st (t ++ u) = lex (lex st t) u :=
  List.foldl_append

/-- Words, each followed by one blank. -/
def spaced (ws : List Text) : Text := ws.flatMap (· ++ [' '])

theorem lex_spaced {ws : List Text} (hws : ∀ w ∈ ws, Inert w) (out : List Token) :
    lex ⟨.gap, false, out⟩ (spaced ws) = ⟨.gap, false, (ws.map wordOf).reverse ++ out⟩ := by
  induction ws generalizing out with
  | nil => rfl
  | cons w ws ih =>
    have hw : lex ⟨.gap, false, out⟩ (w ++ [' ']) = ⟨.gap, false, wordOf w :: out⟩ := by
      rw [lex_append, lex_inert (hws w List.mem_cons_self)]
      show (⟨.gap, false, .word (w.map Sym.lit).reverse.reverse :: out⟩ : Lex) = _
      rw [List.reverse_reverse]
      rfl
    show lex _ ((w ++ [' ']) ++ spaced ws) = _
    rw [lex_append, hw, ih fun v hv => hws v (List.mem_cons_of_mem w hv)]
    simp

/-! ## What tokens cost -/

def Token.size : Token → ℕ
  | .word w => w.length
  | .op o => o.length
  | .io fd => fd.length

/-- A word needs a blank before the next word. -/
def lag : List Token → ℕ
  | .word _ :: _ => 1
  | _ => 0

def Token.joint : Token → List Token → ℕ
  | .op _, _ => 0
  | _, out => lag out

/-- The shortest text that spells tokens, listed from the last one on. -/
def cost : List Token → ℕ
  | [] => 0
  | t :: out => cost out + t.joint out + t.size

/-- The part of the input the state accounts for. -/
def potential (st : Lex) : ℕ :=
  (if st.esc then 1 else 0) +
    match st.ctx with
    | .gap | .comment => cost st.out + lag st.out
    | .oper o => cost st.out + o.length
    | .bare _ w | .single w | .double w => cost st.out + lag st.out + w.length

/-- A word spelled as it is read. -/
def TightWord (w : List Sym) : Prop :=
  w ≠ [] ∧ (∀ c, .lit c ∈ w → Ordinary c) ∧ ∀ c, w.head? = some (.lit c) → classOf c = .plain

def TightOut (out : List Token) : Prop := ∀ w, .word w ∈ out → TightWord w

/-- Nothing has been quoted or skipped so far. -/
def Tight (st : Lex) : Prop :=
  TightOut st.out ∧
    match st.ctx with
    | .gap | .oper _ => True
    | .bare _ w => TightWord w.reverse
    | .comment | .single _ | .double _ => False

/-- One character has taken a state that accounts for `b` to `st`: it adds at most
one, and when it adds one it keeps a tight state tight. -/
def Gains (b : ℕ) (tight : Prop) (st : Lex) : Prop :=
  potential st ≤ b + 1 ∧ (tight → potential st = b + 1 → Tight st)

theorem gains_of_le {b : ℕ} {tight : Prop} {st : Lex} (h : potential st ≤ b) :
    Gains b tight st := ⟨by omega, fun _ he => by omega⟩

theorem gains_of_tight {b : ℕ} {tight : Prop} {st : Lex} (h : potential st ≤ b + 1)
    (ht : tight → Tight st) : Gains b tight st := ⟨h, fun hb _ => ht hb⟩

theorem TightOut.cons_op {out : List Token} (h : TightOut out) (o : Text) :
    TightOut (.op o :: out) := by
  intro w hw
  obtain hw | hw := List.mem_cons.mp hw
  · exact absurd hw (by simp)
  · exact h w hw

theorem TightOut.cons_word {out : List Token} (h : TightOut out) {w : List Sym}
    (hw : TightWord w) : TightOut (.word w :: out) := by
  intro v hv
  obtain hv | hv := List.mem_cons.mp hv
  · injection hv with hv
    exact hv ▸ hw
  · exact h v hv

theorem tightWord_singleton {c : Char} (h : classOf c = .plain) : TightWord [.lit c] := by
  refine ⟨by simp, fun d hd => ?_, fun d hd => ?_⟩
  · obtain rfl : d = c := by simpa using hd
    exact Or.inl h
  · obtain rfl : c = d := by simpa using hd
    exact h

theorem tightWord_active (c : Char) : TightWord [.active c] := by
  refine ⟨by simp, fun d hd => ?_, fun d hd => ?_⟩
  · exact absurd hd (by simp)
  · exact absurd hd (by simp)

/-- A further symbol keeps a word tight, whether it is expanded or ordinary. -/
theorem TightWord.snoc {w : List Sym} (h : TightWord w.reverse) {s : Sym}
    (hs : ∀ c, s = .lit c → Ordinary c) : TightWord (s :: w).reverse := by
  obtain ⟨hne, hord, hhead⟩ := h
  rw [List.reverse_cons]
  refine ⟨by simp, fun c hc => ?_, fun c hc => hhead c ?_⟩
  · obtain hc | hc := List.mem_append.mp hc
    · exact hord c hc
    · exact hs c (List.mem_singleton.mp hc).symm
  · rw [List.head?_append_of_ne_nil _ hne] at hc
    exact hc

theorem start_gains (out : List Token) (c : Char) :
    Gains (cost out + lag out) (TightOut out) (start out c) := by
  unfold start
  cases hc : classOf c with
  | blank => exact gains_of_le (by simp [potential])
  | newline =>
    refine gains_of_tight ?_ fun h => ⟨h.cons_op _, trivial⟩
    simp [potential, cost, newline, Token.joint, Token.size, lag]
  | oper => exact gains_of_tight (by simp [potential]) fun h => ⟨h, trivial⟩
  | backslash => exact gains_of_tight (by simp [potential]; omega) fun h => ⟨h, trivial⟩
  | single | double | hash => exact gains_of_le (by simp [potential])
  | dollar | glob | tilde =>
    exact gains_of_tight (by simp [potential]) fun h => ⟨h, tightWord_active c⟩
  | plain => exact gains_of_tight (by simp [potential]) fun h => ⟨h, tightWord_singleton hc⟩

theorem mapM_length {α β : Type} {f : α → Option β} {l : List α} {r : List β}
    (h : l.mapM f = some r) : r.length = l.length := by
  induction l generalizing r with
  | nil =>
    obtain rfl : [] = r := by simpa using h
    rfl
  | cons a l ih =>
    rw [List.mapM_cons] at h
    obtain ⟨b, -, h⟩ := Option.bind_eq_some_iff.mp h
    obtain ⟨bs, hbs, h⟩ := Option.bind_eq_some_iff.mp h
    obtain rfl : b :: bs = r := by simpa using h
    rw [List.length_cons, List.length_cons, ih hbs]

/-- The token of a word that an operator ends is the word, or has no symbols. -/
theorem ended_cases (clean : Bool) (w : List Sym) (c : Char) :
    ended clean w c = .word w.reverse ∨
      ∃ fd : Text, fd.length = w.length ∧ ended clean w c = .io fd := by
  unfold ended
  split
  · rename_i fd hfd
    split
    · have hlen := mapM_length hfd
      rw [List.length_reverse] at hlen
      exact Or.inr ⟨fd, hlen, rfl⟩
    · exact Or.inl rfl
  · exact Or.inl rfl

theorem cost_ended (clean : Bool) (w : List Sym) (c : Char) (out : List Token) :
    cost (ended clean w c :: out) = cost out + lag out + w.length := by
  obtain h | ⟨fd, hlen, h⟩ := ended_cases clean w c
  · rw [h, cost, Token.joint, Token.size, List.length_reverse]
    exact fun o ho => absurd ho (by simp)
  · rw [h, cost, Token.joint, Token.size, hlen]
    exact fun o ho => absurd ho (by simp)

theorem TightOut.cons_ended {out : List Token} (h : TightOut out) {w : List Sym}
    (hw : TightWord w.reverse) (clean : Bool) (c : Char) : TightOut (ended clean w c :: out) := by
  obtain he | ⟨fd, -, he⟩ := ended_cases clean w c
  · rw [he]
    exact h.cons_word hw
  · rw [he]
    intro v hv
    obtain hv | hv := List.mem_cons.mp hv
    · exact absurd hv (by simp)
    · exact h v hv

theorem inWord_gains (clean : Bool) (w : List Sym) (out : List Token) (c : Char) :
    Gains (cost out + lag out + w.length) (TightOut out ∧ TightWord w.reverse)
      (inWord clean w out c) := by
  unfold inWord
  cases hc : classOf c with
  | blank =>
    refine gains_of_tight ?_ fun h => ⟨h.1.cons_word h.2, trivial⟩
    simp [potential, cost, Token.joint, Token.size, lag]
  | newline =>
    refine gains_of_tight ?_ fun h => ⟨(h.1.cons_word h.2).cons_op _, trivial⟩
    simp [potential, newline, cost, Token.joint, Token.size, lag]
  | oper =>
    refine gains_of_tight ?_ fun h => ⟨h.1.cons_ended h.2 clean c, trivial⟩
    simp [potential, cost_ended]
  | backslash => exact gains_of_tight (by simp [potential]; omega) id
  | single | double => exact gains_of_le (by simp [potential])
  | dollar | glob =>
    refine gains_of_tight ?_ fun h => ⟨h.1, h.2.snoc (by simp)⟩
    simp [potential, Nat.add_assoc]
  | hash | tilde | plain =>
    refine gains_of_tight ?_ fun h => ⟨h.1, h.2.snoc fun d hd => ?_⟩
    · simp [potential, Nat.add_assoc]
    · injection hd with hd
      rw [← hd, Ordinary, hc]
      simp

theorem inOper_gains (o : Text) (out : List Token) (c : Char) :
    Gains (cost out + o.length) (TightOut out) (inOper o out c) := by
  unfold inOper
  split
  · exact gains_of_tight (by simp [potential, Nat.add_assoc]) fun h => ⟨h, trivial⟩
  · split
    · exact gains_of_tight (by simp [potential]; omega) fun h => ⟨h, trivial⟩
    · have hop : cost (.op o :: out) + lag (.op o :: out) = cost out + o.length := by
        simp [cost, Token.joint, Token.size, lag]
      obtain ⟨hle, htight⟩ := start_gains (.op o :: out) c
      rw [hop] at hle htight
      exact ⟨hle, fun h he => htight (h.cons_op o) he⟩

/-- The backslash is accounted for, so its character adds something in double quotes
only, where no state is tight. -/
theorem escaped_gains (ctx : Ctx) (out : List Token) (c : Char) :
    Gains (potential ⟨ctx, true, out⟩) (Tight ⟨ctx, true, out⟩) (escaped ctx out c) := by
  cases ctx with
  | double w =>
    refine ⟨?_, fun h => h.2.elim⟩
    rw [escaped]
    split <;> simp [potential] <;> omega
  | gap =>
    refine gains_of_le ?_
    show 0 + (cost out + lag out + 1) ≤ 1 + (cost out + lag out)
    omega
  | oper o =>
    refine gains_of_le ?_
    show 0 + (cost out + 0 + o.length + 0 + 1) ≤ 1 + (cost out + o.length)
    omega
  | bare clean w =>
    refine gains_of_le ?_
    show 0 + (cost out + lag out + (w.length + 1)) ≤ 1 + (cost out + lag out + w.length)
    omega
  | comment | single w => exact gains_of_le (by simp [potential, escaped])

theorem step_gains (st : Lex) (c : Char) : Gains (potential st) (Tight st) (step st c) := by
  obtain ⟨ctx, esc, out⟩ := st
  unfold step
  cases esc with
  | true =>
    dsimp only
    rw [if_pos rfl]
    split
    · exact gains_of_le (by simp [potential])
    · exact escaped_gains ctx out c
  | false =>
    dsimp only
    rw [if_neg (by decide)]
    cases ctx with
    | gap =>
      have h := start_gains out c
      exact ⟨by simpa [potential] using h.1, fun ht he => h.2 ht.1 (by simpa [potential] using he)⟩
    | comment =>
      refine ⟨?_, fun h => h.2.elim⟩
      dsimp only
      split <;> simp [potential, newline, cost, Token.joint, Token.size, lag]
    | oper o =>
      have h := inOper_gains o out c
      exact ⟨by simpa [potential] using h.1, fun ht he => h.2 ht.1 (by simpa [potential] using he)⟩
    | bare clean w =>
      have h := inWord_gains clean w out c
      exact ⟨by simpa [potential] using h.1, fun ht he => h.2 ht (by simpa [potential] using he)⟩
    | single w =>
      refine ⟨?_, fun h => h.2.elim⟩
      dsimp only
      split <;> simp [potential, Nat.add_assoc]
    | double w =>
      refine ⟨?_, fun h => h.2.elim⟩
      dsimp only
      unfold inDouble
      cases classOf c <;> simp [potential] <;> omega

theorem potential_lex_le (st : Lex) (t : Text) :
    potential (lex st t) ≤ potential st + t.length := by
  induction t generalizing st with
  | nil => exact Nat.le_refl _
  | cons c t ih =>
    have hstep := (step_gains st c).1
    have hrest := ih (step st c)
    rw [List.length_cons]
    show potential (lex (step st c) t) ≤ _
    omega

theorem tight_lex {st : Lex} (h : Tight st) {t : Text}
    (he : potential (lex st t) = potential st + t.length) : Tight (lex st t) := by
  induction t generalizing st with
  | nil => exact h
  | cons c t ih =>
    have hrest := potential_lex_le (step st c) t
    have hstep := (step_gains st c).1
    change potential (lex (step st c) t) = _ at he
    rw [List.length_cons] at he
    exact ih ((step_gains st c).2 h (by omega)) (by omega)

theorem TightOut.reverse {out : List Token} (h : TightOut out) : TightOut out.reverse :=
  fun w hw => h w (List.mem_reverse.mp hw)

/-- The tokens of a finished state cost no more than it accounts for. -/
theorem finish_cost {st : Lex} {ts : List Token} (h : finish st = some ts) :
    cost ts.reverse ≤ potential st ∧ (Tight st → TightOut ts) := by
  obtain ⟨ctx, esc, out⟩ := st
  unfold finish at h
  split at h
  · exact absurd h (by simp)
  · rename_i hesc
    obtain rfl : esc = false := by simpa using hesc
    cases ctx with
    | gap =>
      injection h with h
      subst h
      rw [List.reverse_reverse]
      exact ⟨by simp [potential], fun ht => ht.1.reverse⟩
    | comment =>
      injection h with h
      subst h
      rw [List.reverse_reverse]
      exact ⟨by simp [potential], fun ht => ht.2.elim⟩
    | oper o =>
      injection h with h
      subst h
      rw [List.reverse_reverse]
      exact ⟨by simp [potential, cost, Token.joint, Token.size],
        fun ht => (ht.1.cons_op o).reverse⟩
    | bare clean w =>
      injection h with h
      subst h
      rw [List.reverse_reverse]
      exact ⟨by simp [potential, cost, Token.joint, Token.size],
        fun ht => (ht.1.cons_word ht.2).reverse⟩
    | single w | double w => exact absurd h (by simp)

/-- The tokens of a command cost no more than its length.  If they cost as much, every
word is spelled as it is read. -/
theorem tokens_cost {t : Text} {ts : List Token} (h : tokens t = some ts) :
    cost ts.reverse ≤ t.length ∧ (cost ts.reverse = t.length → TightOut ts) := by
  have hstart : Tight ⟨.gap, false, []⟩ := ⟨fun w hw => absurd hw (by simp), trivial⟩
  have hle := potential_lex_le ⟨.gap, false, []⟩ t
  have hzero : potential ⟨.gap, false, []⟩ = 0 := rfl
  obtain ⟨hcost, htight⟩ := finish_cost h
  exact ⟨by omega, fun he => htight (tight_lex hstart (by omega))⟩

/-! ## Commands made of words -/

theorem cost_words (ws : List Text) :
    cost (ws.map wordOf).reverse + lag (ws.map wordOf).reverse = (spaced ws).length := by
  induction ws using List.reverseRecOn with
  | nil => rfl
  | append_singleton ws w ih =>
    have hspaced : spaced (ws ++ [w]) = spaced ws ++ (w ++ [' ']) := by simp [spaced]
    rw [hspaced, List.length_append, ← ih]
    simp [wordOf, cost, Token.joint, Token.size, lag, Nat.add_assoc]

theorem inert_of_tightWord {w : Text} (h : TightWord (w.map .lit)) : Inert w := by
  obtain ⟨hne, hord, hhead⟩ := h
  cases w with
  | nil => exact absurd rfl hne
  | cons c v =>
    refine ⟨?_, fun d hd => hord d (List.mem_map_of_mem hd)⟩
    rw [List.head?_cons, Option.map_some, hhead c rfl]

/-- A redirection as it is written after a command. -/
structure Redirect where
  fd : Text
  op : Text
  target : Text

namespace Redirect

def text (r : Redirect) : Text := r.fd ++ (r.op ++ r.target)

def toks (r : Redirect) : List Token := [.io r.fd, .op r.op, wordOf r.target]

/-- The redirection reads as it is meant after any tokens. -/
def Parses (r : Redirect) : Prop :=
  ∀ out, lex ⟨.gap, false, out⟩ r.text =
    ⟨.bare true (r.target.map .lit).reverse, false, .op r.op :: .io r.fd :: out⟩

/-- It does so when its operator is complete and its target is inert. -/
theorem parses_of {r : Redirect}
    (hop : ∀ out, lex ⟨.gap, false, out⟩ (r.fd ++ r.op) = ⟨.oper r.op, false, .io r.fd :: out⟩)
    (hlong : ∀ c ∈ r.target.take 1, r.op ++ [c] ∉ longOperators) (ht : Inert r.target) :
    r.Parses := by
  intro out
  rw [text, ← List.append_assoc, lex_append, hop, ← lex_inert ht]
  cases htarget : r.target with
  | nil => exact absurd (htarget ▸ ht.1) (by simp)
  | cons c cs =>
    have hplain : classOf c = .plain := by simpa [htarget] using ht.1
    have hstep : step ⟨.oper r.op, false, .io r.fd :: out⟩ c =
        step ⟨.gap, false, .op r.op :: .io r.fd :: out⟩ c := by
      show inOper r.op (.io r.fd :: out) c = start (.op r.op :: .io r.fd :: out) c
      rw [inOper, if_neg (hlong c (by simp [htarget])), if_neg (by simp [hplain])]
    show lex (step _ c) cs = lex (step _ c) cs
    rw [hstep]

theorem Parses.finish_lex {r : Redirect} (h : r.Parses) (out : List Token) :
    finish (lex ⟨.gap, false, out⟩ r.text) = some (out.reverse ++ r.toks) := by
  rw [h]
  simp [finish, toks, wordOf]

end Redirect

theorem cost_plain (ws : List Text) (w : Text) :
    cost ((ws ++ [w]).map wordOf).reverse = (spaced ws ++ w).length := by
  rw [List.length_append, ← cost_words]
  simp [wordOf, cost, Token.joint, Token.size]

theorem cost_redirect (ws : List Text) (r : Redirect) :
    cost (ws.map wordOf ++ r.toks).reverse = (spaced ws ++ r.text).length := by
  rw [List.length_append, ← cost_words]
  simp [wordOf, Redirect.toks, Redirect.text, cost, Token.joint, Token.size, lag, Nat.add_assoc]

/-- A command of words, with or without a redirection, reads as its words exactly when
each of them is inert. -/
theorem tokens_words_iff (ws : List Text) (w : Text) :
    tokens (spaced ws ++ w) = some ((ws ++ [w]).map wordOf) ↔ ∀ v ∈ ws ++ [w], Inert v := by
  constructor
  · intro h v hv
    exact inert_of_tightWord ((tokens_cost h).2 (cost_plain ws w) _ (List.mem_map_of_mem hv))
  · intro h
    rw [tokens, lex_append, lex_spaced fun v hv => h v (List.mem_append_left _ hv),
      lex_inert (h w (by simp))]
    simp [finish, wordOf]

theorem tokens_redirect_iff (ws : List Text) {r : Redirect} (hr : r.Parses) :
    tokens (spaced ws ++ r.text) = some (ws.map wordOf ++ r.toks) ↔ ∀ v ∈ ws, Inert v := by
  constructor
  · intro h v hv
    exact inert_of_tightWord ((tokens_cost h).2 (cost_redirect ws r) _
      (List.mem_append_left _ (List.mem_map_of_mem hv)))
  · intro h
    rw [tokens, lex_append, lex_spaced h, hr.finish_lex]
    simp

/-! ## A word in double quotes -/

/-- Between double quotes the text reads as itself: it holds nothing that ends the
quotes or is expanded, and no backslash that acts. -/
def quotable : Text → Bool
  | [] => true
  | c :: cs =>
    quotable cs &&
      if classOf c = .backslash then cs.head?.any fun d => !special d && d ≠ '\n'
      else !special c

theorem inDouble_of_not_special {c : Char} (h : special c = false) (w : List Sym)
    (out : List Token) : inDouble w out c = ⟨.double (.lit c :: w), false, out⟩ := by
  unfold special at h
  unfold inDouble
  cases hc : classOf c <;> first | rfl | exact absurd h (by rw [hc]; decide)

theorem classOf_eq_backslash {c : Char} (h : classOf c = .backslash) : c = '\\' := by
  simp only [classOf, ite_eq_iff, reduceCtorEq, and_false, false_or, or_false, and_true] at h
  exact h.2.2.2

theorem classOf_eq_dollar {c : Char} (h : classOf c = .dollar) : c = '$' ∨ c = '\x60' := by
  simp only [classOf, ite_eq_iff, reduceCtorEq, and_false, false_or, or_false, and_true] at h
  exact h.2.2.2.2.2.2

theorem step_backslash {c : Char} (hc : classOf c = .backslash) (w : List Sym)
    (out : List Token) : step ⟨.double w, false, out⟩ c = ⟨.double w, true, out⟩ := by
  show inDouble w out c = _
  rw [inDouble, hc]

/-- A backslash that does not act is read together with the character after it. -/
theorem lex_backslash {c d : Char} (hc : classOf c = .backslash) (hd : special d = false)
    (hnl : d ≠ '\n') (w : List Sym) (out : List Token) (cs : Text) :
    lex ⟨.double w, false, out⟩ (c :: d :: cs) =
      lex ⟨.double (.lit c :: w), false, out⟩ (d :: cs) := by
  have hesc : step ⟨.double w, true, out⟩ d =
      ⟨.double (.lit d :: .lit '\\' :: w), false, out⟩ := by
    simp [step, hnl, escaped, hd]
  have hplain : step ⟨.double (.lit c :: w), false, out⟩ d =
      ⟨.double (.lit d :: .lit c :: w), false, out⟩ := inDouble_of_not_special hd _ out
  show lex (step (step ⟨.double w, false, out⟩ c) d) cs =
    lex (step ⟨.double (.lit c :: w), false, out⟩ d) cs
  rw [step_backslash hc, hesc, hplain, classOf_eq_backslash hc]

theorem lex_quotable {p : Text} (hp : quotable p = true) (w : List Sym) (out : List Token) :
    lex ⟨.double w, false, out⟩ p = ⟨.double ((p.map .lit).reverse ++ w), false, out⟩ := by
  induction p generalizing w with
  | nil => rfl
  | cons c cs ih =>
    rw [quotable, Bool.and_eq_true] at hp
    obtain ⟨hcs, hc⟩ := hp
    have hrest : lex ⟨.double w, false, out⟩ (c :: cs) =
        lex ⟨.double (.lit c :: w), false, out⟩ cs := by
      split at hc
      · rename_i hback
        cases cs with
        | nil => exact absurd hc (by simp)
        | cons d ds =>
          simp only [List.head?_cons, Option.any_some, Bool.and_eq_true, Bool.not_eq_true',
            decide_eq_true_eq] at hc
          exact lex_backslash hback hc.1 hc.2 w out ds
      · have hstep : step ⟨.double w, false, out⟩ c = ⟨.double (.lit c :: w), false, out⟩ :=
          inDouble_of_not_special (by simpa using hc) w out
        show lex (step ⟨.double w, false, out⟩ c) cs = _
        rw [hstep]
    rw [hrest, ih hcs]
    simp

/-- A text that is not quotable ends the quotes or escapes a character, and loses one
character that way, or it ends in a backslash. -/
theorem lex_not_quotable {p : Text} (hp : quotable p = false)
    (hdollar : ∀ c ∈ p, classOf c ≠ .dollar) (w : List Sym) (out : List Token) :
    potential (lex ⟨.double w, false, out⟩ p) + 1 ≤ potential ⟨.double w, false, out⟩ + p.length ∨
      ∃ w', lex ⟨.double w, false, out⟩ p = ⟨.double w', true, out⟩ := by
  induction p generalizing w with
  | nil => exact absurd hp (by decide)
  | cons c cs ih =>
    have hcs : ∀ d ∈ cs, classOf d ≠ .dollar := fun d hd => hdollar d (List.mem_cons_of_mem c hd)
    have hlit : potential ⟨.double (.lit c :: w), false, out⟩ =
        potential ⟨.double w, false, out⟩ + 1 := by simp [potential, Nat.add_assoc]
    by_cases hback : classOf c = .backslash
    · cases cs with
      | nil => exact Or.inr ⟨w, step_backslash hback w out⟩
      | cons d ds =>
        by_cases hd : special d = false ∧ d ≠ '\n'
        · have hrest : quotable (d :: ds) = false := by
            rw [quotable, if_pos hback] at hp
            simpa [hd] using hp
          rw [lex_backslash hback hd.1 hd.2]
          obtain h | h := ih hrest hcs (.lit c :: w)
          · refine Or.inl ?_
            rw [hlit] at h
            rw [List.length_cons]
            omega
          · exact Or.inr h
        · -- Two characters are read and at most one symbol is left of them.
          have htwo : potential (step (step ⟨.double w, false, out⟩ c) d) ≤
              potential ⟨.double w, false, out⟩ + 1 := by
            rw [step_backslash hback]
            by_cases hnl : d = '\n'
            · simp [step, hnl, potential]
            · have hspec : special d = true := by simpa [hnl] using hd
              simp [step, hnl, escaped, hspec, potential, Nat.add_assoc]
          have hle := potential_lex_le (step (step ⟨.double w, false, out⟩ c) d) ds
          refine Or.inl ?_
          show potential (lex (step (step _ c) d) ds) + 1 ≤ _
          rw [List.length_cons, List.length_cons]
          omega
    · by_cases hdouble : classOf c = .double
      · have hstep : step ⟨.double w, false, out⟩ c = ⟨.bare false w, false, out⟩ := by
          show inDouble w out c = _
          rw [inDouble, hdouble]
        have hle := potential_lex_le ⟨.bare false w, false, out⟩ cs
        have hsame : potential ⟨.bare false w, false, out⟩ =
            potential ⟨.double w, false, out⟩ := rfl
        refine Or.inl ?_
        show potential (lex (step _ c) cs) + 1 ≤ _
        rw [hstep, List.length_cons]
        omega
      · have hspec : special c = false := by
          simp [special, hback, hdouble, hdollar c List.mem_cons_self]
        have hrest : quotable cs = false := by
          rw [quotable, if_neg hback] at hp
          simpa [hspec] using hp
        have hstep : step ⟨.double w, false, out⟩ c = ⟨.double (.lit c :: w), false, out⟩ :=
          inDouble_of_not_special hspec w out
        show potential (lex (step _ c) cs) + 1 ≤ _ ∨ ∃ w', lex (step _ c) cs = _
        rw [hstep]
        obtain h | h := ih hrest hcs (.lit c :: w)
        · refine Or.inl ?_
          rw [hlit] at h
          rw [List.length_cons]
          omega
        · exact Or.inr h

theorem lex_single {t : Text} (ht : '\'' ∉ t) (w : List Sym) (out : List Token) :
    finish (lex ⟨.single w, false, out⟩ t) = none := by
  induction t generalizing w with
  | nil => rfl
  | cons c t ih =>
    have hc : c ≠ '\'' := fun he => ht (he ▸ List.mem_cons_self)
    have hstep : step ⟨.single w, false, out⟩ c = ⟨.single (.lit c :: w), false, out⟩ := by
      simp [step, hc]
    show finish (lex (step ⟨.single w, false, out⟩ c) t) = none
    rw [hstep]
    exact ih (fun hm => ht (List.mem_cons_of_mem c hm)) _

/-- A double quote adds nothing, unless it stands between single quotes. -/
theorem potential_quote (st : Lex) :
    potential (step st '"') ≤ potential st ∨
      ∃ w, st = ⟨.single w, false, st.out⟩ := by
  obtain ⟨ctx, esc, out⟩ := st
  cases esc with
  | true =>
    refine Or.inl ?_
    have hstep : step ⟨ctx, true, out⟩ '"' = escaped ctx out '"' := rfl
    rw [hstep]
    cases ctx <;>
      simp [escaped, potential, special, classOf, cost, Token.joint, Token.size, lag] <;> omega
  | false =>
    cases ctx with
    | single w => exact Or.inr ⟨w, rfl⟩
    | gap => exact Or.inl (by simp [step, start, classOf, potential])
    | comment => exact Or.inl (by simp [step, potential])
    | oper o =>
      have hlast : ∀ x ∈ longOperators, x.getLast? ≠ some '"' := by decide
      have hlong : o ++ ['"'] ∉ longOperators := fun hm => hlast _ hm (by simp)
      exact Or.inl (by
        simp [step, inOper, hlong, start, classOf, potential, cost, Token.joint, Token.size, lag])
    | bare clean w => exact Or.inl (by simp [step, inWord, classOf, potential])
    | double w => exact Or.inl (by simp [step, inDouble, classOf, potential])

theorem cost_quoted (out : List Token) (p : Text) (r : Redirect) :
    cost (out.reverse ++ wordOf p :: r.toks).reverse =
      potential ⟨.double [], false, out⟩ + p.length + 1 + r.text.length := by
  simp [potential, wordOf, Redirect.toks, Redirect.text, cost, Token.joint, Token.size, lag,
    Nat.add_assoc]

/-- A text between double quotes, before a redirection, reads as one word that is the
text exactly when it is quotable. -/
theorem finish_quoted_iff {r : Redirect} (hr : r.Parses) (hquot : quotable r.text = true)
    (hsingle : '\'' ∉ r.text) {p : Text} (hp : ∀ c ∈ p, classOf c ≠ .dollar)
    (out : List Token) :
    finish (lex ⟨.double [], false, out⟩ (p ++ '"' :: ' ' :: r.text)) =
        some (out.reverse ++ wordOf p :: r.toks) ↔ quotable p = true := by
  have hrest : quotable (' ' :: r.text) = true := by
    rw [quotable, hquot, if_neg (by decide)]
    decide
  constructor
  · intro h
    by_contra hbad
    rw [lex_append] at h
    obtain hloss | ⟨w, hesc⟩ := lex_not_quotable (by simpa using hbad) hp [] out
    · generalize lex ⟨.double [], false, out⟩ p = st at h hloss
      change finish (lex (step st '"') (' ' :: r.text)) = _ at h
      obtain hle | ⟨w, hst⟩ := potential_quote st
      · -- The closing quote is lost too, and the word does not fit any more.
        have hcost := (finish_cost h).1
        have hlex := potential_lex_le (step st '"') (' ' :: r.text)
        have hfull := cost_quoted out p r
        rw [List.length_cons] at hlex
        omega
      · have hstep : step st '"' = ⟨.single (.lit '"' :: w), false, st.out⟩ := by
          rw [hst]
          rfl
        rw [hstep, lex_single (by simpa using hsingle)] at h
        exact absurd h (by simp)
    · rw [hesc] at h
      have hstep : step ⟨.double w, true, out⟩ '"' = ⟨.double (.lit '"' :: w), false, out⟩ := rfl
      change finish (lex (step _ '"') (' ' :: r.text)) = _ at h
      rw [hstep, lex_quotable hrest] at h
      exact absurd h (by simp [finish])
  · intro h
    rw [lex_append, lex_quotable h, List.append_nil]
    show finish (lex ⟨.gap, false, .word ((p.map Sym.lit).reverse).reverse :: out⟩ r.text) = _
    rw [hr.finish_lex, List.reverse_reverse]
    simp [wordOf]

end Shell
end Posix
end MkyBoot
