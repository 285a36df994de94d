import MkyBoot.Text

/-!
# Reading JSON

RFC 8259 as a machine that reads a text one character at a time.  Its state holds the
containers that are open, each with what it holds so far, and the token that is being
read.  Since the machine can be stopped anywhere, it also says what a text means that
is put into the middle of another one: `finish_closed_iff` tells from the state before
a closing quote and brace whether they complete an object.
-/

namespace MkyBoot
namespace Json

abbrev Text := List Char

inductive Value where
  | null
  | bool (b : Bool)
  /-- A number by its text. -/
  | num (t : Text)
  | str (s : Text)
  | arr (items : List Value)
  | obj (members : List (Text × Value))

/-- A container that is being read, what it holds the last first. -/
inductive Open where
  | arr (items : List Value)
  | obj (members : List (Text × Value))

/-- A container that waits for a value. -/
inductive Frame where
  | item (items : List Value)
  | member (members : List (Text × Value)) (key : Text)

/-- The parts of a number, by what has been read last. -/
inductive Part where
  | minus
  | zero
  | int
  | point
  | frac
  | e
  | sign
  | exp

inductive Literal where
  | true
  | false
  | null

def Literal.name : Literal → Text
  | .true => "true".toList
  | .false => "false".toList
  | .null => "null".toList

def Literal.value : Literal → Value
  | .true => .bool Bool.true
  | .false => .bool Bool.false
  | .null => .null

/-- Where a string belongs. -/
inductive Place where
  | key (members : List (Text × Value)) (stack : List Frame)
  | value (stack : List Frame)

/-- A part of a string: a byte, or the code of an escape. -/
inductive Piece where
  | byte (c : Char)
  | code (n : ℕ)

inductive Escape where
  | none
  | backslash
  /-- A code with `count` digits to come. -/
  | unicode (code count : ℕ)

inductive State where
  /-- A value is due. -/
  | value (stack : List Frame)
  /-- A container has been opened: its end is due, or what it holds. -/
  | opened (o : Open) (stack : List Frame)
  /-- A value has been read: a comma is due, or the end. -/
  | rest (o : Open) (stack : List Frame)
  | key (members : List (Text × Value)) (stack : List Frame)
  | colon (members : List (Text × Value)) (key : Text) (stack : List Frame)
  /-- The parts of a string, the last first. -/
  | string (p : Place) (read : List Piece) (esc : Escape)
  /-- So many characters of the name have been read. -/
  | literal (l : Literal) (n : ℕ) (stack : List Frame)
  | number (p : Part) (read : Text) (stack : List Frame)
  | done (v : Value)
  | failed

def isBlank (c : Char) : Bool := c ∈ [' ', '\t', '\n', '\r']

/-- A value has been read. -/
def completed (v : Value) : List Frame → State
  | [] => .done v
  | .item vs :: st => .rest (.arr (v :: vs)) st
  | .member ms k :: st => .rest (.obj ((k, v) :: ms)) st

/-- The first character of a value. -/
def begin (st : List Frame) (c : Char) : State :=
  if c = '"' then .string (.value st) [] .none
  else if c = '[' then .opened (.arr []) st
  else if c = '\x7b' then .opened (.obj []) st
  else if c = 't' then .literal .true 1 st
  else if c = 'f' then .literal .false 1 st
  else if c = 'n' then .literal .null 1 st
  else if c = '-' then .number .minus [c] st
  else if c = '0' then .number .zero [c] st
  else if c.isDigit then .number .int [c] st
  else .failed

/-- The end of a container. -/
def close : Open → List Frame → Char → State
  | .arr vs, st, c => if c = ']' then completed (.arr vs.reverse) st else .failed
  | .obj ms, st, c => if c = '\x7d' then completed (.obj ms.reverse) st else .failed

/-- What follows a value. -/
def after : State → Char → State
  | .rest o st, c =>
    if isBlank c then .rest o st
    else if c = ',' then
      match o with
      | .arr vs => .value (.item vs :: st)
      | .obj ms => .key ms st
    else close o st c
  | .done v, c => if isBlank c then .done v else .failed
  | _, _ => .failed

def Part.next (p : Part) (c : Char) : Option Part :=
  match p with
  | .minus => if c = '0' then some .zero else if c.isDigit then some .int else none
  | .zero => if c = '.' then some .point else if c ∈ ['e', 'E'] then some .e else none
  | .int =>
    if c.isDigit then some .int else if c = '.' then some .point
    else if c ∈ ['e', 'E'] then some .e else none
  | .point => if c.isDigit then some .frac else none
  | .frac => if c.isDigit then some .frac else if c ∈ ['e', 'E'] then some .e else none
  | .e => if c ∈ ['+', '-'] then some .sign else if c.isDigit then some .exp else none
  | .sign | .exp => if c.isDigit then some .exp else none

/-- The number can end here. -/
def Part.ends : Part → Bool
  | .zero | .int | .frac | .exp => true
  | _ => false

/-- The end of a string. -/
def quoted (s : Text) : Place → State
  | .key ms st => .colon ms s st
  | .value st => completed (.str s) st

def escapes : List (Char × Char) :=
  [('"', '"'), ('\\', '\\'), ('/', '/'), ('b', '\x08'), ('f', '\x0c'), ('n', '\n'), ('r', '\r'),
    ('t', '\t')]

/-- The bytes of a code point. -/
def utf8 (n : ℕ) : Text :=
  if n < 0x80 then [Char.ofNat n]
  else if n < 0x800 then [Char.ofNat (0xc0 + n / 0x40), Char.ofNat (0x80 + n % 0x40)]
  else if n < 0x10000 then
    [Char.ofNat (0xe0 + n / 0x1000), Char.ofNat (0x80 + n / 0x40 % 0x40),
      Char.ofNat (0x80 + n % 0x40)]
  else
    [Char.ofNat (0xf0 + n / 0x40000), Char.ofNat (0x80 + n / 0x1000 % 0x40),
      Char.ofNat (0x80 + n / 0x40 % 0x40), Char.ofNat (0x80 + n % 0x40)]

def isHigh (n : ℕ) : Bool := 0xd800 ≤ n && n < 0xdc00

def isLow (n : ℕ) : Bool := 0xdc00 ≤ n && n < 0xe000

/-- The bytes of a code.  Half of a surrogate pair is replaced by U+FFFD. -/
def codeText (n : ℕ) : Text := utf8 (if isHigh n || isLow n then 0xfffd else n)

/-- The code point of a surrogate pair. -/
def pairCode (high low : ℕ) : ℕ := 0x10000 + (high - 0xd800) * 0x400 + (low - 0xdc00)

/-- The text of a string.  Two escapes that are a surrogate pair stand for one character. -/
def textOf : List Piece → Text
  | [] => []
  | .byte c :: ps => c :: textOf ps
  | .code n :: ps =>
    match ps with
    | .code m :: rest =>
      if isHigh n && isLow m then utf8 (pairCode n m) ++ textOf rest
      else codeText n ++ textOf (.code m :: rest)
    | ps => codeText n ++ textOf ps

/-- A surrogate pair, and one half without the other. -/
example : textOf [.code 0xd83d, .code 0xde00, .code 0xd83d] =
    ['\xf0', '\x9f', '\x98', '\x80', '\xef', '\xbf', '\xbd'] := by
  decide

/-- A character of a string.  Control characters have to be escaped. -/
def inString (p : Place) (read : List Piece) (esc : Escape) (c : Char) : State :=
  match esc with
  | .none =>
    if c = '"' then quoted (textOf read.reverse) p
    else if c = '\\' then .string p read .backslash
    else if c.toNat < 0x20 then .failed
    else .string p (.byte c :: read) .none
  | .backslash =>
    if c = 'u' then .string p read (.unicode 0 4)
    else match escapes.lookup c with
      | some d => .string p (.byte d :: read) .none
      | none => .failed
  | .unicode n count =>
    match hexValue c with
    | none => .failed
    | some d =>
      if count ≤ 1 then .string p (.code (16 * n + d) :: read) .none
      else .string p read (.unicode (16 * n + d) (count - 1))

def inLiteral (l : Literal) (n : ℕ) (st : List Frame) (c : Char) : State :=
  match l.name.drop n with
  | [] => .failed
  | d :: ds =>
    if c = d then if ds.isEmpty then completed l.value st else .literal l (n + 1) st
    else .failed

/-- A number ends where it cannot go on. -/
def inNumber (p : Part) (read : Text) (st : List Frame) (c : Char) : State :=
  match p.next c with
  | some p => .number p (c :: read) st
  | none => if p.ends then after (completed (.num read.reverse) st) c else .failed

def step (s : State) (c : Char) : State :=
  match s with
  | .value st => if isBlank c then s else begin st c
  | .opened (.arr vs) st =>
    if isBlank c then s else if c = ']' then close (.arr vs) st c else begin (.item vs :: st) c
  | .opened (.obj ms) st =>
    if isBlank c then s else if c = '"' then .string (.key ms st) [] .none else close (.obj ms) st c
  | .rest _ _ | .done _ => after s c
  | .key ms st =>
    if isBlank c then s else if c = '"' then .string (.key ms st) [] .none else .failed
  | .colon ms k st =>
    if isBlank c then s else if c = ':' then .value (.member ms k :: st) else .failed
  | .string p read esc => inString p read esc c
  | .literal l n st => inLiteral l n st c
  | .number p read st => inNumber p read st c
  | .failed => .failed

def run (s : State) (t : Text) : State := t.foldl step s

/-- The value that has been read at the end of a text. -/
def finish : State → Option Value
  | .done v => some v
  | .number p read [] => if p.ends then some (.num read.reverse) else none
  | _ => none

def read (t : Text) : Option Value := finish (run (.value []) t)

/-- The value of a member, the last one where there are several. -/
def Value.last? (k : Text) : Value → Option Value
  | .obj members => members.reverse.lookup k
  | _ => none

def Value.isObj : Value → Bool
  | .obj _ => true
  | _ => false

example : (read "\x7b\"a\" : [1, -2.5e3], \"\\u0061\":null\x7d".toList).bind
    (Value.last? "a".toList) = some .null := by
  rfl

theorem run_append (s : State) (t u : Text) : run s (t ++ u) = run (run s t) u :=
  List.foldl_append

/-! ## Strings -/

/-- The character stands for itself in a string. -/
def Plain (c : Char) : Prop := c ≠ '"' ∧ c ≠ '\\' ∧ 0x20 ≤ c.toNat

instance (c : Char) : Decidable (Plain c) := inferInstanceAs (Decidable (_ ∧ _ ∧ _))

theorem step_plain {c : Char} (h : Plain c) (p : Place) (read : List Piece) :
    step (.string p read .none) c = .string p (.byte c :: read) .none := by
  obtain ⟨hquote, hslash, hctrl⟩ := h
  show inString p read .none c = _
  rw [inString, if_neg hquote, if_neg hslash, if_neg (Nat.not_lt.mpr hctrl)]

theorem run_plain {t : Text} (h : ∀ c ∈ t, Plain c) (p : Place) (read : List Piece) :
    run (.string p read .none) t = .string p ((t.map .byte).reverse ++ read) .none := by
  induction t generalizing read with
  | nil => rfl
  | cons c t ih =>
    show run (step _ c) t = _
    rw [step_plain (h c List.mem_cons_self), ih fun d hd => h d (List.mem_cons_of_mem c hd),
      List.map_cons, List.reverse_cons, List.append_assoc]
    rfl

/-! ## A closing quote and brace -/

theorem after_completed_quote (v : Value) (st : List Frame) :
    after (completed v st) '"' = .failed := by
  cases st with
  | nil => rfl
  | cons f st => cases f <;> rfl

/-- A double quote ends a string, is part of one or begins one, or is out of place. -/
theorem step_quote (s : State) :
    (∃ p read, s = .string p read .none ∧ step s '"' = quoted (textOf read.reverse) p) ∨
      (∃ p read, step s '"' = .string p read .none) ∨ step s '"' = .failed := by
  cases s with
  | value st => exact Or.inr (Or.inl ⟨.value st, [], rfl⟩)
  | opened o st =>
    cases o with
    | arr vs => exact Or.inr (Or.inl ⟨.value (.item vs :: st), [], rfl⟩)
    | obj ms => exact Or.inr (Or.inl ⟨.key ms st, [], rfl⟩)
  | rest o st => cases o <;> exact Or.inr (Or.inr rfl)
  | key ms st => exact Or.inr (Or.inl ⟨.key ms st, [], rfl⟩)
  | colon ms k st => exact Or.inr (Or.inr rfl)
  | string p read esc =>
    cases esc with
    | none => exact Or.inl ⟨p, read, rfl, rfl⟩
    | backslash => exact Or.inr (Or.inl ⟨p, .byte '"' :: read, rfl⟩)
    | unicode n count => exact Or.inr (Or.inr rfl)
  | literal l n st =>
    refine Or.inr (Or.inr ?_)
    have hname : '"' ∉ l.name := by cases l <;> decide
    show inLiteral l n st '"' = _
    unfold inLiteral
    cases hdrop : l.name.drop n with
    | nil => rfl
    | cons d ds =>
      have hd : d ∈ l.name := List.mem_of_mem_drop (hdrop ▸ List.mem_cons_self)
      have hne : '"' ≠ d := fun e => hname (e ▸ hd)
      exact if_neg hne
  | number p read st =>
    refine Or.inr (Or.inr ?_)
    have hnext : p.next '"' = none := by cases p <;> rfl
    show inNumber p read st '"' = _
    rw [inNumber, hnext]
    dsimp only
    rw [after_completed_quote]
    exact ite_self _
  | done v | failed => exact Or.inr (Or.inr rfl)

/-- They complete an object exactly when a string is being read that is the value of one
of its members. -/
theorem finish_closed_iff (s : State) (v : Value) :
    finish (run s "\"\x7d".toList) = some v ↔ ∃ ms k read,
      s = .string (.value [.member ms k]) read .none ∧
        v = .obj ((k, .str (textOf read.reverse)) :: ms).reverse := by
  show finish (step (step s '"') '\x7d') = some v ↔ _
  constructor
  · intro h
    obtain ⟨p, read, rfl, hstep⟩ | ⟨p, read, hstep⟩ | hstep := step_quote s
    · rw [hstep] at h
      cases p with
      | key ms st => exact absurd h (by simp [quoted, step, isBlank, finish])
      | value st =>
        cases st with
        | nil => exact absurd h (by simp [quoted, completed, step, after, isBlank, finish])
        | cons f st =>
          cases f with
          | item vs =>
            exact absurd h (by simp [quoted, completed, step, after, close, isBlank, finish])
          | member ms k =>
            cases st with
            | nil => exact ⟨ms, k, read, rfl, (Option.some.inj h).symm⟩
            | cons f st =>
              cases f <;> exact absurd h (by
                simp [quoted, completed, step, after, close, isBlank, finish])
    · rw [hstep, step_plain (by decide)] at h
      exact absurd h (by simp [finish])
    · rw [hstep] at h
      exact absurd h (by simp [step, finish])
  · intro h
    obtain ⟨ms, k, read, rfl, rfl⟩ := h
    rfl

end Json
end MkyBoot
