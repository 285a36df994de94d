import MkyBoot.Lua.Value

/-!
# `string.find`

The matcher of the Lua library for patterns without captures.  It reads the pattern
while it matches, so a malformed item raises an error only when the matcher comes to
it.  A repeated item is tried with its possible lengths in the order of the library,
and the first attempt that does not fail decides.

The library keeps a pattern as a C string, so that one with special characters ends at its
first `\0`.  Here a `\0` in a pattern is a character as any other: what follows holds of the
library for patterns without one.  A text may have any characters.
-/

namespace MkyBoot
namespace Lua
namespace Pattern

/-- A place in a text: the character before it and the text from it on. -/
structure Pos where
  prev : Char
  rest : Str

def start (text : Str) : Pos := ⟨'\x00', text⟩

/-- `%` followed by a letter.  A capital letter is the complement. -/
def matchClass (c cl : Char) : Bool :=
  let named : Option Bool :=
    match cl.toLower with
    | 'a' => some c.isAlpha
    | 'c' => some (c.toNat < 32 || c.toNat == 127)
    | 'd' => some c.isDigit
    | 'g' => some (32 < c.toNat && c.toNat < 127)
    | 'l' => some c.isLower
    | 'p' => some (32 < c.toNat && c.toNat < 127 && !c.isAlphanum)
    | 's' => some (isSpace c)
    | 'u' => some c.isUpper
    | 'w' => some (isWord c)
    | 'x' => some (isXDigit c)
    | 'z' => some (c == '\x00')
    | _ => none
  match named with
  | some b => if cl.isUpper then !b else b
  | none => cl == c

/-- The elements between the brackets of a set. -/
def matchSet (c : Char) : Str → Bool
  | '%' :: cl :: rest => matchClass c cl || matchSet c rest
  | a :: '-' :: b :: rest => (a ≤ c && c ≤ b) || matchSet c rest
  | a :: rest => a == c || matchSet c rest
  | [] => false

inductive Single where
  | char (c : Char)
  | any
  | named (cl : Char)
  | set (negated : Bool) (elements : Str)

def Single.accepts (x : Single) (c : Char) : Bool :=
  match x with
  | .char d => c == d
  | .any => true
  | .named cl => matchClass c cl
  | .set negated elements => matchSet c elements != negated

/-- The elements of a set up to its closing bracket, which is not the first element. -/
def setEnd : Str → Option (Str × Str)
  | '%' :: c :: ']' :: rest => some (['%', c], rest)
  | '%' :: c :: rest => (setEnd rest).map fun e => ('%' :: c :: e.1, e.2)
  | c :: ']' :: rest => some ([c], rest)
  | c :: rest => (setEnd rest).map fun e => (c :: e.1, e.2)
  | [] => none

/-- The item a pattern begins with, unless it is malformed. -/
def single : Str → Option (Single × Str)
  | [] => none
  | ['%'] => none
  | '%' :: cl :: p => some (.named cl, p)
  | '[' :: '^' :: p => (setEnd p).map fun e => (.set true e.1, e.2)
  | '[' :: p => (setEnd p).map fun e => (.set false e.1, e.2)
  | '.' :: p => some (.any, p)
  | c :: p => some (.char c, p)

/-- The places after none, one and more characters of a class. -/
def reach (x : Single) (prev : Char) : Str → List Pos
  | [] => [⟨prev, []⟩]
  | c :: cs => ⟨prev, c :: cs⟩ :: if x.accepts c then reach x c cs else []

/-- `%b`: from an opening to the closing character. -/
def balance (opening closing : Char) : ℕ → Str → Option Pos
  | _, [] => none
  | depth, c :: cs =>
    if c = closing then
      if depth = 1 then some ⟨c, cs⟩ else balance opening closing (depth - 1) cs
    else balance opening closing (if c = opening then depth + 1 else depth) cs

/-- The first attempt that does not fail. -/
def firstHit : List (Call Bool) → Call Bool
  | [] => .returned false
  | .returned false :: rest => firstHit rest
  | r :: _ => r

/-- One character of a class, and what follows it. -/
def step (x : Single) (k : Pos → Call Bool) (pos : Pos) : Call Bool :=
  match pos.rest with
  | [] => .returned false
  | c :: cs => if x.accepts c then k ⟨c, cs⟩ else .returned false

/-- The pattern matches at a place.  The first argument bounds its items. -/
def matchAt : ℕ → Str → Pos → Call Bool
  | 0, _, _ => .returned false
  | n + 1, p, pos =>
    match p with
    | [] => .returned true
    | ['$'] => .returned (pos.rest == [])
    | '%' :: 'b' :: opening :: closing :: q =>
      match pos.rest with
      | [] => .returned false
      | c :: cs =>
        if c = opening then (balance opening closing 1 cs).elim (.returned false) (matchAt n q)
        else .returned false
    | '%' :: 'b' :: _ => .raised
    | '%' :: 'f' :: q =>
      match q with
      | '[' :: _ =>
        match single q with
        | none => .raised
        | some (x, q) =>
          if !x.accepts pos.prev && x.accepts (pos.rest.headD '\x00') then matchAt n q pos
          else .returned false
      | _ => .raised
    | _ =>
      -- a back reference has no capture to refer to
      if p.head? = some '%' && (p.drop 1).head?.any Char.isDigit then .raised
      else
        match single p with
        | none => .raised
        | some (x, '?' :: q) => firstHit [step x (matchAt n q) pos, matchAt n q pos]
        | some (x, '*' :: q) => firstHit ((reach x pos.prev pos.rest).reverse.map (matchAt n q))
        | some (x, '+' :: q) =>
          step x (fun pos => firstHit ((reach x pos.prev pos.rest).reverse.map (matchAt n q))) pos
        | some (x, '-' :: q) => firstHit ((reach x pos.prev pos.rest).map (matchAt n q))
        | some (x, q) => step x (matchAt n q) pos

/-- `string.find(text, p) ~= nil` -/
def find (text p : Str) : Call Bool :=
  match p with
  | '^' :: q => matchAt (q.length + 1) q (start text)
  | _ => firstHit ((reach .any '\x00' text).map (matchAt (p.length + 1) p))

end Pattern
end Lua
end MkyBoot
