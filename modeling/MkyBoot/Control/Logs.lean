import MkyBoot.Lua.Search
import MkyBoot.Machine.Run

/-!
# The log and the page that shows it

`log.write` appends a line to the log file, and `api=logs` answers with lines of that file.
The loop of the handler stops after a hundred of them, counted from the beginning of the file.
`shown_run` says what the page shows after any run of the server: the first hundred lines that
were ever logged.  Its list grows at the end until it is full and never changes after that.
-/

namespace MkyBoot
namespace Control
namespace Logs

open Lua Machine

/-! ## The file -/

structure Entry where
  ts : Str
  level : Str
  subsystem : Str
  message : Str

def Entry.text (e : Entry) : Str :=
  e.ts ++ " [".toList ++ e.level ++ "] [".toList ++ e.subsystem ++ "] ".toList ++
    e.message ++ ['\n']

/-- `log.write`, by whether the file can be opened.  Without a file it is created. -/
def write (file : Option Str) (w : Entry × Bool) : Option Str :=
  if w.2 then some (file.getD [] ++ w.1.text) else file

/-! ## The handler -/

/-- The pattern `[^\n]+` -/
def lineAt (s : Str) : Option (Str × ℕ) :=
  let line := s.takeWhile (· ≠ '\n')
  if line = [] then none else some (line, line.length)

def lines (s : Str) : List Str := gmatch lineAt 0 s

/-- The loop over the matches, which breaks when it has counted to a hundred. -/
def collect (count : ℕ) : List Str → List Str
  | [] => []
  | line :: rest => if 100 ≤ count + 1 then [line] else line :: collect (count + 1) rest

/-- `api=logs` -/
def shown : Option Str → List Str
  | none => []
  | some text => collect 0 (lines text)

theorem collect_eq_take {count : ℕ} (h : count < 100) (ls : List Str) :
    collect count ls = ls.take (100 - count) := by
  induction ls generalizing count with
  | nil => rw [collect, List.take_nil]
  | cons line rest ih =>
    rw [collect]
    split
    · have hcount : 100 - count = 0 + 1 := by omega
      rw [hcount, List.take_succ_cons, List.take_zero]
    · have hcount : 100 - count = 100 - (count + 1) + 1 := by omega
      rw [ih (by omega), hcount, List.take_succ_cons]

/-! ## The lines of a text -/

theorem lines_newline (s : Str) : lines ('\n' :: s) = lines s := rfl

/-- A line and the newline after it. -/
theorem lines_line {line : Str} (hne : line ≠ []) (hline : '\n' ∉ line) (s : Str) :
    lines (line ++ '\n' :: s) = line :: lines s := by
  have hall : ∀ c ∈ line, decide (c ≠ '\n') = true := by
    intro c hc
    exact decide_eq_true fun h => hline (h ▸ hc)
  have htake : (line ++ '\n' :: s).takeWhile (· ≠ '\n') = line := by
    rw [List.takeWhile_append_of_pos hall]
    simp
  have hat : lineAt (line ++ '\n' :: s) = some (line, line.length) := by
    rw [lineAt, htake]
    exact if_neg hne
  have hlen : (line ++ '\n' :: s).length - ('\n' :: s).length = line.length := by
    rw [List.length_append, Nat.add_sub_cancel]
  have hhit := gmatch_hit (m := lineAt) (a := line) (List.suffix_append line ('\n' :: s))
    (by rw [List.length_append]; have := List.length_pos_of_ne_nil hne; omega)
    (by rw [hlen]; exact hat)
  exact hhit

/-- A text of whole lines. -/
inductive Whole : Str → Prop where
  | nil : Whole []
  | line (line : Str) {rest : Str} (hline : '\n' ∉ line) (hrest : Whole rest) :
      Whole (line ++ '\n' :: rest)

theorem Whole.cons {s : Str} (h : Whole s) (hne : s ≠ []) (c : Char) : Whole (c :: s) := by
  cases h with
  | nil => exact absurd rfl hne
  | line line hline hrest =>
    by_cases hc : c = '\n'
    · rw [hc]
      exact .line [] List.not_mem_nil (.line line hline hrest)
    · refine .line (c :: line) (fun hmem => ?_) hrest
      rcases List.mem_cons.mp hmem with heq | hmem
      · exact hc heq.symm
      · exact hline hmem

theorem whole_append_newline (s : Str) : Whole (s ++ ['\n']) := by
  induction s with
  | nil => exact .line [] List.not_mem_nil .nil
  | cons c s ih => exact ih.cons (by simp) c

/-- What is appended to whole lines adds its own lines. -/
theorem Whole.lines_append {s : Str} (h : Whole s) (t : Str) :
    lines (s ++ t) = lines s ++ lines t := by
  induction h with
  | nil => rfl
  | line line hline hrest ih =>
    rw [List.append_assoc, List.cons_append]
    by_cases hne : line = []
    · rw [hne, List.nil_append, List.nil_append, lines_newline, lines_newline, ih]
    · rw [lines_line hne hline, lines_line hne hline, ih, List.cons_append]

theorem Whole.append {s t : Str} (hs : Whole s) (ht : Whole t) : Whole (s ++ t) := by
  induction hs with
  | nil => exact ht
  | line line hline hrest ih =>
    rw [List.append_assoc, List.cons_append]
    exact .line line hline ih

/-! ## Runs -/

/-- The lines of the entries that got to the file. -/
def logged (ws : List (Entry × Bool)) : List Str :=
  (ws.filter (·.2)).flatMap fun w => lines w.1.text

/-- A file that is not there has no lines. -/
def contents (file : Option Str) : Str := file.getD []

theorem shown_eq (file : Option Str) : shown file = (lines (contents file)).take 100 := by
  cases file with
  | none => rfl
  | some text => exact collect_eq_take (by decide) (lines text)

/-- Every entry adds whole lines at the end of the file. -/
theorem lines_run (file : Option Str) (hfile : Whole (contents file)) (ws : List (Entry × Bool)) :
    lines (contents (run write file ws)) = lines (contents file) ++ logged ws := by
  induction ws generalizing file with
  | nil => exact (List.append_nil _).symm
  | cons w ws ih =>
    obtain ⟨e, opens⟩ := w
    rw [run_cons]
    cases opens with
    | false => exact ih file hfile
    | true =>
      have hentry : Whole e.text := whole_append_newline _
      have hwrite : contents (write file (e, true)) = contents file ++ e.text := rfl
      have hrest := ih (write file (e, true)) (by rw [hwrite]; exact hfile.append hentry)
      rw [hrest, hwrite, hfile.lines_append, List.append_assoc]
      rfl

/-- Whatever is logged, the page shows the first hundred lines that were.  What it shows is
continued by what it shows later, and once it shows a hundred lines it shows the same for good. -/
theorem shown_run (file : Option Str) (hfile : Whole (contents file))
    (before after : List (Entry × Bool)) :
    shown (run write file before) = (lines (contents file) ++ logged before).take 100 ∧
      shown (run write file before) <+: shown (run write file (before ++ after)) ∧
      ((shown (run write file before)).length = 100 →
        shown (run write file (before ++ after)) = shown (run write file before)) := by
  have hlogged : logged (before ++ after) = logged before ++ logged after := by
    rw [logged, List.filter_append, List.flatMap_append]
    rfl
  have hbefore : shown (run write file before) =
      (lines (contents file) ++ logged before).take 100 := by
    rw [shown_eq, lines_run file hfile]
  have hafter : shown (run write file (before ++ after)) =
      (lines (contents file) ++ logged before ++ logged after).take 100 := by
    rw [shown_eq, lines_run file hfile, hlogged, List.append_assoc]
  refine ⟨hbefore, ?_, fun hfull => ?_⟩
  · rw [hbefore, hafter]
    exact List.IsPrefix.take (List.prefix_append _ _) 100
  · rw [hbefore, List.length_take] at hfull
    rw [hbefore, hafter, List.take_append_of_le_length (by omega)]

/-! A server without a log, whose hundred and first line is not shown. -/

def refreshed : Entry × Bool :=
  (⟨"08:00".toList, "INFO".toList, "STATUS".toList, "ok".toList⟩, true)

def failed : Entry × Bool := (⟨"09:00".toList, "ERROR".toList, "ADMIN".toList, "no".toList⟩, true)

theorem last_line_unseen : shown (run write none (List.replicate 100 refreshed ++ [failed])) =
    shown (run write none (List.replicate 100 refreshed)) := by
  have h := shown_run none .nil (List.replicate 100 refreshed) [failed]
  refine h.2.2 ?_
  rw [h.1]
  decide +kernel

end Logs
end Control
end MkyBoot
