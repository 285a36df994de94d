import MkyBoot.Text

/-!
# Paths

The part of Go's `path/filepath` that works on absolute paths, for both families of
systems.  A path is split at its separators; `clean` goes through the elements with a
stack, on which `..` takes the last name off.  `descend` is the same walk from some
directory that fails where it would leave the directory.  Where it does not fail,
`join_eq` says that the joined path is the directory's path with the names of the walk
behind it, and `names_of_same` that the names can be read back from such a path, up to
the case of letters on systems that do not tell it.
-/

namespace MkyBoot
namespace Go
namespace Filepath

abbrev Str := List Char

inductive OS where
  | unix
  | windows
  deriving DecidableEq

/-- `os.PathSeparator` -/
def OS.sep : OS → Char
  | .unix => '/'
  | .windows => '\\'

/-- `os.IsPathSeparator` -/
def OS.isSep : OS → Char → Bool
  | .unix, c => c == '/'
  | .windows, c => c == '/' || c == '\\'

theorem OS.isSep_sep (os : OS) : os.isSep os.sep = true := by
  cases os with
  | unix => rfl
  | windows => rfl

/-- A system and `unicode.ToLower`, which leaves separators and makes none. -/
structure Sys where
  os : OS
  toLower : Char → Char
  isSep_toLower : ∀ c, os.isSep (toLower c) = os.isSep c

/-! ## Elements -/

section Elements

variable (os : OS)

def elements (path : Str) : List Str := path.splitOnP os.isSep

/-- An element that names something in a directory. -/
def IsName (e : Str) : Prop :=
  e ≠ [] ∧ e ≠ ".".toList ∧ e ≠ "..".toList ∧ ∀ c ∈ e, os.isSep c = false

instance (e : Str) : Decidable (IsName os e) := inferInstanceAs (Decidable (_ ∧ _ ∧ _ ∧ _))

/-- Names with a separator before each. -/
def render (names : List Str) : Str := names.flatMap (os.sep :: ·)

variable {os}

theorem render_cons (e : Str) (names : List Str) :
    render os (e :: names) = os.sep :: (e ++ render os names) := rfl

theorem render_append (xs ys : List Str) : render os (xs ++ ys) = render os xs ++ render os ys :=
  List.flatMap_append

theorem elements_append_render {e : Str} (he : ∀ c ∈ e, os.isSep c = false) {names : List Str}
    (h : ∀ n ∈ names, IsName os n) : elements os (e ++ render os names) = e :: names := by
  induction names generalizing e with
  | nil =>
    rw [render, List.flatMap_nil, List.append_nil]
    exact List.splitOnP_eq_singleton he
  | cons n names ih =>
    have hn := (h n List.mem_cons_self).2.2.2
    have hsplit : elements os (e ++ os.sep :: (n ++ render os names)) =
        e :: elements os (n ++ render os names) :=
      List.splitOnP_append_cons_of_forall_mem he os.sep os.isSep_sep _
    rw [render_cons, hsplit, ih hn fun m hm => h m (List.mem_cons_of_mem n hm)]

theorem elements_render {names : List Str} (h : ∀ n ∈ names, IsName os n) :
    elements os (render os names) = [] :: names := by
  have hnil : ∀ c ∈ ([] : Str), os.isSep c = false := fun c hc => absurd hc List.not_mem_nil
  exact elements_append_render hnil h

theorem elements_cons (c : Char) (path : Str) :
    elements os (c :: path) =
      if os.isSep c then [] :: elements os path
      else (elements os path).modifyHead (List.cons c) :=
  List.splitOnP_cons_eq_if_modifyHead c path

theorem elements_ne_nil (os : OS) (path : Str) : elements os path ≠ [] :=
  List.splitOnP_ne_nil _ _

/-- No element has a separator. -/
theorem isSep_of_mem_elements {path e : Str} (he : e ∈ elements os path) :
    ∀ c ∈ e, os.isSep c = false := by
  induction path generalizing e with
  | nil =>
    have hnil : e = [] := List.mem_singleton.mp he
    rw [hnil]
    exact fun c hc => absurd hc List.not_mem_nil
  | cons d path ih =>
    rw [elements_cons] at he
    by_cases hd : os.isSep d = true
    · rw [if_pos hd] at he
      rcases List.mem_cons.mp he with hnil | hrest
      · rw [hnil]
        exact fun c hc => absurd hc List.not_mem_nil
      · exact ih hrest
    · rw [if_neg hd] at he
      obtain ⟨first, rest, hpath⟩ := List.exists_cons_of_ne_nil (elements_ne_nil os path)
      rw [hpath, List.modifyHead_cons] at he
      rcases List.mem_cons.mp he with hfirst | hrest
      · have hmem : first ∈ elements os path := hpath ▸ List.mem_cons_self
        rw [hfirst]
        intro c hc
        rcases List.mem_cons.mp hc with rfl | hc
        · exact Bool.eq_false_iff.mpr hd
        · exact ih hmem c hc
      · exact ih (hpath ▸ List.mem_cons_of_mem first hrest)

/-- What is written behind a path without a separator goes to its last element. -/
theorem elements_append {suffix : Str} (h : ∀ c ∈ suffix, os.isSep c = false) (path : Str) :
    ∃ init last, elements os (path ++ suffix) = init ++ [last ++ suffix] := by
  obtain ⟨init, last, -, happend⟩ := splitOnP_append h path
  exact ⟨init, last, happend⟩

/-- Letters can be folded before or after the split. -/
theorem elements_map {f : Char → Char} (hf : ∀ c, os.isSep (f c) = os.isSep c) (path : Str) :
    elements os (path.map f) = (elements os path).map (List.map f) := by
  induction path with
  | nil => rfl
  | cons c path ih =>
    rw [List.map_cons, elements_cons, elements_cons, hf, ih]
    by_cases hc : os.isSep c = true
    · rw [if_pos hc, if_pos hc]
      rfl
    · rw [if_neg hc, if_neg hc]
      obtain ⟨first, rest, hpath⟩ := List.exists_cons_of_ne_nil (elements_ne_nil os path)
      rw [hpath]
      rfl

end Elements

/-! ## Cleaning -/

section Clean

variable (os : OS)

/-- One element of a path, on the names so far, the last one first. -/
def cleanStep (out : List Str) (e : Str) : List Str :=
  if e = [] ∨ e = ".".toList then out
  else if e = "..".toList then out.tail
  else e :: out

/-- `Clean` of a path that starts with a separator -/
def clean (path : Str) : Str :=
  match ((elements os path).foldl cleanStep []).reverse with
  | [] => [os.sep]
  | e :: names => render os (e :: names)

/-- An absolute path as `Abs` returns it: a volume name and clean elements. -/
structure Abs where
  volume : Str
  names : List Str
  isName : ∀ e ∈ names, IsName os e

def Abs.text (p : Abs os) : Str :=
  p.volume ++ if p.names = [] then [os.sep] else render os p.names

/-- `Join` of an absolute path and two elements -/
def join (p : Abs os) (dir path : Str) : Str :=
  p.volume ++ clean os (render os p.names ++ os.sep :: (dir ++ os.sep :: path))

/-- One element of a walk that stays in a directory. -/
def descendStep (out : List Str) (e : Str) : Option (List Str) :=
  if e = [] ∨ e = ".".toList then some out
  else if e = "..".toList then out.tail?
  else some (e :: out)

/-- The names that a path leads through below a directory, `none` where it leaves it. -/
def descend (path : Str) : Option (List Str) :=
  ((elements os path).foldlM descendStep []).map List.reverse

variable {os}

theorem IsName.cleanStep_eq {e : Str} (h : IsName os e) (out : List Str) :
    cleanStep out e = e :: out := by
  have hskip : ¬ (e = [] ∨ e = ".".toList) := fun hor => hor.elim h.1 h.2.1
  rw [cleanStep, if_neg hskip, if_neg h.2.2.1]

theorem foldl_cleanStep_names {names : List Str} (h : ∀ e ∈ names, IsName os e)
    (out : List Str) : names.foldl cleanStep out = names.reverse ++ out := by
  induction names generalizing out with
  | nil => rfl
  | cons e names ih =>
    rw [List.foldl_cons, (h e List.mem_cons_self).cleanStep_eq,
      ih (fun m hm => h m (List.mem_cons_of_mem e hm)), List.reverse_cons, List.append_assoc]
    rfl

theorem descendStep_cases {out out' : List Str} {e : Str} (h : descendStep out e = some out') :
    ((e = [] ∨ e = ".".toList) ∧ out' = out) ∨ (e = "..".toList ∧ ∃ last, out = last :: out') ∨
      (e ≠ [] ∧ e ≠ ".".toList ∧ e ≠ "..".toList ∧ out' = e :: out) := by
  rw [descendStep] at h
  by_cases hskip : e = [] ∨ e = ".".toList
  · rw [if_pos hskip] at h
    exact Or.inl ⟨hskip, (Option.some.inj h).symm⟩
  · rw [if_neg hskip] at h
    by_cases hup : e = "..".toList
    · rw [if_pos hup] at h
      cases out with
      | nil => cases h
      | cons last out => exact Or.inr (Or.inl ⟨hup, last, congrArg _ (Option.some.inj h)⟩)
    · rw [if_neg hup] at h
      rw [not_or] at hskip
      exact Or.inr (Or.inr ⟨hskip.1, hskip.2, hup, (Option.some.inj h).symm⟩)

/-- The walk in a directory is the walk of `clean`, wherever the directory is. -/
theorem cleanStep_of_descendStep {out out' : List Str} {e : Str}
    (h : descendStep out e = some out') (base : List Str) :
    cleanStep (out ++ base) e = out' ++ base := by
  rw [cleanStep]
  rcases descendStep_cases h with ⟨hskip, hout⟩ | ⟨hup, last, hout⟩ | ⟨hne, hdot, hup, hout⟩
  · rw [if_pos hskip, hout]
  · rw [if_neg (by rw [hup]; decide), if_pos hup, hout]
    rfl
  · rw [if_neg (not_or.mpr ⟨hne, hdot⟩), if_neg hup, hout]
    rfl

theorem foldl_cleanStep_of_descend {es out out' : List Str}
    (h : es.foldlM descendStep out = some out') (base : List Str) :
    es.foldl cleanStep (out ++ base) = out' ++ base := by
  induction es generalizing out with
  | nil =>
    rw [← Option.some.inj h]
    rfl
  | cons e es ih =>
    rw [List.foldlM_cons] at h
    obtain ⟨mid, hstep, hrest⟩ := Option.bind_eq_some_iff.mp h
    rw [List.foldl_cons, cleanStep_of_descendStep hstep, ih hrest]

theorem descendStep_isName {out out' : List Str} {e : Str} (h : descendStep out e = some out')
    (hsep : ∀ c ∈ e, os.isSep c = false) (hout : ∀ n ∈ out, IsName os n) :
    ∀ n ∈ out', IsName os n := by
  intro n hn
  rcases descendStep_cases h with ⟨_, heq⟩ | ⟨_, last, heq⟩ | ⟨hne, hdot, hup, heq⟩
  · exact hout n (heq ▸ hn)
  · exact hout n (heq ▸ List.mem_cons_of_mem last hn)
  · rw [heq] at hn
    rcases List.mem_cons.mp hn with rfl | hn
    · exact ⟨hne, hdot, hup, hsep⟩
    · exact hout n hn

theorem foldlM_descendStep_isName {es out out' : List Str}
    (h : es.foldlM descendStep out = some out') (hes : ∀ e ∈ es, ∀ c ∈ e, os.isSep c = false)
    (hout : ∀ n ∈ out, IsName os n) : ∀ n ∈ out', IsName os n := by
  induction es generalizing out with
  | nil =>
    rw [← Option.some.inj h]
    exact hout
  | cons e es ih =>
    rw [List.foldlM_cons] at h
    obtain ⟨mid, hstep, hrest⟩ := Option.bind_eq_some_iff.mp h
    have hmid := descendStep_isName hstep (hes e List.mem_cons_self) hout
    exact ih hrest (fun m hm => hes m (List.mem_cons_of_mem e hm)) hmid

/-- A walk leads through names. -/
theorem descend_isName {path : Str} {q : List Str} (h : descend os path = some q) :
    ∀ n ∈ q, IsName os n := by
  obtain ⟨out, hout, hq⟩ := Option.map_eq_some_iff.mp h
  have hnil : ∀ n ∈ ([] : List Str), IsName os n := fun n hn => absurd hn List.not_mem_nil
  have hnames := foldlM_descendStep_isName hout (fun e he => isSep_of_mem_elements he) hnil
  intro n hn
  rw [← hq] at hn
  exact hnames n (List.mem_reverse.mp hn)

/-- A path with a suffix that is no `.` or `..` leads to a name with the suffix. -/
theorem descend_ne_nil {suffix : Str} (hlen : 2 < suffix.length)
    (hsep : ∀ c ∈ suffix, os.isSep c = false) {path : Str} {q : List Str}
    (h : descend os (path ++ suffix) = some q) : q ≠ [] := by
  obtain ⟨out, hout, hq⟩ := Option.map_eq_some_iff.mp h
  obtain ⟨init, last, hinit⟩ := elements_append hsep path
  rw [hinit, List.foldlM_append] at hout
  obtain ⟨mid, _, hlast⟩ := Option.bind_eq_some_iff.mp hout
  obtain ⟨out', hstep, hout'⟩ := Option.bind_eq_some_iff.mp hlast
  have hlong : 2 < (last ++ suffix).length := by
    rw [List.length_append]
    omega
  rcases descendStep_cases hstep with ⟨hskip | hskip, _⟩ | ⟨hup, _⟩ | ⟨_, _, _, hpush⟩
  · rw [hskip] at hlong
    exact absurd hlong (by decide)
  · rw [hskip] at hlong
    exact absurd hlong (by decide)
  · rw [hup] at hlong
    exact absurd hlong (by decide)
  · have hne : out ≠ [] := by
      rw [← Option.some.inj hout', hpush]
      exact List.cons_ne_nil _ _
    rw [← hq]
    exact fun hnil => hne (List.reverse_eq_nil_iff.mp hnil)

/-- A joined path that does not leave the directory. -/
theorem join_eq (p : Abs os) {dir path : Str} (hdir : IsName os dir) {q : List Str}
    (h : descend os path = some q) :
    join os p dir path = p.volume ++ render os (p.names ++ dir :: q) := by
  obtain ⟨out, hout, hq⟩ := Option.map_eq_some_iff.mp h
  have hdirs : ∀ e ∈ p.names ++ [dir], IsName os e := by
    intro e he
    rcases List.mem_append.mp he with he | he
    · exact p.isName e he
    · exact List.mem_singleton.mp he ▸ hdir
  have hsplit : elements os (render os p.names ++ os.sep :: (dir ++ os.sep :: path)) =
      [] :: (p.names ++ [dir]) ++ elements os path := by
    have htext : render os p.names ++ os.sep :: (dir ++ os.sep :: path) =
        render os (p.names ++ [dir]) ++ os.sep :: path := by
      rw [render_append, render_cons, List.append_assoc, List.cons_append, List.append_assoc]
      rfl
    rw [htext, ← elements_render hdirs]
    exact List.splitOnP_append_cons _ path os.isSep_sep
  have hstack : (elements os (render os p.names ++ os.sep :: (dir ++ os.sep :: path))).foldl
      cleanStep [] = (p.names ++ dir :: q).reverse := by
    have hfirst : cleanStep [] [] = [] := rfl
    have hwalk := foldl_cleanStep_of_descend hout (p.names ++ [dir]).reverse
    rw [List.nil_append] at hwalk
    rw [hsplit, List.cons_append, List.foldl_cons, hfirst, List.foldl_append,
      foldl_cleanStep_names hdirs, List.append_nil, hwalk, ← hq]
    simp
  rw [join, clean, hstack, List.reverse_reverse]
  cases hnames : p.names ++ dir :: q with
  | nil => exact absurd hnames (by simp)
  | cons e names => rfl

end Clean

/-! ## Files -/

section Files

variable (sys : Sys)

/-- What a system keeps of the case of a letter in a file name. -/
def Sys.fold (c : Char) : Char :=
  match sys.os with
  | .unix => c
  | .windows => sys.toLower c

/-- The two paths name the same file. -/
def SameFile (p q : Str) : Prop := p.map sys.fold = q.map sys.fold

instance (p q : Str) : Decidable (SameFile sys p q) := inferInstanceAs (Decidable (_ = _))

variable {sys}

theorem Sys.isSep_fold (c : Char) : sys.os.isSep (sys.fold c) = sys.os.isSep c := by
  rw [Sys.fold]
  split
  · rfl
  · exact sys.isSep_toLower c

/-- The names of a file can be read from its path. -/
theorem names_of_same {volume : Str} {xs ys : List Str} (hx : ∀ e ∈ xs, IsName sys.os e)
    (hy : ∀ e ∈ ys, IsName sys.os e)
    (h : SameFile sys (volume ++ render sys.os xs) (volume ++ render sys.os ys)) :
    xs.map (List.map sys.fold) = ys.map (List.map sys.fold) := by
  rw [SameFile, List.map_append, List.map_append] at h
  have helements := congrArg (elements sys.os) (List.append_cancel_left h)
  rw [elements_map Sys.isSep_fold, elements_map Sys.isSep_fold, elements_render hx,
    elements_render hy] at helements
  exact (List.cons.inj helements).2

end Files

end Filepath
end Go
end MkyBoot
