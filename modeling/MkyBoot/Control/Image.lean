import MkyBoot.Control.Command

/-!
# Image operations, before and after

`src/image.lua` was extracted from the table `mkyboot.cmd.img`, which the copy of the
control program under `test` still has.  Both versions of the five operations are
modelled with what they ask of the system, so that they can be compared:
`extracted_eq_inline_iff` says on which arguments they do the same.
-/

namespace MkyBoot
namespace Control
namespace Image

open Lua Command

/-- What the system answers. -/
structure Environment where
  execute : Str → Val
  /-- `io.popen`, `none` where it returns `nil`, and then what reading the output gives. -/
  popen : Str → Option (Lua.Call Str)
  remove : Str → Val

/-- A request to the system. -/
inductive Issue where
  | execute (cmd : Str)
  | popen (cmd : Str)
  | remove (path : Str)
  deriving DecidableEq

/-- What an operation returns and asks of the system. -/
structure Behaviour where
  result : Lua.Call Val
  issued : List Issue
  deriving DecidableEq

def refused : Behaviour := ⟨.returned (.bool false), []⟩

def textOf (c : Command.Call) : Str := ((line c).map Line.text).getD []

/-- The inline `child` appends to the file of errors. -/
def childText (parent child : Val) : Str :=
  Line.text ⟨[.fixed "/usr/bin/qemu-img create -f qcow2 -b", .arg parent, .arg child,
    .fixed "-o lazy_refcounts=on"], some ⟨['2'], ['>', '>'], "/tmp/result".toList⟩⟩

section

variable (env : Environment)

/-- `return os.execute(cmd)` -/
def execute (cmd : Str) : Behaviour := ⟨.returned (env.execute cmd), [.execute cmd]⟩

/-- `return os.remove(path)` -/
def remove (path : Val) : Behaviour :=
  ⟨.returned (env.remove (tostring path)), [.remove (tostring path)]⟩

/-- A command whose output is read and makes the result.  `missing` is what the operation
does where there is no output to read. -/
def readOutput (cmd : Str) (missing : Lua.Call Val) (f : Str → Val) : Behaviour where
  result :=
    match env.popen cmd with
    | none => missing
    | some .raised => .raised
    | some (.returned out) => .returned (f out)
  issued := [.popen cmd]

/-- `#data > 0` -/
def hasOutput (out : Str) : Val := .bool (decide (out ≠ []))

namespace Extracted

def new (path size : Val) : Behaviour :=
  if !nonempty path then refused
  else if !Valid.imgSize size then refused
  else execute env (textOf (.imageNew path size))

def child (parent child : Val) : Behaviour :=
  if !nonempty parent then refused
  else if !nonempty child then refused
  else execute env (textOf (.imageChild parent child))

def delete (image : Val) : Behaviour :=
  if !nonempty image then refused
  else if !Valid.safePath image then refused
  else remove env image

def commit (image : Val) : Behaviour :=
  if !nonempty image then refused
  else if !Valid.safePath image then refused
  else readOutput env (textOf (.imageCommit image)) (.returned (.str [])) .str

def used (image : Val) : Behaviour :=
  if !nonempty image then refused
  else if !Valid.safePath image then refused
  else readOutput env (textOf (.imageUsed image)) (.returned (.bool false)) hasOutput

end Extracted

namespace Inline

def new (path size : Val) : Behaviour :=
  if !Valid.imgPath path then refused
  else if !Valid.imgSize size then refused
  else execute env (textOf (.imageNew path size))

def child (parent child : Val) : Behaviour :=
  if !Valid.imgPath parent then refused
  else if !Valid.imgPath child then refused
  else execute env (childText parent child)

def del (image : Val) : Behaviour :=
  if !Valid.safePath image then refused else remove env image

/-- `fd:read` raises where `io.popen` has returned `nil`. -/
def commit (image : Val) : Behaviour :=
  if !Valid.safePath image then refused
  else readOutput env (textOf (.imageCommit image)) .raised .str

def used (image : Val) : Behaviour :=
  if !Valid.safePath image then refused
  else readOutput env (textOf (.imageUsed image)) .raised hasOutput

end Inline

end

inductive Operation where
  | new (path size : Val)
  | child (parent child : Val)
  | delete (image : Val)
  | commit (image : Val)
  | used (image : Val)

def extracted (env : Environment) : Operation → Behaviour
  | .new path size => Extracted.new env path size
  | .child parent child => Extracted.child env parent child
  | .delete image => Extracted.delete env image
  | .commit image => Extracted.commit env image
  | .used image => Extracted.used env image

def inline (env : Environment) : Operation → Behaviour
  | .new path size => Inline.new env path size
  | .child parent child => Inline.child env parent child
  | .delete image => Inline.del env image
  | .commit image => Inline.commit env image
  | .used image => Inline.used env image

/-- The extracted operation refuses, or does what the inline one did. -/
def Agrees (env : Environment) : Operation → Prop
  | .new path size => nonempty path = false ∨ Valid.imgSize size = false ∨ Valid.imgPath path = true
  | .child parent child => nonempty parent = false ∨ nonempty child = false
  | .delete _ => True
  | .commit image => Valid.safePath image = false ∨ env.popen (textOf (.imageCommit image)) ≠ none
  | .used image => Valid.safePath image = false ∨ env.popen (textOf (.imageUsed image)) ≠ none

/-! ## The tests of the two versions -/

/-- A test that is made after another one and implies it. -/
theorem refuse_twice {p q : Bool} (h : q = true → p = true) (b : Behaviour) :
    (if !p then refused else if !q then refused else b) = if !q then refused else b := by
  cases p with
  | true => rfl
  | false =>
    cases q with
    | true => exact absurd (h rfl) Bool.false_ne_true
    | false => rfl

theorem nonempty_of_safePath {v : Val} (h : Valid.safePath v = true) : nonempty v = true := by
  cases v with
  | str s =>
    change (_ && _ && _ && _) = true at h
    rw [Bool.and_eq_true, Bool.and_eq_true, Bool.and_eq_true] at h
    exact h.1.1.1
  | nil | bool | num | other => exact absurd h Bool.false_ne_true

theorem nonempty_of_imgPath {v : Val} (h : Valid.imgPath v = true) : nonempty v = true := by
  cases v with
  | str s =>
    change (_ && _ && _ && _ && _) = true at h
    rw [Bool.and_eq_true, Bool.and_eq_true, Bool.and_eq_true, Bool.and_eq_true] at h
    exact h.1.1.1.1
  | nil | bool | num | other => exact absurd h Bool.false_ne_true

theorem execute_ne_refused (env : Environment) (cmd : Str) : execute env cmd ≠ refused := by
  intro h
  exact absurd (congrArg Behaviour.issued h) (List.cons_ne_nil _ _)

theorem textOf_imageChild_ne (parent child : Val) :
    textOf (.imageChild parent child) ≠ childText parent child := by
  intro h
  have hend : ' ' :: tmpResult.text = ' ' :: "2>>/tmp/result".toList := List.append_cancel_left h
  exact absurd hend (by decide)

theorem new_eq_iff (env : Environment) (path size : Val) :
    Extracted.new env path size = Inline.new env path size ↔
      nonempty path = false ∨ Valid.imgSize size = false ∨ Valid.imgPath path = true := by
  unfold Extracted.new Inline.new
  cases himg : Valid.imgPath path with
  | true =>
    rw [nonempty_of_imgPath himg]
    exact iff_of_true rfl (Or.inr (Or.inr rfl))
  | false =>
    cases hpath : nonempty path with
    | false => exact iff_of_true rfl (Or.inl rfl)
    | true =>
      cases hsize : Valid.imgSize size with
      | false => exact iff_of_true rfl (Or.inr (Or.inl rfl))
      | true => exact iff_of_false (execute_ne_refused env _) (by simp)

theorem child_eq_iff (env : Environment) (parent child : Val) :
    Extracted.child env parent child = Inline.child env parent child ↔
      nonempty parent = false ∨ nonempty child = false := by
  unfold Extracted.child Inline.child
  cases hparent : nonempty parent with
  | false =>
    have himg : Valid.imgPath parent = false :=
      Bool.eq_false_iff.mpr fun h => absurd (nonempty_of_imgPath h) (by rw [hparent]; decide)
    rw [himg]
    exact iff_of_true rfl (Or.inl rfl)
  | true =>
    cases hchild : nonempty child with
    | false =>
      have himg : Valid.imgPath child = false :=
        Bool.eq_false_iff.mpr fun h => absurd (nonempty_of_imgPath h) (by rw [hchild]; decide)
      rw [himg]
      refine iff_of_true ?_ (Or.inr rfl)
      cases Valid.imgPath parent <;> rfl
    | true =>
      refine iff_of_false (fun h => ?_) (by simp)
      -- The inline version refuses, or its command is another one.
      cases hp : Valid.imgPath parent with
      | false =>
        rw [hp] at h
        exact execute_ne_refused env _ h
      | true =>
        cases hc : Valid.imgPath child with
        | false =>
          rw [hp, hc] at h
          exact execute_ne_refused env _ h
        | true =>
          rw [hp, hc] at h
          have hissued := congrArg Behaviour.issued h
          injection hissued with hcmd
          injection hcmd with hcmd
          exact textOf_imageChild_ne parent child hcmd

theorem readOutput_eq_iff {env : Environment} {cmd : Str} {m m' : Lua.Call Val} (hm : m ≠ m')
    (f : Str → Val) :
    readOutput env cmd m f = readOutput env cmd m' f ↔ env.popen cmd ≠ none := by
  unfold readOutput
  cases hopen : env.popen cmd with
  | none => exact iff_of_false (fun h => hm (congrArg Behaviour.result h)) fun h => h rfl
  | some out => cases out <;> exact iff_of_true rfl (by simp)

/-- The operations that read an output differ only in what they do without one. -/
theorem reading_eq_iff {env : Environment} {cmd : Str} {m : Lua.Call Val} (hm : m ≠ .raised)
    (f : Str → Val) (image : Val) :
    (if !nonempty image then refused
      else if !Valid.safePath image then refused else readOutput env cmd m f) =
        (if !Valid.safePath image then refused else readOutput env cmd .raised f) ↔
      Valid.safePath image = false ∨ env.popen cmd ≠ none := by
  rw [refuse_twice nonempty_of_safePath]
  cases Valid.safePath image with
  | false => exact iff_of_true rfl (Or.inl rfl)
  | true =>
    show readOutput env cmd m f = readOutput env cmd .raised f ↔ _
    rw [readOutput_eq_iff hm]
    exact (or_iff_right (by simp)).symm

/-- The two versions accept the same, issue the same and return the same exactly there. -/
theorem extracted_eq_inline_iff (env : Environment) (op : Operation) :
    extracted env op = inline env op ↔ Agrees env op := by
  cases op with
  | new path size => exact new_eq_iff env path size
  | child parent child => exact child_eq_iff env parent child
  | delete image => exact iff_of_true (refuse_twice nonempty_of_safePath _) trivial
  | commit image => exact reading_eq_iff (by simp) .str image
  | used image => exact reading_eq_iff (by simp) hasOutput image

/-- All commands succeed and print nothing. -/
def quiet : Environment where
  execute := fun _ => .num 0
  popen := fun _ => some (.returned [])
  remove := fun _ => .bool true

/-- A second command in the path, which the inline version refuses. -/
theorem new_runs_refused_path :
    inline quiet (.new (.str "/srv/a.img; reboot".toList) (.str "10G".toList)) = refused ∧
      extracted quiet (.new (.str "/srv/a.img; reboot".toList) (.str "10G".toList)) =
        execute quiet ("/usr/bin/qemu-img -f qcow2 -o ".toList ++
          "preallocation=metadata,compat=1.1,lazy_refcounts=on encryption=off ".toList ++
          "/srv/a.img; reboot 10G".toList) ∧
      extracted quiet (.new (.str "/srv/a.img; reboot".toList) (.str "10G".toList)) ≠
        inline quiet (.new (.str "/srv/a.img; reboot".toList) (.str "10G".toList)) := by
  have hinline : inline quiet (.new (.str "/srv/a.img; reboot".toList) (.str "10G".toList)) =
      refused := by decide +kernel
  have htext : textOf (.imageNew (.str "/srv/a.img; reboot".toList) (.str "10G".toList)) =
      "/usr/bin/qemu-img -f qcow2 -o ".toList ++
        "preallocation=metadata,compat=1.1,lazy_refcounts=on encryption=off ".toList ++
        "/srv/a.img; reboot 10G".toList := by
    show [' '].intercalate ["/usr/bin/qemu-img -f qcow2 -o".toList,
      "preallocation=metadata,compat=1.1,lazy_refcounts=on encryption=off".toList,
      "/srv/a.img; reboot".toList, "10G".toList] ++ [] = _
    repeat rewrite [String.toList_ofList]
    decide +kernel
  have hextracted : extracted quiet (.new (.str "/srv/a.img; reboot".toList)
      (.str "10G".toList)) = execute quiet ("/usr/bin/qemu-img -f qcow2 -o ".toList ++
        "preallocation=metadata,compat=1.1,lazy_refcounts=on encryption=off ".toList ++
        "/srv/a.img; reboot 10G".toList) := by
    rw [← htext, extracted, Extracted.new, if_neg (by decide +kernel), if_neg (by decide +kernel)]
  refine ⟨hinline, hextracted, fun h => ?_⟩
  rw [hextracted, hinline] at h
  cases congrArg Behaviour.issued h

end Image
end Control
end MkyBoot
