import MkyBoot.Text

/-!
# URLs with an authority

`hostOf` reads the host from a text: the scheme up to `://`, the authority up to a slash, a
question mark or a number sign, the user up to the last `@`, and the host up to the port or,
for a literal address, up to the closing bracket.  `Url` has the components that a text is
put together from; `hostOf_text` says that the host is read back, and
`Url.infix_text_iff` where in the text a word without delimiters can stand.
-/

namespace MkyBoot

/-- The characters that end an authority. -/
def endsAuthority (c : Char) : Bool := c == '/' || c == '?' || c == '#'

/-- The characters that stand between two components. -/
def isDelimiter (c : Char) : Bool := endsAuthority c || c == ':' || c == '@'

/-- The host at the beginning of a text, before a port. -/
def hostBefore (s : List Char) : List Char :=
  if s.head? = some '[' then s.takeWhile (· != ']') ++ [']'] else s.takeWhile (· != ':')

def hostOf (s : List Char) : Option (List Char) :=
  let scheme := s.takeWhile fun c => !(endsAuthority c || c == ':')
  if scheme ≠ [] ∧ "://".toList <+: s.drop scheme.length then
    let authority := (s.drop (scheme.length + 3)).takeWhile fun c => !endsAuthority c
    some (hostBefore (authority.rtakeWhile (· != '@')))
  else none

/-- A registered name, or a literal address in brackets. -/
def IsHost (host : List Char) : Prop :=
  (∀ c ∈ host, isDelimiter c = false ∧ c ≠ '[') ∨
    ∃ s, host = '[' :: s ++ [']'] ∧ ∀ c ∈ s, endsAuthority c = false ∧ c ≠ '@' ∧ c ≠ ']'

structure Url where
  scheme : List Char
  user : Option (List Char)
  host : List Char
  port : Option (List Char)
  /-- The path, the query and the fragment. -/
  rest : List Char
  scheme_ne_nil : scheme ≠ []
  scheme_closed : ∀ c ∈ scheme, isDelimiter c = false
  user_closed : ∀ u, user = some u → ∀ c ∈ u, endsAuthority c = false
  isHost : IsHost host
  port_closed : ∀ p, port = some p → ∀ c ∈ p, c.isDigit = true
  rest_open : ∀ c, rest.head? = some c → endsAuthority c = true

namespace Url

/-- The user and the `@` behind it. -/
def userText (u : Url) : List Char :=
  match u.user with
  | none => []
  | some user => user ++ ['@']

/-- The port and the colon before it. -/
def portText (u : Url) : List Char :=
  match u.port with
  | none => []
  | some port => ':' :: port

def text (u : Url) : List Char :=
  u.scheme ++ ':' :: '/' :: '/' :: (u.userText ++ (u.host ++ u.portText) ++ u.rest)

def components (u : Url) : List (List Char) :=
  [u.scheme, u.user.getD [], u.host, u.port.getD [], u.rest]

/-! ## The host of a text -/

theorem rtakeWhile_append_cons {α : Type} {p : α → Bool} {a b : List α} {x : α}
    (hb : ∀ y ∈ b, p y = true) (hx : p x = false) : (a ++ x :: b).rtakeWhile p = b := by
  rw [List.rtakeWhile, List.reverse_append, List.reverse_cons, List.append_assoc,
    List.takeWhile_append_of_pos fun y hy => hb y (List.mem_reverse.mp hy), List.singleton_append,
    List.takeWhile_cons_of_neg (by simp [hx]), List.append_nil, List.reverse_reverse]

theorem rtakeWhile_eq_self {α : Type} {p : α → Bool} {b : List α} (hb : ∀ y ∈ b, p y = true) :
    b.rtakeWhile p = b := by
  rw [List.rtakeWhile, List.takeWhile_eq_self_iff.mpr fun y hy => hb y (List.mem_reverse.mp hy),
    List.reverse_reverse]

theorem of_isDelimiter_false {c : Char} (h : isDelimiter c = false) :
    endsAuthority c = false ∧ c ≠ ':' ∧ c ≠ '@' := by
  simp only [isDelimiter, Bool.or_eq_false_iff, beq_eq_false_iff_ne] at h
  exact ⟨h.1.1, h.1.2, h.2⟩

theorem mem_portText {u : Url} {c : Char} (h : c ∈ u.portText) :
    c = ':' ∨ c.isDigit = true := by
  rw [portText] at h
  split at h
  · exact absurd h List.not_mem_nil
  · rename_i port hport
    exact (List.mem_cons.mp h).imp_right (u.port_closed port hport c)

theorem head?_portText {u : Url} {c : Char} (h : u.portText.head? = some c) : c = ':' := by
  rw [portText] at h
  split at h
  · cases h
  · exact (Option.some.inj h).symm

theorem ne_of_isDigit {c d : Char} (h : c.isDigit = true) (hd : d.isDigit = false) : c ≠ d := by
  rintro rfl
  rw [h] at hd
  cases hd

theorem mem_host {u : Url} {c : Char} (h : c ∈ u.host) : endsAuthority c = false ∧ c ≠ '@' := by
  rcases u.isHost with hname | ⟨s, hhost, hs⟩
  · have hc := of_isDelimiter_false (hname c h).1
    exact ⟨hc.1, hc.2.2⟩
  · rw [hhost] at h
    rcases List.mem_append.mp h with h | h
    · rcases List.mem_cons.mp h with rfl | h
      · decide
      · exact ⟨(hs c h).1, (hs c h).2.1⟩
    · rw [List.mem_singleton.mp h]
      decide

theorem mem_hostPort {u : Url} {c : Char} (h : c ∈ u.host ++ u.portText) :
    endsAuthority c = false ∧ c ≠ '@' := by
  rcases List.mem_append.mp h with h | h
  · exact mem_host h
  · rcases mem_portText h with rfl | hdigit
    · decide
    · have hslash := ne_of_isDigit hdigit (d := '/') rfl
      have hquery := ne_of_isDigit hdigit (d := '?') rfl
      have hsign := ne_of_isDigit hdigit (d := '#') rfl
      exact ⟨by simp [endsAuthority, hslash, hquery, hsign], ne_of_isDigit hdigit rfl⟩

theorem hostBefore_port (u : Url) : hostBefore (u.host ++ u.portText) = u.host := by
  rw [hostBefore]
  rcases u.isHost with hname | ⟨s, hhost, hs⟩
  · have hopen : ¬ (u.host ++ u.portText).head? = some '[' := by
      intro h
      rcases List.mem_append.mp (List.mem_of_head? h) with h | h
      · exact (hname '[' h).2 rfl
      · exact absurd (mem_portText h) (by decide)
    rw [if_neg hopen]
    refine (takeWhile_append_stop ?_ ((Option.any_eq_false _ _).mpr ?_)).1
    · intro c hc
      exact bne_iff_ne.mpr (of_isDelimiter_false (hname c hc).1).2.1
    · intro c hc
      rw [head?_portText hc]
      rfl
  · have hopen : (u.host ++ u.portText).head? = some '[' := by
      rw [hhost]
      rfl
    have hinside : (u.host ++ u.portText).takeWhile (· != ']') = '[' :: s := by
      rw [hhost, List.append_assoc]
      refine (takeWhile_append_stop ?_ ((Option.any_eq_false _ _).mpr ?_)).1
      · intro c hc
        rcases List.mem_cons.mp hc with rfl | hc
        · decide
        · exact bne_iff_ne.mpr (hs c hc).2.2
      · intro c hc
        rw [← Option.some.inj hc]
        rfl
    rw [if_pos hopen, hinside, hhost]

/-- What stands between the last `@` of an authority and its end. -/
theorem rtakeWhile_authority (u : Url) :
    (u.userText ++ (u.host ++ u.portText)).rtakeWhile (· != '@') = u.host ++ u.portText := by
  have hclosed : ∀ c ∈ u.host ++ u.portText, (c != '@') = true := fun c hc =>
    bne_iff_ne.mpr (mem_hostPort hc).2
  rw [userText]
  split
  · exact rtakeWhile_eq_self hclosed
  · rw [List.append_assoc]
    exact rtakeWhile_append_cons hclosed rfl

theorem authority_closed (u : Url) :
    ∀ c ∈ u.userText ++ (u.host ++ u.portText), endsAuthority c = false := by
  intro c hc
  rcases List.mem_append.mp hc with hc | hc
  · rw [userText] at hc
    split at hc
    · exact absurd hc List.not_mem_nil
    · rename_i user huser
      rcases List.mem_append.mp hc with hc | hc
      · exact u.user_closed user huser c hc
      · rw [List.mem_singleton.mp hc]
        rfl
  · exact (mem_hostPort hc).1

theorem hostOf_text (u : Url) : hostOf u.text = some u.host := by
  have hscheme : u.text.takeWhile (fun c => !(endsAuthority c || c == ':')) = u.scheme := by
    refine (takeWhile_append_stop ?_ ((Option.any_eq_false _ _).mpr ?_)).1
    · intro c hc
      have hclosed := of_isDelimiter_false (u.scheme_closed c hc)
      simp [hclosed.1, hclosed.2.1]
    · intro c hc
      rw [← Option.some.inj hc]
      rfl
  have hauthority : (u.userText ++ (u.host ++ u.portText) ++ u.rest).takeWhile
      (fun c => !endsAuthority c) = u.userText ++ (u.host ++ u.portText) := by
    refine (takeWhile_append_stop ?_ ((Option.any_eq_false _ _).mpr ?_)).1
    · intro c hc
      rw [authority_closed u c hc]
      rfl
    · intro c hc
      rw [u.rest_open c hc]
      rfl
  have hdrop : u.text.drop u.scheme.length =
      "://".toList ++ (u.userText ++ (u.host ++ u.portText) ++ u.rest) := List.drop_left
  have hdrop' : u.text.drop (u.scheme.length + 3) =
      u.userText ++ (u.host ++ u.portText) ++ u.rest := by
    rw [← List.drop_drop, hdrop]
    rfl
  simp only [hostOf, hscheme]
  rw [if_pos ⟨u.scheme_ne_nil, hdrop ▸ List.prefix_append _ _⟩, hdrop', hauthority,
    rtakeWhile_authority, hostBefore_port]

/-! ## The components of a text -/

section Components

variable {w : List Char}

theorem infix_cons_delimiter_iff (hw : ∀ c ∈ w, isDelimiter c = false) {x : Char}
    (hx : isDelimiter x = true) {a b : List Char} :
    w <:+: a ++ x :: b ↔ w <:+: a ∨ w <:+: b :=
  infix_append_cons_iff fun hmem => absurd hx (Bool.eq_false_iff.mp (hw x hmem))

theorem infix_nil_or_iff {a : List Char} : w <:+: [] ∨ w <:+: a ↔ w <:+: a := by
  refine or_iff_right_of_imp fun h => ?_
  rw [List.infix_nil.mp h]
  exact List.nil_infix

theorem infix_append_rest_iff (u : Url) (hw : ∀ c ∈ w, isDelimiter c = false) (a : List Char) :
    w <:+: a ++ u.rest ↔ w <:+: a ∨ w <:+: u.rest := by
  cases hrest : u.rest with
  | nil => rw [List.append_nil, or_comm, infix_nil_or_iff]
  | cons x t =>
    have hx : isDelimiter x = true := by
      rw [isDelimiter, u.rest_open x (by rw [hrest]; rfl)]
      rfl
    have hcons : w <:+: x :: t ↔ w <:+: [] ∨ w <:+: t := infix_cons_delimiter_iff hw hx (a := [])
    rw [infix_cons_delimiter_iff hw hx, hcons, infix_nil_or_iff]

theorem infix_userText_iff (u : Url) (hw : ∀ c ∈ w, isDelimiter c = false) (b : List Char) :
    w <:+: u.userText ++ b ↔ w <:+: u.user.getD [] ∨ w <:+: b := by
  rw [userText]
  cases u.user with
  | none => exact infix_nil_or_iff.symm
  | some user =>
    simp only [List.append_assoc, List.singleton_append, Option.getD_some]
    exact infix_cons_delimiter_iff hw rfl

theorem infix_portText_iff (u : Url) (hw : ∀ c ∈ w, isDelimiter c = false) (a : List Char) :
    w <:+: a ++ u.portText ↔ w <:+: a ∨ w <:+: u.port.getD [] := by
  rw [portText]
  cases u.port with
  | none =>
    simp only [List.append_nil, Option.getD_none]
    rw [or_comm, infix_nil_or_iff]
  | some port => exact infix_cons_delimiter_iff hw rfl

/-- A word without delimiters stands in one of the components. -/
theorem infix_text_iff (u : Url) (hw : ∀ c ∈ w, isDelimiter c = false) :
    w <:+: u.text ↔ ∃ part ∈ u.components, w <:+: part := by
  have hslash (b : List Char) : w <:+: '/' :: b ↔ w <:+: b := by
    rw [← infix_nil_or_iff (a := b)]
    exact infix_cons_delimiter_iff hw rfl (a := [])
  rw [text, infix_cons_delimiter_iff hw rfl, hslash, hslash, infix_append_rest_iff u hw,
    infix_userText_iff u hw, infix_portText_iff u hw]
  simp only [components, List.mem_cons, List.not_mem_nil, or_false, exists_eq_or_imp,
    exists_eq_left, or_assoc]

end Components

end Url
end MkyBoot
