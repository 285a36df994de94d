import MkyBoot.Control.Session
import MkyBoot.Lua.Search

/-!
# The session cookie

A browser sends its cookies as one header, `name=value` pairs with `; ` between them.
`session.get_cookie` searches the header for the name of the session cookie and an equals
sign, wherever they stand.  `getCookie_header` reads the search as a search of one pair after
the other: no match crosses a semicolon.  In a pair of another name a match is a stray one,
in the value or at the end of the name.  `getCookie_exact_iff` says what the pairs must be
for the search to return the value of the session cookie.
-/

namespace MkyBoot
namespace Control

open Lua Session

/-- What `matchCookie` looks for. -/
def cookieKey : Str := cookieName ++ ['=']

/-- One cookie.  An equals sign ends the name, a semicolon the value. -/
structure Cookie where
  name : Str
  value : Str
  name_closed : ∀ c ∈ name, c ≠ '=' ∧ c ≠ ';'
  value_closed : ∀ c ∈ value, c ≠ ';'

def Cookie.text (p : Cookie) : Str := p.name ++ '=' :: p.value

/-- `ngx.var.http_cookie` -/
def cookieHeader (cookies : List Cookie) : Str := "; ".toList.intercalate (cookies.map Cookie.text)

/-- The value of the first cookie with the name. -/
def sessionCookie (cookies : List Cookie) : Option Str :=
  (cookies.find? (·.name = cookieName)).map (·.value)

/-- The key stands in a text behind `x`, and `v` behind the key. -/
def KeyAt (s x v : Str) : Prop := v ≠ [] ∧ s = x ++ (cookieKey ++ v)

/-- The text behind the first key that has one. -/
def FirstKey (s v : Str) : Prop := ∃ x, KeyAt s x v ∧ ∀ y w, KeyAt s y w → x.length ≤ y.length

/-- The first stray match, in the cookies before the session cookie. -/
def StrayMatch (cookies : List Cookie) (v : Str) : Prop :=
  ∃ before p after, cookies.takeWhile (·.name ≠ cookieName) = before ++ p :: after ∧
    FirstKey p.text v ∧ ∀ q ∈ before, ∀ y w, ¬ KeyAt q.text y w

/-! ## The search in a header -/

theorem Cookie.text_closed (p : Cookie) : ∀ c ∈ p.text, c ≠ ';' := by
  intro c hc
  rcases List.mem_append.mp hc with hc | hc
  · exact (p.name_closed c hc).2
  · rcases List.mem_cons.mp hc with rfl | hc
    · decide
    · exact p.value_closed c hc

/-- The text behind the key, up to a semicolon. -/
def valueAt (s : Str) : Str := (s.drop cookieKey.length).takeWhile (· != ';')

theorem matchCookie_cons (c : Char) (cs : Str) :
    matchCookie (c :: cs) =
      if cookieKey <+: c :: cs ∧ valueAt (c :: cs) ≠ [] then some (valueAt (c :: cs))
      else matchCookie cs := by
  rw [matchCookie]
  exact if_congr (and_congr_left' List.isPrefixOf_iff_prefix) rfl rfl

theorem matchCookie_of_not_prefix {c : Char} {cs : Str} (h : ¬ cookieKey <+: c :: cs) :
    matchCookie (c :: cs) = matchCookie cs := by
  rw [matchCookie_cons, if_neg fun hand => h hand.1]

/-- What stands behind the value is nothing or a semicolon. -/
theorem valueAt_key {v : Str} (hv : ∀ c ∈ v, c ≠ ';') {rest : Str}
    (hrest : ∀ c, rest.head? = some c → c = ';') : valueAt (cookieKey ++ (v ++ rest)) = v := by
  rw [valueAt, List.drop_left]
  refine (takeWhile_append_stop (fun c hc => bne_iff_ne.mpr (hv c hc)) ?_).1
  rw [Option.any_eq_false]
  intro c hc
  rw [hrest c hc]
  rfl

theorem valueAt_key_end {v : Str} (hv : ∀ c ∈ v, c ≠ ';') : valueAt (cookieKey ++ v) = v := by
  have hend : valueAt (cookieKey ++ (v ++ [])) = v := valueAt_key hv fun c hc => nomatch hc
  rw [List.append_nil] at hend
  exact hend

/-- No match crosses a semicolon. -/
theorem matchCookie_semicolon {a : Str} (ha : ∀ c ∈ a, c ≠ ';') (b : Str) :
    matchCookie (a ++ ';' :: b) = (matchCookie a).or (matchCookie b) := by
  have hkey : ';' ∉ cookieKey := by decide
  induction a with
  | nil =>
    have hstop : ¬ cookieKey <+: [] ++ ';' :: b := by
      rw [prefix_append_cons_iff hkey]
      decide
    exact matchCookie_of_not_prefix hstop
  | cons c a ih =>
    have hrest := ih fun d hd => ha d (List.mem_cons_of_mem c hd)
    have hstop : cookieKey <+: c :: (a ++ ';' :: b) ↔ cookieKey <+: c :: a :=
      prefix_append_cons_iff (b := c :: a) hkey
    by_cases hpre : cookieKey <+: c :: a
    · obtain ⟨v, hv⟩ := hpre
      have hclosed : ∀ d ∈ v, d ≠ ';' := fun d hd => ha d (hv ▸ List.mem_append_right _ hd)
      have hshort : valueAt (c :: a) = v := by
        rw [← hv]
        exact valueAt_key_end hclosed
      have hlong : valueAt (c :: (a ++ ';' :: b)) = v := by
        rw [← List.cons_append, ← hv]
        rw [List.append_assoc]
        exact valueAt_key hclosed fun d hd => (Option.some.inj hd).symm
      have hpos : cookieKey <+: c :: a := ⟨v, hv⟩
      rw [List.cons_append, matchCookie_cons, matchCookie_cons, hshort, hlong, hrest]
      by_cases hnil : v = []
      · rw [if_neg fun h => h.2 hnil, if_neg fun h => h.2 hnil]
      · rw [if_pos ⟨hstop.mpr hpos, hnil⟩, if_pos ⟨hpos, hnil⟩]
        rfl
    · rw [List.cons_append, matchCookie_of_not_prefix (fun h => hpre (hstop.mp h)),
        matchCookie_of_not_prefix hpre, hrest]

theorem matchCookie_blank (s : Str) : matchCookie (' ' :: s) = matchCookie s :=
  matchCookie_of_not_prefix fun h => by
    have hhead : cookieKey = 'm' :: "kyboot_session=".toList := rfl
    rw [hhead, List.cons_prefix_cons] at h
    exact absurd h.1 (by decide)

/-- The header is searched one cookie after the other. -/
theorem getCookie_header (cookies : List Cookie) :
    getCookie (some (cookieHeader cookies)) = cookies.findSome? (matchCookie ·.text) := by
  rw [getCookie, Option.getD_some, cookieHeader]
  induction cookies with
  | nil => rfl
  | cons p cookies ih =>
    cases cookies with
    | nil =>
      rw [List.map_cons, List.map_nil, List.intercalate_singleton, List.findSome?_singleton]
    | cons q cookies =>
      rw [List.map_cons, List.map_cons, List.intercalate_cons_cons, ← List.map_cons,
        List.append_assoc]
      have hsep : "; ".toList = [';', ' '] := rfl
      rw [hsep, List.cons_append, List.cons_append, List.nil_append,
        matchCookie_semicolon p.text_closed, matchCookie_blank, ← hsep, ih,
        List.findSome?_cons (a := p)]
      cases matchCookie p.text with
      | none => rfl
      | some v => rfl

/-! ## The search in one cookie -/

/-- The search finds the first key that has something behind it. -/
theorem matchCookie_eq_some_iff {s v : Str} (hs : ∀ c ∈ s, c ≠ ';') :
    matchCookie s = some v ↔ FirstKey s v := by
  induction s with
  | nil =>
    refine iff_of_false (fun h => nomatch h) ?_
    rintro ⟨x, ⟨-, h⟩, -⟩
    exact absurd (List.append_eq_nil_iff.mp (List.append_eq_nil_iff.mp h.symm).2).1 (by decide)
  | cons c s ih =>
    have ih := ih fun d hd => hs d (List.mem_cons_of_mem c hd)
    by_cases hhere : ∃ u, KeyAt (c :: s) [] u
    · obtain ⟨u, hu, hkey⟩ := hhere
      rw [List.nil_append] at hkey
      have hvalue : valueAt (c :: s) = u := by
        rw [hkey]
        exact valueAt_key_end fun d hd => hs d (hkey ▸ List.mem_append_right _ hd)
      rw [matchCookie_cons, hvalue, if_pos ⟨⟨u, hkey.symm⟩, hu⟩, Option.some_inj]
      constructor
      · rintro rfl
        exact ⟨[], ⟨hu, hkey⟩, fun y w _ => Nat.zero_le _⟩
      · rintro ⟨x, ⟨-, hx⟩, hfirst⟩
        obtain rfl : x = [] := List.length_eq_zero_iff.mp (Nat.le_zero.mp (hfirst [] u ⟨hu, hkey⟩))
        exact List.append_cancel_left (hkey.symm.trans hx)
    · have hskip : ¬ (cookieKey <+: c :: s ∧ valueAt (c :: s) ≠ []) := by
        rintro ⟨⟨u, hkey⟩, hne⟩
        refine hhere ⟨u, ?_, hkey.symm⟩
        rintro rfl
        rw [← hkey] at hne
        exact hne (by decide)
      have hlater {y w : Str} (h : KeyAt (c :: s) y w) : ∃ y', y = c :: y' ∧ KeyAt s y' w := by
        obtain ⟨hw, hy⟩ := h
        cases y with
        | nil => exact absurd ⟨w, hw, hy⟩ hhere
        | cons d y =>
          obtain ⟨rfl, hs⟩ := List.cons.inj hy
          exact ⟨y, rfl, hw, hs⟩
      have hcons {y w : Str} (h : KeyAt s y w) : KeyAt (c :: s) (c :: y) w :=
        ⟨h.1, congrArg (c :: ·) h.2⟩
      rw [matchCookie_cons, if_neg hskip, ih]
      constructor
      · rintro ⟨x, hx, hfirst⟩
        refine ⟨c :: x, hcons hx, fun y w hy => ?_⟩
        obtain ⟨y, rfl, hy'⟩ := hlater hy
        exact Nat.succ_le_succ (hfirst y w hy')
      · rintro ⟨x, hx, hfirst⟩
        obtain ⟨x, rfl, hx'⟩ := hlater hx
        exact ⟨x, hx', fun y w hy => Nat.le_of_succ_le_succ (hfirst (c :: y) w (hcons hy))⟩

theorem matchCookie_eq_none_iff {s : Str} (hs : ∀ c ∈ s, c ≠ ';') :
    matchCookie s = none ↔ ∀ y w, ¬ KeyAt s y w := by
  constructor
  · intro h y w hkey
    -- Of the places with a key one is the first.
    have hex : ∃ n y w, KeyAt s y w ∧ y.length = n := ⟨_, y, w, hkey, rfl⟩
    classical
    obtain ⟨x, v, hx, hlen⟩ := Nat.find_spec hex
    have hfirst : FirstKey s v :=
      ⟨x, hx, fun y w hy => hlen ▸ Nat.find_min' hex ⟨y, w, hy, rfl⟩⟩
    rw [(matchCookie_eq_some_iff hs).mpr hfirst] at h
    cases h
  · intro h
    rw [Option.eq_none_iff_forall_ne_some]
    intro v hv
    obtain ⟨x, hx, -⟩ := (matchCookie_eq_some_iff hs).mp hv
    exact h x v hx

/-- What the search finds before the session cookie is the first stray match. -/
theorem strayMatch_iff (cookies : List Cookie) (v : Str) :
    StrayMatch cookies v ↔
      (cookies.takeWhile (·.name ≠ cookieName)).findSome? (matchCookie ·.text) = some v := by
  rw [List.findSome?_eq_some_iff]
  refine exists_congr fun before => exists_congr fun p => exists_congr fun after => ?_
  refine and_congr_right fun _ => and_congr (matchCookie_eq_some_iff p.text_closed).symm ?_
  exact forall₂_congr fun q _ => (matchCookie_eq_none_iff q.text_closed).symm

theorem matchCookie_session {p : Cookie} (hname : p.name = cookieName) :
    matchCookie p.text = if p.value = [] then none else some p.value := by
  have htext : p.text = cookieKey ++ p.value := by
    rw [Cookie.text, hname, cookieKey, List.append_assoc]
    rfl
  rw [htext]
  split
  · rename_i hnil
    rw [hnil]
    decide
  · rename_i hne
    have hvalue := valueAt_key_end p.value_closed
    have hpre := List.prefix_append cookieKey p.value
    have hcons : cookieKey ++ p.value = 'm' :: ("kyboot_session=".toList ++ p.value) := rfl
    rw [hcons] at hvalue hpre ⊢
    rw [matchCookie_cons, hvalue, if_pos ⟨hpre, hne⟩]

/-! ## The session cookie -/

/-- The search returns the value of the session cookie exactly if the value is not empty and
no cookie before it has a stray match, or the first stray match is the same text. -/
theorem getCookie_exact_iff (cookies : List Cookie) :
    getCookie (some (cookieHeader cookies)) = sessionCookie cookies ↔
      sessionCookie cookies ≠ some [] ∧
        ∀ v, StrayMatch cookies v → sessionCookie cookies = some v := by
  simp only [strayMatch_iff]
  rw [getCookie_header]
  induction cookies with
  | nil => simp [sessionCookie]
  | cons p cookies ih =>
    rw [List.findSome?_cons]
    by_cases hname : p.name = cookieName
    · have hsession : sessionCookie (p :: cookies) = some p.value := by
        rw [sessionCookie, List.find?_cons_of_pos (by simpa using hname), Option.map_some]
      rw [hsession, List.takeWhile_cons_of_neg (by simpa using hname), List.findSome?_nil,
        matchCookie_session hname]
      by_cases hnil : p.value = []
      · rw [if_pos hnil, hnil]
        refine iff_of_false ?_ fun h => h.1 rfl
        intro h
        obtain ⟨q, _, hq⟩ := List.exists_of_findSome?_eq_some h
        exact matchCookie_ne_nil hq rfl
      · rw [if_neg hnil]
        exact iff_of_true rfl ⟨fun h => hnil (Option.some.inj h), fun v h => nomatch h⟩
    · have hsession : sessionCookie (p :: cookies) = sessionCookie cookies := by
        rw [sessionCookie, List.find?_cons_of_neg (by simpa using hname), sessionCookie]
      rw [hsession, List.takeWhile_cons_of_pos (by simpa using hname), List.findSome?_cons]
      cases hmatch : matchCookie p.text with
      | none => exact ih
      | some v =>
        constructor
        · intro h
          rw [← h]
          refine ⟨fun hv => matchCookie_ne_nil hmatch (Option.some.inj hv), ?_⟩
          intro w hw
          exact hw
        · intro h
          exact (h.2 v rfl).symm

/-- A cookie whose name ends with the name of the session cookie. -/
def strayCookie : Cookie where
  name := "xmkyboot_session".toList
  value := "abc".toList
  name_closed := by decide
  value_closed := by decide

def goodCookie : Cookie where
  name := "mkyboot_session".toList
  value := "good".toList
  name_closed := by decide
  value_closed := by decide

theorem stray_cookie_returned :
    cookieHeader [strayCookie, goodCookie] =
        "xmkyboot_session=abc; mkyboot_session=good".toList ∧
      sessionCookie [strayCookie, goodCookie] = some "good".toList ∧
      getCookie (some (cookieHeader [strayCookie, goodCookie])) = some "abc".toList := by
  decide

end Control
end MkyBoot
