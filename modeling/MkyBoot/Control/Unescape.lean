import MkyBoot.Control.Policy

/-!
# Decoding a form

The pages of the web interface send their fields with `encodeURIComponent` or with jQuery,
which writes a blank as a plus sign.  `parse_post` splits the body and leaves the values as
they are, and a handler that wants the value itself calls `unescape`, which first turns plus
signs into blanks and then replaces the escapes.  `unescape_parsePost` says that nothing is
lost on the way.
-/

namespace MkyBoot
namespace Control
namespace Form

open Lua Policy

/-! ## `unescape` -/

def blank (c : Char) : Char := if c = '+' then ' ' else c

/-- `gsub("+", " ")` -/
def blanks (s : Str) : Str := s.map blank

/-- `gsub("%%(%x%x)", ...)`, which puts the byte with that number. -/
def unhex : Str → Str
  | [] => []
  | c :: s =>
    if c = '%' then
      match s with
      | [] => ['%']
      | [a] => '%' :: unhex [a]
      | a :: b :: rest =>
        if isXDigit a && isXDigit b then digitsByte a b :: unhex rest
        else '%' :: unhex (a :: b :: rest)
    else c :: unhex s

def unescape (s : Str) : Str := unhex (blanks s)

theorem unhex_escape {a b : Char} (h : (isXDigit a && isXDigit b) = true) (rest : Str) :
    unhex ('%' :: a :: b :: rest) = digitsByte a b :: unhex rest := by
  rw [unhex.eq_def]
  simp only [h, if_true]

theorem unhex_percent {a b : Char} (h : ¬ (isXDigit a && isXDigit b) = true) (rest : Str) :
    unhex ('%' :: a :: b :: rest) = '%' :: unhex (a :: b :: rest) := by
  rw [unhex.eq_def]
  simp only [h, if_true, if_false, Bool.false_eq_true]

theorem unhex_plain {c : Char} (hc : c ≠ '%') (s : Str) : unhex (c :: s) = c :: unhex s := by
  rw [unhex.eq_def]
  simp only [if_neg hc]

theorem isXDigit_blank (c : Char) : isXDigit (blank c) = isXDigit c := by
  by_cases hc : c = '+'
  · rw [blank, if_pos hc, hc]
    decide
  · rw [blank, if_neg hc]

theorem blank_of_isXDigit {c : Char} (h : isXDigit c = true) : blank c = c := by
  refine if_neg ?_
  rintro rfl
  exact absurd h (by decide)

theorem blank_ne_percent {c : Char} (h : c ≠ '%') : blank c ≠ '%' := by
  rw [blank]
  split
  · decide
  · exact h

/-- One substitution after the other is decoding from left to right: a plus sign is no part of
an escape, and neither is the blank it becomes. -/
theorem unescape_eq_formDecode (s : Str) : unescape s = formDecode s := by
  rw [unescape, formDecode]
  induction s using formUnits.induct with
  | case1 => rfl
  | case2 => rfl
  | case3 a ih =>
    rw [formUnits, if_pos rfl, List.map_cons, ← ih]
    rfl
  | case4 a b rest hhex ih =>
    obtain ⟨ha, hb⟩ := Bool.and_eq_true_iff.mp hhex
    show unhex ('%' :: blank a :: blank b :: blanks rest) = _
    rw [blank_of_isXDigit ha, blank_of_isXDigit hb, unhex_escape hhex, formUnits_escape hhex,
      List.map_cons, ← ih]
  | case5 a b rest hhex ih =>
    have hblank : ¬ (isXDigit (blank a) && isXDigit (blank b)) = true := by
      rw [isXDigit_blank, isXDigit_blank]
      exact hhex
    show unhex ('%' :: blank a :: blank b :: blanks rest) = _
    rw [unhex_percent hblank, formUnits.eq_def]
    simp only [hhex, if_true, if_false, Bool.false_eq_true, List.map_cons, ← ih]
    rfl
  | case6 c s hc ih =>
    show unhex (blank c :: blanks s) = _
    rw [unhex_plain (blank_ne_percent hc), ih, formUnits_plain hc]
    rfl

/-! ## Encoders -/

inductive Encoder where
  | encodeURIComponent
  | param
  deriving DecidableEq

/-- A byte of a value.  jQuery replaces each `%20` of `encodeURIComponent` by a plus sign. -/
def encodeByte (enc : Encoder) (b : Char) : Str :=
  if uriUnreserved b then [b]
  else if b = ' ' ∧ enc = .param then ['+']
  else percent b

def encode (enc : Encoder) (value : Str) : Str := value.flatMap (encodeByte enc)

/-- On the bytes of a text this is what `encodeURIComponent` makes of its characters. -/
theorem encode_utf8 (p : List Char) :
    encode .encodeURIComponent (p.flatMap utf8Char) = encodeURIComponent p := by
  rw [encode, encodeURIComponent, List.flatMap_assoc]
  refine List.flatMap_congr fun c _ => ?_
  rw [encodeURIChar]
  have hbyte {b : Char} (hb : uriUnreserved b = false) :
      encodeByte .encodeURIComponent b = percent b := by
    rw [encodeByte, hb, if_neg Bool.false_ne_true, if_neg (by simp)]
  by_cases hascii : c.toNat ≤ 127
  · rw [utf8Char_ascii hascii, List.flatMap_singleton, List.flatMap_singleton]
    cases hc : uriUnreserved c with
    | true => rw [encodeByte, hc, if_pos rfl, if_pos rfl]
    | false => rw [hbyte hc, if_neg Bool.false_ne_true]
  · have hnot {b : Char} (hb : 127 < b.toNat) : uriUnreserved b = false :=
      Bool.eq_false_iff.mpr fun h => absurd (uriUnreserved_plain h).2.2 (Nat.not_le.mpr hb)
    rw [hnot (Nat.lt_of_not_le hascii), if_neg Bool.false_ne_true]
    exact List.flatMap_congr fun b hb =>
      hbyte (hnot (utf8Char_high (Nat.lt_of_not_le hascii) b hb))

theorem amp_notMem_encode (enc : Encoder) (value : Str) : '&' ∉ encode enc value := by
  intro h
  obtain ⟨b, -, hb⟩ := List.mem_flatMap.mp h
  rw [encodeByte] at hb
  split at hb
  · rename_i hunres
    rw [List.mem_singleton] at hb
    exact absurd (hb ▸ hunres) (by decide)
  split at hb
  · exact absurd hb (by decide)
  · exact amp_notMem_percent b hb

/-- Decoding what one byte was encoded as. -/
theorem formUnits_encodeByte {b : Char} (hb : b.toNat < 256) (enc : Encoder) (rest : Str) :
    (formUnits (encodeByte enc b ++ rest)).map Prod.fst = b :: (formUnits rest).map Prod.fst := by
  rw [encodeByte]
  split
  · rename_i hunres
    obtain ⟨hpercent, hplus, -⟩ := uriUnreserved_plain hunres
    rw [List.singleton_append, formUnits_plain hpercent, if_neg hplus, List.map_cons]
  split
  · rename_i hblank
    rw [List.singleton_append, formUnits_plain (by decide), if_pos rfl, List.map_cons, hblank.1]
  · rw [formUnits_percent hb, List.map_cons]

theorem unescape_encode (enc : Encoder) {value : Str} (h : ∀ b ∈ value, b.toNat < 256) :
    unescape (encode enc value) = value := by
  rw [unescape_eq_formDecode, formDecode, encode]
  induction value with
  | nil => rfl
  | cons b value ih =>
    rw [List.flatMap_cons, formUnits_encodeByte (h b List.mem_cons_self),
      ih fun d hd => h d (List.mem_cons_of_mem b hd)]

/-! ## Whole forms -/

/-- A field of a form: its key is a word, its value any bytes. -/
structure Input where
  key : Str
  value : Str
  encoder : Encoder
  key_ne : key ≠ []
  key_word : ∀ c ∈ key, isWord c = true
  value_byte : ∀ b ∈ value, b.toNat < 256

def Input.encoded (f : Input) : Str := encode f.encoder f.value

def body (l : List Input) : Str := ['&'].intercalate (l.map fun f => f.key ++ '=' :: f.encoded)

theorem Input.key_plain (f : Input) : ∀ c ∈ f.key, c ≠ '&' ∧ c ≠ '=' := by
  intro c hc
  have hword := f.key_word c hc
  constructor
  · rintro rfl
    exact absurd hword (by decide)
  · rintro rfl
    exact absurd hword (by decide)

/-- The pairs of a form, one for each field. -/
theorem formPairs_body (f : Input) (l : List Input) :
    formPairs none [] (body (f :: l)) = (f :: l).map fun f => (f.key, f.encoded) := by
  have hamp (f : Input) : '&' ∉ f.encoded := amp_notMem_encode f.encoder f.value
  induction l generalizing f with
  | nil =>
    rw [body, List.map_singleton, List.intercalate_singleton,
      formPairs_last f.key_plain f.key_ne (hamp f)]
    rfl
  | cons g l ih =>
    have hbody : body (f :: g :: l) = f.key ++ '=' :: (f.encoded ++ '&' :: body (g :: l)) := by
      rw [body, List.map_cons, List.intercalate_cons_of_ne_nil (by simp)]
      simp [body]
    rw [hbody, formPairs_cons f.key_plain f.key_ne (hamp f) (ih g)]
    rfl

theorem body_ne_nil (f : Input) (l : List Input) : body (f :: l) ≠ [] := by
  intro h
  have hpairs := formPairs_body f l
  rw [h] at hpairs
  cases hpairs

/-- With distinct keys the pair that counts is the only one. -/
theorem field_of_mem {l : List Input} (hnd : (l.map Input.key).Nodup) {f : Input} (hf : f ∈ l) :
    field (l.map fun f => (f.key, f.encoded)) (String.ofList f.key) = some f.encoded := by
  rw [field, String.toList_ofList]
  cases hfind : (l.map fun f => (f.key, f.encoded)).reverse.find? (·.1 == f.key) with
  | none =>
    have hmem : (f.key, f.encoded) ∈ (l.map fun f => (f.key, f.encoded)).reverse :=
      List.mem_reverse.mpr (List.mem_map.mpr ⟨f, hf, rfl⟩)
    exact absurd (beq_self_eq_true f.key) (List.find?_eq_none.mp hfind _ hmem)
  | some pair =>
    obtain ⟨g, hg, rfl⟩ := List.mem_map.mp (List.mem_reverse.mp (List.mem_of_find?_eq_some hfind))
    have hkey : (g.key == f.key) = true :=
      List.find?_some (p := fun x : Str × Str => x.1 == f.key) hfind
    rw [List.inj_on_of_nodup_map hnd hg hf (beq_iff_eq.mp hkey)]
    rfl

theorem isSome_field_iff (l : List Input) (k : String) :
    (field (l.map fun f => (f.key, f.encoded)) k).isSome = true ↔ k.toList ∈ l.map Input.key := by
  rw [field, Option.isSome_map, List.find?_isSome, List.mem_map]
  constructor
  · rintro ⟨pair, hpair, hkey⟩
    obtain ⟨g, hg, rfl⟩ := List.mem_map.mp (List.mem_reverse.mp hpair)
    exact ⟨g, hg, beq_iff_eq.mp hkey⟩
  · rintro ⟨g, hg, hkey⟩
    refine ⟨(g.key, g.encoded), List.mem_reverse.mpr (List.mem_map.mpr ⟨g, hg, rfl⟩), ?_⟩
    exact beq_iff_eq.mpr hkey

/-- Every field of a form has its value back, and there are no other fields. -/
theorem unescape_parsePost (l : List Input) (hne : l ≠ []) (hnd : (l.map Input.key).Nodup) :
    ∃ tbl, parsePost (body l) = some tbl ∧
      (∀ f ∈ l, (field tbl (String.ofList f.key)).map unescape = some f.value) ∧
      ∀ k : String, (field tbl k).isSome = true ↔ k.toList ∈ l.map Input.key := by
  obtain ⟨f, rest, rfl⟩ := List.exists_cons_of_ne_nil hne
  refine ⟨_, parsePost_of_formPairs (body_ne_nil f rest) (formPairs_body f rest), ?_,
    isSome_field_iff _⟩
  intro g hg
  rw [field_of_mem hnd hg, Option.map_some, Input.encoded, unescape_encode _ g.value_byte]

/-- The form of a workstation, with a value that needs every kind of encoding. -/
def wksForm : List Input :=
  [⟨"id".toList, "1".toList, .encodeURIComponent, by decide, by decide, by decide⟩,
    ⟨"jsondata".toList, "1+1 = 100%25&".toList, .param, by decide, by decide, by decide⟩]

theorem wksForm_decoded :
    body wksForm = "id=1&jsondata=1%2B1+%3D+100%2525%26".toList ∧
    ∃ tbl, parsePost (body wksForm) = some tbl ∧
      (∀ f ∈ wksForm, (field tbl (String.ofList f.key)).map unescape = some f.value) ∧
      ∀ k : String, (field tbl k).isSome = true ↔ k.toList ∈ wksForm.map Input.key :=
  ⟨by decide +kernel, unescape_parsePost wksForm (List.cons_ne_nil _ _) (by decide)⟩

end Form
end Control
end MkyBoot
