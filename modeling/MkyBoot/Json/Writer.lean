import MkyBoot.Json.Reader

/-!
# Writing JSON

The texts that `encoding/json` of Go writes, compact or on lines of their own, as bytes.
A text is one of characters on the outside and one of bytes in a file; `octets` and
`characters` go between them, and `decode` reads a file with the strings in it as texts of
characters.  `decode_write` is the round trip: whatever the layout, a value is read back.

A byte is here the character with its number, as in the reader.
-/

namespace MkyBoot
namespace Json

/-! ## Bytes and characters -/

def octet (b : UInt8) : Char := Char.ofNat b.toNat

def octets (s : Text) : Text := (bytes s).map octet

/-- The characters of bytes, with U+FFFD for each byte that begins none. -/
def charactersFrom : ℕ → List UInt8 → Text
  | _, [] => []
  | 0, _ => []
  | n + 1, b :: l =>
    match (b :: l).toByteArray.utf8DecodeChar? 0 with
    | some c => c :: charactersFrom n ((b :: l).drop c.utf8Size)
    | none => '\ufffd' :: charactersFrom n l

def characters (t : Text) : Text := charactersFrom t.length (t.map fun c => UInt8.ofNat c.toNat)

theorem octets_cons (c : Char) (s : Text) :
    octets (c :: s) = (String.utf8EncodeChar c).map octet ++ octets s := by
  rw [octets, bytes, List.flatMap_cons, List.map_append]
  rfl

theorem toNat_octet (b : UInt8) : (octet b).toNat = b.toNat := by
  have hb := b.toNat_lt
  have hvalid : b.toNat.isValidChar := Or.inl (by omega)
  rw [octet, Char.toNat_ofNat, if_pos hvalid]

theorem map_octet (l : List UInt8) :
    (l.map octet).map (fun c => UInt8.ofNat c.toNat) = l := by
  rw [List.map_map]
  conv_rhs => rw [← List.map_id l]
  refine List.map_congr_left fun b _ => ?_
  show UInt8.ofNat (octet b).toNat = b
  rw [toNat_octet, UInt8.ofNat_toNat]

theorem charactersFrom_bytes {n : ℕ} (s : Text) (hn : (bytes s).length ≤ n) :
    charactersFrom n (bytes s) = s := by
  induction s generalizing n with
  | nil => cases n <;> rfl
  | cons c s ih =>
    have hcons : bytes (c :: s) = String.utf8EncodeChar c ++ bytes s := List.flatMap_cons
    have hlen : (String.utf8EncodeChar c).length = c.utf8Size := String.length_utf8EncodeChar c
    have hpos := c.utf8Size_pos
    have hdecode : (String.utf8EncodeChar c ++ bytes s).toByteArray.utf8DecodeChar? 0 = some c := by
      rw [List.toByteArray_append]
      exact ByteArray.utf8DecodeChar?_utf8EncodeChar_append
    have hdrop : (String.utf8EncodeChar c ++ bytes s).drop c.utf8Size = bytes s := by
      rw [← hlen, List.drop_left]
    rw [hcons, List.length_append, hlen] at hn
    rw [hcons]
    cases hl : String.utf8EncodeChar c ++ bytes s with
    | nil =>
      have hzero := congrArg List.length hl
      rw [List.length_append, hlen, List.length_nil] at hzero
      omega
    | cons b l =>
      cases n with
      | zero => omega
      | succ n =>
        rw [charactersFrom, ← hl, hdecode]
        dsimp only
        rw [hdrop, ih (by omega)]

/-- Bytes say which characters they were. -/
theorem characters_octets (s : Text) : characters (octets s) = s := by
  rw [characters, octets, map_octet, List.length_map]
  exact charactersFrom_bytes s (Nat.le_refl _)

/-! ## Strings -/

/-- The characters with an escape of two characters. -/
def shortEscapes : List (Char × Char) :=
  [('"', '"'), ('\\', '\\'), ('\x08', 'b'), ('\x0c', 'f'), ('\n', 'n'), ('\r', 'r'), ('\t', 't')]

def unicodeEscape (n : ℕ) : Text :=
  ['\\', 'u', Nat.digitChar (n / 4096 % 16), Nat.digitChar (n / 256 % 16),
    Nat.digitChar (n / 16 % 16), Nat.digitChar (n % 16)]

/-- Control characters are escaped, and what HTML or JavaScript could take for its own. -/
def escapeChar (c : Char) : Text :=
  match shortEscapes.lookup c with
  | some d => ['\\', d]
  | none =>
    if c.toNat < 0x20 ∨ c ∈ ['<', '>', '&', '\u2028', '\u2029'] then unicodeEscape c.toNat
    else octets [c]

def quote (s : Text) : Text := '"' :: (s.flatMap escapeChar ++ ['"'])

theorem run_unicodeEscape {n : ℕ} (h : n < 0x10000) (p : Place) (read : List Piece) :
    run (.string p read .none) (unicodeEscape n) = .string p (.code n :: read) .none := by
  have hdigit (m k d : ℕ) (hd : d < 16) : step (.string p read (.unicode m k)) (Nat.digitChar d) =
      if k ≤ 1 then .string p (.code (16 * m + d) :: read) .none
      else .string p read (.unicode (16 * m + d) (k - 1)) := by
    show inString p read (.unicode m k) (Nat.digitChar d) = _
    rw [inString, hexValue_digitChar d hd]
  have hstart : run (.string p read .none) ['\\', 'u'] = .string p read (.unicode 0 4) := rfl
  have hsplit : unicodeEscape n = ['\\', 'u'] ++ [Nat.digitChar (n / 4096 % 16),
      Nat.digitChar (n / 256 % 16), Nat.digitChar (n / 16 % 16), Nat.digitChar (n % 16)] := rfl
  have hcode :
      16 * (16 * (16 * (16 * 0 + n / 4096 % 16) + n / 256 % 16) + n / 16 % 16) + n % 16 = n := by
    omega
  rw [hsplit, run_append, hstart]
  show step (step (step (step _ _) _) _) _ = _
  rw [hdigit 0 4 _ (Nat.mod_lt _ (by decide)), if_neg (by decide),
    hdigit _ _ _ (Nat.mod_lt _ (by decide)), if_neg (by decide),
    hdigit _ _ _ (Nat.mod_lt _ (by decide)), if_neg (by decide),
    hdigit _ _ _ (Nat.mod_lt _ (by decide)), if_pos (by decide), hcode]

/-- A character below 128 is its own byte. -/
theorem octets_ascii {c : Char} (h : c.toNat < 0x80) : octets [c] = [c] := by
  have hencode : String.utf8EncodeChar c = [UInt8.ofNat c.toNat] := by
    rw [String.utf8EncodeChar]
    exact if_pos (show c.toNat ≤ 127 by omega)
  rw [octets_cons, hencode]
  show [Char.ofNat (UInt8.ofNat c.toNat).toNat] = [c]
  rw [UInt8.toNat_ofNat', Nat.mod_eq_of_lt (by omega), Char.ofNat_toNat]

theorem characters_ascii {t : Text} (h : ∀ c ∈ t, c.toNat < 0x80) : characters t = t := by
  have hoctets : octets t = t := by
    induction t with
    | nil => rfl
    | cons c t ih =>
      have hc : octets [c] = [c] := octets_ascii (h c List.mem_cons_self)
      have ht : octets t = t := ih fun d hd => h d (List.mem_cons_of_mem c hd)
      rw [octets_cons, ht]
      rw [octets_cons, octets, bytes, List.flatMap_nil, List.map_nil, List.append_nil] at hc
      rw [hc]
      rfl
  conv_lhs => rw [← hoctets]
  exact characters_octets t

theorem utf8_ascii {c : Char} (h : c.toNat < 0x80) : utf8 c.toNat = octets [c] := by
  rw [octets_ascii h, utf8, if_pos h, Char.ofNat_toNat]

/-- The other characters have bytes from 128 on. -/
theorem le_of_mem_octets {c d : Char} (h : 0x80 ≤ c.toNat) (hd : d ∈ octets [c]) :
    0x80 ≤ d.toNat := by
  rw [octets_cons, show octets [] = [] from rfl, List.append_nil] at hd
  obtain ⟨b, hb, rfl⟩ := List.mem_map.mp hd
  rw [toNat_octet]
  have hv : ¬ c.val.toNat ≤ 127 := by
    show ¬ c.toNat ≤ 127
    omega
  rw [String.utf8EncodeChar, if_neg hv] at hb
  split_ifs at hb <;> simp only [List.mem_cons, List.not_mem_nil, or_false] at hb <;>
    rcases hb with rfl | rfl | rfl | rfl <;> rw [UInt8.toNat_ofNat'] <;> omega

theorem plain_of_mem_octets {c d : Char} (hc : Plain c) (hd : d ∈ octets [c]) : Plain d := by
  by_cases hascii : c.toNat < 0x80
  · rw [octets_ascii hascii] at hd
    exact List.mem_singleton.mp hd ▸ hc
  · have hd := le_of_mem_octets (by omega) hd
    refine ⟨?_, ?_, by omega⟩
    · intro h
      rw [h] at hd
      exact absurd hd (by decide)
    · intro h
      rw [h] at hd
      exact absurd hd (by decide)

/-- The parts of a string that spell a text, whatever follows them. -/
def Spells (ps : List Piece) (t : Text) : Prop := ∀ rest, textOf (ps ++ rest) = t ++ textOf rest

theorem Spells.append {ps qs : List Piece} {t u : Text} (h : Spells ps t) (h' : Spells qs u) :
    Spells (ps ++ qs) (t ++ u) := by
  intro rest
  rw [List.append_assoc, h, h', List.append_assoc]

theorem spells_bytes (t : Text) : Spells (t.map .byte) t := by
  intro rest
  induction t with
  | nil => rfl
  | cons c t ih =>
    show c :: textOf (t.map .byte ++ rest) = _
    rw [ih]
    rfl

/-- A code that is no half of a pair goes together with no other one. -/
theorem spells_code {n : ℕ} (hhigh : isHigh n = false) (hlow : isLow n = false) :
    Spells [.code n] (utf8 n) := by
  have hcode : codeText n = utf8 n := by rw [codeText, hhigh, hlow, if_neg (by decide)]
  intro rest
  rw [← hcode, List.singleton_append]
  cases rest with
  | nil => rfl
  | cons q rest =>
    cases q with
    | byte c => rfl
    | code m =>
      rw [textOf, hhigh, Bool.false_and, if_neg (by decide)]

theorem run_escapeChar (c : Char) (p : Place) (read : List Piece) :
    ∃ ps, run (.string p read .none) (escapeChar c) = .string p (ps.reverse ++ read) .none ∧
      Spells ps (octets [c]) := by
  rw [escapeChar]
  cases hshort : shortEscapes.lookup c with
  | some d =>
    obtain ⟨l, r, hsplit, -⟩ := List.lookup_eq_some_iff.mp hshort
    have hmem : (c, d) ∈ shortEscapes := by rw [hsplit]; simp
    refine ⟨(octets [c]).map .byte, ?_, spells_bytes _⟩
    simp only [shortEscapes, List.mem_cons, Prod.mk.injEq, List.not_mem_nil, or_false] at hmem
    rcases hmem with ⟨rfl, rfl⟩ | ⟨rfl, rfl⟩ | ⟨rfl, rfl⟩ | ⟨rfl, rfl⟩ | ⟨rfl, rfl⟩ | ⟨rfl, rfl⟩ |
      ⟨rfl, rfl⟩ <;> rfl
  | none =>
    dsimp only
    by_cases hc : c.toNat < 0x20 ∨ c ∈ ['<', '>', '&', '\u2028', '\u2029']
    · rw [if_pos hc]
      have hutf8 : c.toNat < 0xd800 ∧ utf8 c.toNat = octets [c] := by
        rcases hc with hc | hc
        · exact ⟨by omega, utf8_ascii (by omega)⟩
        · simp only [List.mem_cons, List.not_mem_nil, or_false] at hc
          rcases hc with rfl | rfl | rfl | rfl | rfl <;> exact ⟨by decide, by decide⟩
      refine ⟨[.code c.toNat], run_unicodeEscape (by omega) p read, ?_⟩
      rw [← hutf8.2]
      refine spells_code ?_ ?_
      · rw [isHigh, decide_eq_false (by omega), Bool.false_and]
      · rw [isLow, decide_eq_false (by omega), Bool.false_and]
    · rw [if_neg hc]
      have hplain : Plain c := by
        refine ⟨?_, ?_, by omega⟩
        · rintro rfl
          cases hshort
        · rintro rfl
          cases hshort
      exact ⟨_, run_plain (fun d hd => plain_of_mem_octets hplain hd) p read, spells_bytes _⟩

theorem run_escaped (s : Text) (p : Place) (read : List Piece) :
    ∃ ps, run (.string p read .none) (s.flatMap escapeChar) =
      .string p (ps.reverse ++ read) .none ∧ Spells ps (octets s) := by
  induction s generalizing read with
  | nil => exact ⟨[], rfl, fun _ => rfl⟩
  | cons c s ih =>
    have hsplit : octets (c :: s) = octets [c] ++ octets s := by
      rw [octets_cons, octets_cons c [], show octets [] = [] from rfl, List.append_nil]
    obtain ⟨ps, hps, hspells⟩ := run_escapeChar c p read
    obtain ⟨qs, hqs, hspells'⟩ := ih (ps.reverse ++ read)
    refine ⟨ps ++ qs, ?_, hsplit ▸ hspells.append hspells'⟩
    rw [List.flatMap_cons, run_append, hps, hqs, List.reverse_append, List.append_assoc]

/-! ## Values -/

/-- How values are set out: what stands before an element at each depth, and what stands
after a colon. -/
structure Layout where
  line : ℕ → Text
  space : Text
  line_blank : ∀ n, ∀ c ∈ line n, isBlank c = true
  space_blank : ∀ c ∈ space, isBlank c = true

/-- `json.Marshal` -/
def Layout.compact : Layout := ⟨fun _ => [], [], by simp, by simp⟩

/-- `json.MarshalIndent` with two blanks for each level -/
def Layout.indented : Layout where
  line n := '\n' :: List.replicate (2 * n) ' '
  space := [' ']
  line_blank n c hc := by
    rcases List.mem_cons.mp hc with rfl | hc
    · rfl
    · rw [List.eq_of_mem_replicate hc]
      rfl
  space_blank c hc := by
    rw [List.mem_singleton.mp hc]
    rfl

mutual

def write (L : Layout) (n : ℕ) : Value → Text
  | .null => Literal.null.name
  | .bool true => Literal.true.name
  | .bool false => Literal.false.name
  | .num t => t
  | .str s => quote s
  | .arr [] => ['[', ']']
  | .arr (v :: vs) =>
    '[' :: (L.line (n + 1) ++ (write L (n + 1) v ++
      (writeItems L (n + 1) vs ++ (L.line n ++ [']']))))
  | .obj [] => ['\x7b', '\x7d']
  | .obj ((k, v) :: ms) =>
    '\x7b' :: (L.line (n + 1) ++ (quote k ++ (':' :: (L.space ++ (write L (n + 1) v ++
      (writeMembers L (n + 1) ms ++ (L.line n ++ ['\x7d'])))))))

/-- The elements of an array after the first one. -/
def writeItems (L : Layout) (n : ℕ) : List Value → Text
  | [] => []
  | v :: vs => ',' :: (L.line n ++ (write L n v ++ writeItems L n vs))

/-- The members of an object after the first one. -/
def writeMembers (L : Layout) (n : ℕ) : List (Text × Value) → Text
  | [] => []
  | (k, v) :: ms =>
    ',' :: (L.line n ++ (quote k ++ (':' :: (L.space ++ (write L n v ++ writeMembers L n ms)))))

end

mutual

/-- The value with other texts in its strings. -/
def Value.mapText (f : Text → Text) : Value → Value
  | .null => .null
  | .bool b => .bool b
  | .num t => .num t
  | .str s => .str (f s)
  | .arr vs => .arr (mapTexts f vs)
  | .obj ms => .obj (mapMembers f ms)

def mapTexts (f : Text → Text) : List Value → List Value
  | [] => []
  | v :: vs => v.mapText f :: mapTexts f vs

def mapMembers (f : Text → Text) : List (Text × Value) → List (Text × Value)
  | [] => []
  | (k, v) :: ms => (f k, v.mapText f) :: mapMembers f ms

end

mutual

theorem mapText_mapText {f g : Text → Text} (h : ∀ s, g (f s) = s) :
    (v : Value) → (v.mapText f).mapText g = v
  | .null => rfl
  | .bool _ => rfl
  | .num _ => rfl
  | .str s => congrArg Value.str (h s)
  | .arr vs => congrArg Value.arr (mapTexts_mapTexts h vs)
  | .obj ms => congrArg Value.obj (mapMembers_mapMembers h ms)

theorem mapTexts_mapTexts {f g : Text → Text} (h : ∀ s, g (f s) = s) :
    (vs : List Value) → mapTexts g (mapTexts f vs) = vs
  | [] => rfl
  | v :: vs => congrArg₂ List.cons (mapText_mapText h v) (mapTexts_mapTexts h vs)

theorem mapMembers_mapMembers {f g : Text → Text} (h : ∀ s, g (f s) = s) :
    (ms : List (Text × Value)) → mapMembers g (mapMembers f ms) = ms
  | [] => rfl
  | (k, v) :: ms =>
    congrArg₂ List.cons (Prod.ext (h k) (mapText_mapText h v)) (mapMembers_mapMembers h ms)

end

/-- The value of a file, with its strings as texts of characters. -/
def decode (t : Text) : Option Value := (read t).map (Value.mapText characters)

/-! ### Numbers -/

/-- The part that the first character of a number begins. -/
def Part.first (c : Char) : Option Part :=
  if c = '-' then some .minus else if c = '0' then some .zero
  else if c.isDigit then some .int else none

def isNumber : Text → Bool
  | [] => false
  | c :: t =>
    match (Part.first c).bind fun p => t.foldlM Part.next p with
    | some p => p.ends
    | none => false

mutual

/-- The numbers in a value are numbers. -/
def Value.Numeric : Value → Prop
  | .null | .bool _ | .str _ => True
  | .num t => isNumber t = true
  | .arr vs => NumericItems vs
  | .obj ms => NumericMembers ms

def NumericItems : List Value → Prop
  | [] => True
  | v :: vs => v.Numeric ∧ NumericItems vs

def NumericMembers : List (Text × Value) → Prop
  | [] => True
  | (_, v) :: ms => v.Numeric ∧ NumericMembers ms

end

/-- What can follow a value. -/
def stopChars : List Char := [' ', '\t', '\n', '\r', ',', ']', '\x7d']

def Stops (u : Text) : Prop := ∃ c w, u = c :: w ∧ c ∈ stopChars

theorem Part.next_stop (p : Part) {c : Char} (h : c ∈ stopChars) : p.next c = none := by
  simp only [stopChars, List.mem_cons, List.not_mem_nil, or_false] at h
  rcases h with rfl | rfl | rfl | rfl | rfl | rfl | rfl <;> cases p <;> rfl

theorem run_parts {p q : Part} {t : Text} (h : t.foldlM Part.next p = some q) (read : Text)
    (st : List Frame) : run (.number p read st) t = .number q (t.reverse ++ read) st := by
  induction t generalizing p read with
  | nil => rw [← Option.some.inj h]; rfl
  | cons c t ih =>
    rw [List.foldlM_cons] at h
    obtain ⟨p', hp', hrest⟩ := Option.bind_eq_some_iff.mp h
    show run (inNumber p read st c) t = _
    rw [inNumber, hp']
    dsimp only
    rw [ih hrest, List.reverse_cons, List.append_assoc]
    rfl

theorem begin_number {c : Char} {p : Part} (h : Part.first c = some p) (st : List Frame) :
    isBlank c = false ∧ begin st c = .number p [c] st := by
  rw [Part.first] at h
  by_cases hminus : c = '-'
  · rw [if_pos hminus] at h
    rw [← Option.some.inj h, hminus]
    exact ⟨rfl, rfl⟩
  rw [if_neg hminus] at h
  by_cases hzero : c = '0'
  · rw [if_pos hzero] at h
    rw [← Option.some.inj h, hzero]
    exact ⟨rfl, rfl⟩
  rw [if_neg hzero] at h
  by_cases hdigit : c.isDigit = true
  · rw [if_pos hdigit] at h
    obtain rfl := Option.some.inj h
    have hne (d : Char) (hd : d.isDigit = false) : c ≠ d := fun heq => by
      rw [heq, hd] at hdigit
      cases hdigit
    refine ⟨?_, ?_⟩
    · simp [isBlank, hne ' ' rfl, hne '\t' rfl, hne '\n' rfl, hne '\r' rfl]
    · rw [begin, if_neg (hne _ rfl), if_neg (hne _ rfl), if_neg (hne _ rfl), if_neg (hne _ rfl),
        if_neg (hne _ rfl), if_neg (hne _ rfl), if_neg hminus, if_neg hzero, if_pos hdigit]
  · rw [if_neg hdigit] at h
    cases h

theorem run_number {t : Text} (h : isNumber t = true) (st : List Frame) :
    ∃ p : Part, p.ends = true ∧ run (.value st) t = .number p t.reverse st := by
  cases t with
  | nil => cases h
  | cons c t =>
    rw [isNumber] at h
    cases hparts : (Part.first c).bind fun p => t.foldlM Part.next p with
    | none =>
      rw [hparts] at h
      cases h
    | some q =>
      rw [hparts] at h
      obtain ⟨p, hfirst, hrest⟩ := Option.bind_eq_some_iff.mp hparts
      obtain ⟨hblank, hbegin⟩ := begin_number hfirst st
      have hstep : step (.value st) c = .number p [c] st := by
        show (if isBlank c then _ else begin st c) = _
        rw [hblank, hbegin]
        rfl
      refine ⟨q, h, ?_⟩
      show run (step (.value st) c) t = _
      rw [hstep, run_parts hrest, List.reverse_cons]

/-! ### Reading what is written -/

theorem run_same {s : State} {t : Text} (h : ∀ c ∈ t, step s c = s) : run s t = s := by
  induction t with
  | nil => rfl
  | cons c t ih =>
    show run (step s c) t = s
    rw [h c List.mem_cons_self]
    exact ih fun d hd => h d (List.mem_cons_of_mem c hd)

/-- Blanks are passed over between the tokens. -/
theorem run_blanks {s : State} {b : Text} (hb : ∀ c ∈ b, isBlank c = true)
    (hs : ∀ c, isBlank c = true → step s c = s) (u : Text) : run s (b ++ u) = run s u := by
  rw [run_append, run_same fun c hc => hs c (hb c hc)]

theorem step_value_blank {st : List Frame} {c : Char} (h : isBlank c = true) :
    step (.value st) c = .value st := if_pos h

theorem step_key_blank {ms : List (Text × Value)} {st : List Frame} {c : Char}
    (h : isBlank c = true) : step (.key ms st) c = .key ms st := if_pos h

theorem step_rest_blank {o : Open} {st : List Frame} {c : Char} (h : isBlank c = true) :
    step (.rest o st) c = .rest o st := if_pos h

theorem step_opened_blank {o : Open} {st : List Frame} {c : Char} (h : isBlank c = true) :
    step (.opened o st) c = .opened o st := by
  cases o <;> exact if_pos h

/-- After a value its container goes on as it would after the token. -/
theorem step_completed (v : Value) (st : List Frame) (c : Char) :
    step (completed v st) c = after (completed v st) c := by
  cases st with
  | nil => rfl
  | cons f st => cases f <;> rfl

theorem run_quote (s : Text) (p : Place) (u : Text) :
    run (.string p [] .none) (s.flatMap escapeChar ++ ('"' :: u)) =
      run (quoted (octets s) p) u := by
  obtain ⟨ps, hps, hspells⟩ := run_escaped s p []
  have htext : textOf ps = octets s := by
    have hend := hspells []
    rwa [List.append_nil, show textOf [] = [] from rfl, List.append_nil] at hend
  rw [run_append, hps, List.append_nil]
  show run (quoted (textOf ps.reverse.reverse) p) u = _
  rw [List.reverse_reverse, htext]

/-- A value is read from its text, whatever follows it. -/
def Reads (t : Text) (v : Value) : Prop :=
  ∀ st u, Stops u → run (.value st) (t ++ u) = run (completed v st) u

theorem reads_str (s : Text) : Reads (quote s) (.str (octets s)) := by
  intro st u _
  show run (.string (.value st) [] .none) ((s.flatMap escapeChar ++ ['"']) ++ u) = _
  rw [List.append_assoc]
  show run _ (s.flatMap escapeChar ++ ('"' :: u)) = _
  rw [run_quote]
  rfl

theorem reads_literal (l : Literal) : Reads l.name l.value := by
  intro st u _
  cases l <;> rfl

theorem reads_num {t : Text} (h : isNumber t = true) : Reads t (.num t) := by
  intro st u hu
  obtain ⟨c, w, rfl, hc⟩ := hu
  obtain ⟨p, hends, hrun⟩ := run_number h st
  rw [run_append, hrun]
  show run (inNumber p t.reverse st c) w = run (step (completed (.num t) st) c) w
  rw [inNumber, p.next_stop hc, step_completed]
  dsimp only
  rw [if_pos hends, List.reverse_reverse]

theorem stops_cons {c : Char} (h : c ∈ stopChars) (u : Text) : Stops (c :: u) := ⟨c, u, rfl, h⟩

theorem stops_blanks {b u : Text} (hb : ∀ c ∈ b, isBlank c = true) (hu : Stops u) :
    Stops (b ++ u) := by
  cases b with
  | nil => exact hu
  | cons c b =>
    have hc : c ∈ [' ', '\t', '\n', '\r'] := of_decide_eq_true (hb c List.mem_cons_self)
    exact stops_cons (List.mem_append_left [',', ']', '\x7d'] hc) (b ++ u)

section Containers

variable (L : Layout) {n : ℕ} {st : List Frame} {u : Text}

theorem stops_close {c : Char} (h : c ∈ stopChars) : Stops (L.line n ++ (c :: u)) :=
  stops_blanks (L.line_blank n) (stops_cons h u)

theorem stops_items (vs : List Value) (hu : Stops u) : Stops (writeItems L n vs ++ u) := by
  cases vs with
  | nil => exact hu
  | cons v vs => exact stops_cons (by decide) _

theorem stops_members (ms : List (Text × Value)) (hu : Stops u) :
    Stops (writeMembers L n ms ++ u) := by
  cases ms with
  | nil => exact hu
  | cons m ms => exact stops_cons (by decide) _

theorem run_close_arr (done : List Value) :
    run (.rest (.arr done) st) (L.line n ++ (']' :: u)) =
      run (completed (.arr done.reverse) st) u := by
  rw [run_blanks (L.line_blank n) fun c hc => step_rest_blank hc]
  rfl

theorem run_close_obj (done : List (Text × Value)) :
    run (.rest (.obj done) st) (L.line n ++ ('\x7d' :: u)) =
      run (completed (.obj done.reverse) st) u := by
  rw [run_blanks (L.line_blank n) fun c hc => step_rest_blank hc]
  rfl

/-- A member of an object, from the opening quote of its key. -/
theorem run_member (done : List (Text × Value)) (k : Text) {t : Text} {v : Value}
    (ht : Reads t v) (hu : Stops u) :
    run (.string (.key done st) [] .none)
        (k.flatMap escapeChar ++ ('"' :: (':' :: (L.space ++ (t ++ u))))) =
      run (.rest (.obj ((octets k, v) :: done)) st) u := by
  rw [run_quote]
  show run (.value (.member done (octets k) :: st)) (L.space ++ (t ++ u)) = _
  rw [run_blanks L.space_blank fun c hc => step_value_blank hc]
  exact ht (.member done (octets k) :: st) u hu

/-- The first element of an array is read as the ones after a comma. -/
theorem run_first {c : Char} (hblank : isBlank c = false) (hclose : c ≠ ']') (t : Text) :
    run (.opened (.arr []) st) (c :: t) = run (.value (.item [] :: st)) (c :: t) := by
  show run (if isBlank c then _ else if c = ']' then _ else begin (.item [] :: st) c) t =
    run (if isBlank c then _ else begin (.item [] :: st) c) t
  rw [hblank, if_neg hclose]
  rfl

theorem head_write {v : Value} (hv : v.Numeric) :
    ∃ c t, write L n v = c :: t ∧ isBlank c = false ∧ c ≠ ']' := by
  cases v with
  | null => exact ⟨_, _, rfl, rfl, by decide⟩
  | bool b => cases b <;> exact ⟨_, _, rfl, rfl, by decide⟩
  | num t =>
    have hnum : isNumber t = true := hv
    cases t with
    | nil => cases hnum
    | cons c t =>
      rw [isNumber] at hnum
      cases hfirst : Part.first c with
      | none =>
        rw [hfirst] at hnum
        cases hnum
      | some p =>
        refine ⟨c, t, by rw [write], (begin_number hfirst []).1, ?_⟩
        rintro rfl
        cases hfirst
  | str s => exact ⟨_, _, rfl, rfl, by decide⟩
  | arr vs => cases vs <;> exact ⟨_, _, rfl, rfl, by decide⟩
  | obj ms => cases ms <;> exact ⟨_, _, rfl, rfl, by decide⟩

end Containers

mutual

theorem reads_write (L : Layout) : (v : Value) → v.Numeric → (n : ℕ) →
    Reads (write L n v) (v.mapText octets)
  | .null, _, _ => reads_literal .null
  | .bool true, _, _ => reads_literal .true
  | .bool false, _, _ => reads_literal .false
  | .num _, h, _ => reads_num h
  | .str s, _, _ => reads_str s
  | .arr [], _, _ => fun _ _ _ => rfl
  | .arr (v :: vs), h, n => by
    intro st u _
    obtain ⟨c, t, hhead, hblank, hclose⟩ := head_write L h.1 (n := n + 1)
    have hstops : Stops (writeItems L (n + 1) vs ++ (L.line n ++ (']' :: u))) :=
      stops_items L vs (stops_close L (by decide))
    show run (.opened (.arr []) st) ((L.line (n + 1) ++ (write L (n + 1) v ++
      (writeItems L (n + 1) vs ++ (L.line n ++ [']'])))) ++ u) = _
    simp only [List.append_assoc, List.singleton_append]
    rw [run_blanks (L.line_blank (n + 1)) fun c hc => step_opened_blank hc, hhead, List.cons_append,
      run_first hblank hclose, ← List.cons_append, ← hhead,
      reads_write L v h.1 (n + 1) (.item [] :: st) _ hstops]
    show run (.rest (.arr [v.mapText octets]) st) _ = _
    rw [run_writeItems L vs h.2 (n + 1) [v.mapText octets] st _ (stops_close L (by decide)),
      run_close_arr, List.reverse_append, List.reverse_reverse]
    rfl
  | .obj [], _, _ => fun _ _ _ => rfl
  | .obj ((k, v) :: ms), h, n => by
    intro st u _
    have hstops : Stops (writeMembers L (n + 1) ms ++ (L.line n ++ ('\x7d' :: u))) :=
      stops_members L ms (stops_close L (by decide))
    show run (.opened (.obj []) st) ((L.line (n + 1) ++ (quote k ++ (':' :: (L.space ++
      (write L (n + 1) v ++ (writeMembers L (n + 1) ms ++ (L.line n ++ ['\x7d']))))))) ++ u) = _
    simp only [quote, List.append_assoc, List.cons_append, List.nil_append]
    rw [run_blanks (L.line_blank (n + 1)) fun c hc => step_opened_blank hc]
    show run (.string (.key [] st) [] .none) _ = _
    rw [run_member L [] k (reads_write L v h.1 (n + 1)) hstops,
      run_writeMembers L ms h.2 (n + 1) [(octets k, v.mapText octets)] st _
        (stops_close L (by decide)),
      run_close_obj, List.reverse_append, List.reverse_reverse]
    rfl

theorem run_writeItems (L : Layout) : (vs : List Value) → NumericItems vs → (n : ℕ) →
    (done : List Value) → (st : List Frame) → (u : Text) → Stops u →
    run (.rest (.arr done) st) (writeItems L n vs ++ u) =
      run (.rest (.arr ((mapTexts octets vs).reverse ++ done)) st) u
  | [], _, _, _, _, _, _ => rfl
  | v :: vs, h, n, done, st, u, hu => by
    show run (.value (.item done :: st)) ((L.line n ++ (write L n v ++ writeItems L n vs)) ++ u) = _
    simp only [List.append_assoc]
    rw [run_blanks (L.line_blank n) fun c hc => step_value_blank hc,
      reads_write L v h.1 n (.item done :: st) _ (stops_items L vs hu)]
    show run (.rest (.arr (v.mapText octets :: done)) st) _ = _
    rw [run_writeItems L vs h.2 n (v.mapText octets :: done) st u hu, mapTexts,
      List.reverse_cons, List.append_assoc]
    rfl

theorem run_writeMembers (L : Layout) : (ms : List (Text × Value)) → NumericMembers ms → (n : ℕ) →
    (done : List (Text × Value)) → (st : List Frame) → (u : Text) → Stops u →
    run (.rest (.obj done) st) (writeMembers L n ms ++ u) =
      run (.rest (.obj ((mapMembers octets ms).reverse ++ done)) st) u
  | [], _, _, _, _, _, _ => rfl
  | (k, v) :: ms, h, n, done, st, u, hu => by
    show run (.key done st) ((L.line n ++ (quote k ++ (':' :: (L.space ++ (write L n v ++
      writeMembers L n ms))))) ++ u) = _
    simp only [quote, List.append_assoc, List.cons_append, List.nil_append]
    rw [run_blanks (L.line_blank n) fun c hc => step_key_blank hc]
    show run (.string (.key done st) [] .none) _ = _
    rw [run_member L done k (reads_write L v h.1 n) (stops_members L ms hu),
      run_writeMembers L ms h.2 n ((octets k, v.mapText octets) :: done) st u hu, mapMembers,
      List.reverse_cons, List.append_assoc]
    rfl

end

/-- A value is read back from the text that is written for it, with a newline at its end. -/
theorem decode_write (L : Layout) {v : Value} (hv : v.Numeric) :
    decode (write L 0 v ++ ['\n']) = some v := by
  have hread : read (write L 0 v ++ ['\n']) = some (v.mapText octets) := by
    rw [read, reads_write L v hv 0 [] ['\n'] (stops_cons (by decide) [])]
    rfl
  rw [decode, hread, Option.map_some, mapText_mapText characters_octets]

/-- A newline ends what it follows, and adds nothing. -/
theorem finish_of_newline {s : State} {v : Value} (h : finish (step s '\n') = some v) :
    finish s = some v := by
  cases s with
  | done w => exact h
  | number p read st =>
    change finish (inNumber p read st '\n') = some v at h
    rw [inNumber, p.next_stop (by decide)] at h
    dsimp only at h
    split at h
    · rename_i hends
      cases st with
      | nil =>
        rw [finish, if_pos hends]
        exact h
      | cons f st =>
        cases f with
        | item vs => cases h
        | member ms k => cases h
    · cases h
  | string p read esc =>
    cases esc with
    | none | backslash | unicode n count => cases h
  | literal l n st =>
    change finish (inLiteral l n st '\n') = some v at h
    rw [inLiteral] at h
    split at h
    · cases h
    · rename_i d ds hdrop
      have hmem : d ∈ l.name := List.mem_of_mem_drop (hdrop ▸ List.mem_cons_self)
      have hvisible : '\n' ∉ l.name := by cases l <;> decide
      have hne : '\n' ≠ d := fun heq => hvisible (heq ▸ hmem)
      rw [if_neg hne] at h
      cases h
  | opened o st =>
    cases o with
    | arr vs => cases h
    | obj ms => cases h
  | value st | rest o st | key ms st | colon ms k st | failed => cases h

/-- The newline can be left out. -/
theorem decode_write_bare (L : Layout) {v : Value} (hv : v.Numeric) :
    decode (write L 0 v) = some v := by
  obtain ⟨w, hread, hw⟩ := Option.map_eq_some_iff.mp (decode_write L hv)
  rw [read, run_append] at hread
  rw [decode, read, finish_of_newline hread, Option.map_some, hw]

/-! ### Integers -/

def intText : ℤ → Text
  | .ofNat n => Nat.toDigits 10 n
  | .negSucc n => '-' :: Nat.toDigits 10 (n + 1)

/-- A number without fraction and exponent, which is an integer. -/
def intValue (t : Text) : Option ℤ :=
  let ds := if t.head? = some '-' then t.tail else t
  if ds ≠ [] ∧ ds.all Char.isDigit then
    some (if t.head? = some '-' then -(Nat.ofDigitChars 10 ds 0) else Nat.ofDigitChars 10 ds 0)
  else none

theorem isDigit_of_mem_toDigits {n : ℕ} {c : Char} (h : c ∈ Nat.toDigits 10 n) :
    c.isDigit = true := Nat.isDigit_of_mem_toDigits (by decide) (by decide) h

theorem head_toDigits {n : ℕ} (hn : 0 < n) :
    ∃ c ds, Nat.toDigits 10 n = c :: ds ∧ c ≠ '0' := by
  induction n using Nat.strongRecOn with
  | ind n ih =>
    by_cases hlt : n < 10
    · refine ⟨Nat.digitChar n, [], Nat.toDigits_of_lt_base hlt, ?_⟩
      interval_cases n <;> decide
    · obtain ⟨c, ds, hds, hc⟩ := ih (n / 10) (by omega) (by omega)
      refine ⟨c, ds ++ [Nat.digitChar (n % 10)], ?_, hc⟩
      rw [Nat.toDigits_of_base_le (by decide) (by omega), hds, List.cons_append]

theorem foldlM_digits {ds : Text} (h : ∀ c ∈ ds, c.isDigit = true) :
    ds.foldlM Part.next .int = some .int := by
  induction ds with
  | nil => rfl
  | cons c ds ih =>
    have hnext : Part.next .int c = some .int := if_pos (h c List.mem_cons_self)
    rw [List.foldlM_cons, hnext]
    exact ih fun d hd => h d (List.mem_cons_of_mem c hd)

/-- The digits of a number that begins with `p` in front of them. -/
theorem foldlM_toDigits {n : ℕ} (hn : 0 < n) {p : Part} (hzero : ∀ c, c ≠ '0' →
    c.isDigit = true → p.next c = some .int) :
    (Nat.toDigits 10 n).foldlM Part.next p = some .int := by
  obtain ⟨c, ds, hds, hc⟩ := head_toDigits hn
  have hdigit (d : Char) (hd : d ∈ c :: ds) : d.isDigit = true :=
    isDigit_of_mem_toDigits (hds ▸ hd)
  rw [hds, List.foldlM_cons, hzero c hc (hdigit c List.mem_cons_self)]
  exact foldlM_digits fun d hd => hdigit d (List.mem_cons_of_mem c hd)

theorem isNumber_intText (n : ℤ) : isNumber (intText n) = true := by
  cases n with
  | ofNat n =>
    show isNumber (Nat.toDigits 10 n) = true
    by_cases hn : n = 0
    · rw [hn]
      rfl
    · obtain ⟨c, ds, hds, hc⟩ := head_toDigits (Nat.pos_of_ne_zero hn)
      have hdigit (d : Char) (hd : d ∈ c :: ds) : d.isDigit = true :=
        isDigit_of_mem_toDigits (hds ▸ hd)
      have hminus : c ≠ '-' := by
        rintro rfl
        exact absurd (hdigit '-' List.mem_cons_self) (by decide)
      have hfirst : Part.first c = some .int := by
        rw [Part.first, if_neg hminus, if_neg hc, if_pos (hdigit c List.mem_cons_self)]
      rw [hds, isNumber, hfirst, Option.bind_some,
        foldlM_digits fun d hd => hdigit d (List.mem_cons_of_mem c hd)]
      rfl
  | negSucc n =>
    have hfold : (Nat.toDigits 10 (n + 1)).foldlM Part.next .minus = some .int := by
      refine foldlM_toDigits (Nat.succ_pos n) fun c hc hdigit => ?_
      rw [Part.next, if_neg hc, if_pos hdigit]
    have hfirst : Part.first '-' = some .minus := rfl
    show isNumber ('-' :: Nat.toDigits 10 (n + 1)) = true
    rw [isNumber, hfirst, Option.bind_some, hfold]
    rfl

theorem intValue_intText (n : ℤ) : intValue (intText n) = some n := by
  have hall (n : ℕ) : (Nat.toDigits 10 n).all Char.isDigit = true :=
    List.all_eq_true.mpr fun c hc => isDigit_of_mem_toDigits hc
  cases n with
  | ofNat n =>
    have hsign : (Nat.toDigits 10 n).head? ≠ some '-' := fun h =>
      absurd (isDigit_of_mem_toDigits (List.mem_of_head? h)) (by decide)
    show intValue (Nat.toDigits 10 n) = _
    rw [intValue, if_neg hsign, if_pos ⟨Nat.toDigits_ne_nil, hall n⟩, if_neg hsign,
      Nat.ofDigitChars_ten_toDigits]
    rfl
  | negSucc n =>
    have hsign : ('-' :: Nat.toDigits 10 (n + 1)).head? = some '-' := rfl
    show intValue ('-' :: Nat.toDigits 10 (n + 1)) = _
    rw [intValue, if_pos hsign, List.tail_cons, if_pos ⟨Nat.toDigits_ne_nil, hall (n + 1)⟩,
      if_pos hsign, Nat.ofDigitChars_ten_toDigits]
    rfl


theorem numericMembers_iff {ms : List (Text × Value)} :
    NumericMembers ms ↔ ∀ m ∈ ms, m.2.Numeric := by
  induction ms with
  | nil => simp [NumericMembers]
  | cons m ms ih =>
    obtain ⟨k, v⟩ := m
    rw [NumericMembers, ih, List.forall_mem_cons]

/-! ### Control characters -/

/-- No control character, as there is none in a text that is written in one line. -/
def Visible (t : Text) : Prop := ∀ c ∈ t, 0x20 ≤ c.toNat

theorem visible_append {t u : Text} (ht : Visible t) (hu : Visible u) : Visible (t ++ u) :=
  fun c hc => (List.mem_append.mp hc).elim (ht c) (hu c)

theorem visible_cons {c : Char} {t : Text} (hc : 0x20 ≤ c.toNat) (ht : Visible t) :
    Visible (c :: t) := List.forall_mem_cons.mpr ⟨hc, ht⟩

theorem visible_nil : Visible [] := fun _ hc => absurd hc List.not_mem_nil

theorem visible_digitChar {d : ℕ} (h : d < 16) : 0x20 ≤ (Nat.digitChar d).toNat := by
  interval_cases d <;> decide

theorem visible_escapeChar (c : Char) : Visible (escapeChar c) := by
  rw [escapeChar]
  cases hshort : shortEscapes.lookup c with
  | some d =>
    obtain ⟨l, r, hsplit, -⟩ := List.lookup_eq_some_iff.mp hshort
    have hmem : (c, d) ∈ shortEscapes := by rw [hsplit]; simp
    simp only [shortEscapes, List.mem_cons, Prod.mk.injEq, List.not_mem_nil, or_false] at hmem
    rcases hmem with ⟨rfl, rfl⟩ | ⟨rfl, rfl⟩ | ⟨rfl, rfl⟩ | ⟨rfl, rfl⟩ | ⟨rfl, rfl⟩ | ⟨rfl, rfl⟩ |
      ⟨rfl, rfl⟩ <;> exact visible_cons (by decide) (visible_cons (by decide) visible_nil)
  | none =>
    dsimp only
    have hdigit (n : ℕ) : 0x20 ≤ (Nat.digitChar (n % 16)).toNat :=
      visible_digitChar (Nat.mod_lt n (by decide))
    by_cases hc : c.toNat < 0x20 ∨ c ∈ ['<', '>', '&', '\u2028', '\u2029']
    · rw [if_pos hc]
      exact visible_cons (by decide) (visible_cons (by decide) (visible_cons (hdigit _)
        (visible_cons (hdigit _) (visible_cons (hdigit _) (visible_cons (hdigit _) visible_nil)))))
    · rw [if_neg hc]
      have hlow : 0x20 ≤ c.toNat := by omega
      intro d hd
      by_cases hascii : c.toNat < 0x80
      · rw [octets_ascii hascii] at hd
        exact List.mem_singleton.mp hd ▸ hlow
      · have := le_of_mem_octets (by omega) hd
        omega

theorem visible_quote (s : Text) : Visible (quote s) := by
  refine visible_cons (by decide) (visible_append ?_ (visible_cons (by decide) visible_nil))
  intro c hc
  obtain ⟨d, -, hd⟩ := List.mem_flatMap.mp hc
  exact visible_escapeChar d c hd

theorem visible_of_next {p q : Part} {c : Char} (h : p.next c = some q) : 0x20 ≤ c.toNat := by
  have hdigit (hc : c.isDigit = true) : 0x20 ≤ c.toNat := by
    have hlow : '0'.toNat ≤ c.toNat := (Char.isDigit_iff_toNat.mp hc).1
    exact Nat.le_trans (by decide) hlow
  have hmem {l : Text} (hl : Visible l) (hc : c ∈ l) : 0x20 ≤ c.toNat := hl c hc
  by_contra hlow
  have hnot : c.isDigit = false := Bool.eq_false_of_not_eq_true fun hc => hlow (hdigit hc)
  have hne {d : Char} (hd : 0x20 ≤ d.toNat) : c ≠ d := fun hc => hlow (hc ▸ hd)
  have h0 : c ≠ '0' := hne (by decide)
  have hpoint : c ≠ '.' := hne (by decide)
  have hexp : c ∉ ['e', 'E'] := fun hc => hlow (hmem (by unfold Visible; decide) hc)
  have hsign : c ∉ ['+', '-'] := fun hc => hlow (hmem (by unfold Visible; decide) hc)
  cases p <;> simp only [Part.next, hnot, if_neg h0, if_neg hpoint, if_neg hexp, if_neg hsign,
    Bool.false_eq_true, if_false, reduceCtorEq] at h


theorem visible_of_foldlM {t : Text} {p q : Part} (h : t.foldlM Part.next p = some q) :
    Visible t := by
  induction t generalizing p with
  | nil => exact visible_nil
  | cons c t ih =>
    rw [List.foldlM_cons] at h
    obtain ⟨r, hr, hrest⟩ := Option.bind_eq_some_iff.mp h
    exact visible_cons (visible_of_next hr) (ih hrest)

theorem visible_of_isNumber {t : Text} (h : isNumber t = true) : Visible t := by
  cases t with
  | nil => exact visible_nil
  | cons c t =>
    rw [isNumber] at h
    split at h
    · rename_i p hp
      obtain ⟨q, hq, hrest⟩ := Option.bind_eq_some_iff.mp hp
      refine visible_cons ?_ (visible_of_foldlM hrest)
      by_cases hminus : c = '-'
      · rw [hminus]
        decide
      · rw [Part.first, if_neg hminus] at hq
        exact visible_of_next (p := .minus) hq
    · cases h

theorem visible_name (l : Literal) : Visible l.name := by
  unfold Visible
  cases l <;> decide

/-- A layout that keeps a value in one line. -/
def Layout.OneLine (L : Layout) : Prop := (∀ n, Visible (L.line n)) ∧ Visible L.space

theorem oneLine_compact : Layout.compact.OneLine := ⟨fun _ => visible_nil, visible_nil⟩

mutual

theorem visible_write {L : Layout} (hL : L.OneLine) : (v : Value) → v.Numeric → (n : ℕ) →
    Visible (write L n v)
  | .null, _, _ => by rw [write]; exact visible_name .null
  | .bool true, _, _ => by rw [write]; exact visible_name .true
  | .bool false, _, _ => by rw [write]; exact visible_name .false
  | .num _, hv, _ => visible_of_isNumber hv
  | .str s, _, _ => visible_quote s
  | .arr [], _, _ => by
    rw [write]
    exact visible_cons (by decide) (visible_cons (by decide) visible_nil)
  | .arr (v :: vs), hv, n => by
    rw [write]
    exact visible_cons (by decide) (visible_append (hL.1 _) (visible_append
      (visible_write hL v hv.1 (n + 1)) (visible_append (visible_writeItems hL vs hv.2 (n + 1))
        (visible_append (hL.1 n) (visible_cons (by decide) visible_nil)))))
  | .obj [], _, _ => by
    rw [write]
    exact visible_cons (by decide) (visible_cons (by decide) visible_nil)
  | .obj ((k, v) :: ms), hv, n => by
    rw [write]
    exact visible_cons (by decide) (visible_append (hL.1 _) (visible_append (visible_quote k)
      (visible_cons (by decide) (visible_append hL.2 (visible_append
        (visible_write hL v hv.1 (n + 1)) (visible_append (visible_writeMembers hL ms hv.2 (n + 1))
          (visible_append (hL.1 n) (visible_cons (by decide) visible_nil))))))))

theorem visible_writeItems {L : Layout} (hL : L.OneLine) : (vs : List Value) → NumericItems vs →
    (n : ℕ) → Visible (writeItems L n vs)
  | [], _, _ => visible_nil
  | v :: vs, hv, n => by
    rw [writeItems]
    exact visible_cons (by decide) (visible_append (hL.1 n) (visible_append
      (visible_write hL v hv.1 n) (visible_writeItems hL vs hv.2 n)))

theorem visible_writeMembers {L : Layout} (hL : L.OneLine) : (ms : List (Text × Value)) →
    NumericMembers ms → (n : ℕ) → Visible (writeMembers L n ms)
  | [], _, _ => visible_nil
  | (k, v) :: ms, hv, n => by
    rw [writeMembers]
    exact visible_cons (by decide) (visible_append (hL.1 n) (visible_append (visible_quote k)
      (visible_cons (by decide) (visible_append hL.2 (visible_append (visible_write hL v hv.1 n)
        (visible_writeMembers hL ms hv.2 n))))))

end

/-! ### Lengths -/

theorem length_escapeChar_le (c : Char) : (escapeChar c).length ≤ 6 := by
  unfold escapeChar
  cases shortEscapes.lookup c with
  | some d => exact Nat.le_of_ble_eq_true rfl
  | none =>
    dsimp only
    split
    · exact Nat.le_refl 6
    · rw [octets, List.length_map, bytes, List.flatMap_singleton, String.length_utf8EncodeChar]
      exact Nat.le_trans c.utf8Size_le_four (by decide)

theorem length_quote_le (s : Text) : (quote s).length ≤ 6 * s.length + 2 := by
  have hescaped : (s.flatMap escapeChar).length ≤ 6 * s.length := by
    induction s with
    | nil => exact Nat.le_refl 0
    | cons c s ih =>
      have hc := length_escapeChar_le c
      rw [List.flatMap_cons, List.length_append, List.length_cons]
      omega
  rw [quote, List.length_cons, List.length_append, List.length_singleton]
  omega

theorem length_intText_le {n : ℤ} (hlow : 0 ≤ n) (hhigh : n < 2 ^ 63) :
    (intText n).length ≤ 19 := by
  obtain ⟨k, rfl⟩ := Int.eq_ofNat_of_zero_le hlow
  have hk : k < 10 ^ 19 := by omega
  exact Nat.toDigits_length 10 k 19 (by decide) hk

mutual

/-- A bound for the length of the text without blanks. -/
def Value.bound : Value → ℕ
  | .null => 5
  | .bool _ => 5
  | .num t => t.length
  | .str s => 6 * s.length + 2
  | .arr vs => boundItems vs + 2
  | .obj ms => boundMembers ms + 2

def boundItems : List Value → ℕ
  | [] => 0
  | v :: vs => v.bound + 1 + boundItems vs

def boundMembers : List (Text × Value) → ℕ
  | [] => 0
  | (k, v) :: ms => 6 * k.length + v.bound + 4 + boundMembers ms

end

mutual

theorem length_write_le : (v : Value) → (n : ℕ) → (write .compact n v).length ≤ v.bound
  | .null, _ => by
    rw [write, Value.bound]
    exact Nat.le_of_ble_eq_true rfl
  | .bool true, _ => by
    rw [write, Value.bound]
    exact Nat.le_of_ble_eq_true rfl
  | .bool false, _ => by
    rw [write, Value.bound]
    exact Nat.le_of_ble_eq_true rfl
  | .num t, _ => by
    rw [write, Value.bound]
  | .str s, _ => by
    rw [write, Value.bound]
    exact length_quote_le s
  | .arr [], _ => by
    rw [write, Value.bound, boundItems]
    exact Nat.le_refl 2
  | .arr (v :: vs), n => by
    have hv := length_write_le v (n + 1)
    have hvs := length_writeItems_le vs (n + 1)
    rw [write, Value.bound, boundItems]
    simp only [Layout.compact, List.nil_append, List.length_cons, List.length_append,
      List.length_nil] at hv hvs ⊢
    omega
  | .obj [], _ => by
    rw [write, Value.bound, boundMembers]
    exact Nat.le_refl 2
  | .obj ((k, v) :: ms), n => by
    have hk := length_quote_le k
    have hv := length_write_le v (n + 1)
    have hms := length_writeMembers_le ms (n + 1)
    rw [write, Value.bound, boundMembers]
    simp only [Layout.compact, List.nil_append, List.length_cons, List.length_append,
      List.length_nil] at hv hms ⊢
    omega

theorem length_writeItems_le : (vs : List Value) → (n : ℕ) →
    (writeItems .compact n vs).length ≤ boundItems vs
  | [], _ => by
    rw [writeItems, boundItems]
    exact Nat.le_refl 0
  | v :: vs, n => by
    have hv := length_write_le v n
    have hvs := length_writeItems_le vs n
    rw [writeItems, boundItems]
    simp only [Layout.compact, List.nil_append, List.length_cons, List.length_append] at hv hvs ⊢
    omega

theorem length_writeMembers_le : (ms : List (Text × Value)) → (n : ℕ) →
    (writeMembers .compact n ms).length ≤ boundMembers ms
  | [], _ => by
    rw [writeMembers, boundMembers]
    exact Nat.le_refl 0
  | (k, v) :: ms, n => by
    have hk := length_quote_le k
    have hv := length_write_le v n
    have hms := length_writeMembers_le ms n
    rw [writeMembers, boundMembers]
    simp only [Layout.compact, List.nil_append, List.length_cons, List.length_append] at hv hms ⊢
    omega

end

end Json
end MkyBoot
