import ApmeApi.Lib.Utf8

/-!
# The `unicode_escape` codec

A string is a sequence of code points, surrogates included; UTF-8 can encode the others only, and
an error handler says what becomes of surrogates. This module has strings, their encoding, and the
decoder of bytes with escapes: a byte stands for the code point of the same number, a backslash
begins an escape. Beside one-letter escapes there are octal numbers, hexadecimal numbers of two,
four and eight digits, and names of code points; a backslash before anything else stands for itself.

What the decoder accepts is described by `Reads`, piece by piece. From it comes that no text in
double quotes is what its own contents decode to (`Reads.ne_quoted`): a backslash that is an
escape could only come out of a later one.
-/

namespace UnicodeEscape

/-! ### Strings -/

/-- A code point. -/
abbrev CodePoint := Fin 0x110000

/-- The code point of a character. -/
def ofChar (c : Char) : CodePoint :=
  ⟨c.toNat, by
    have hvalid := c.valid
    simp only [UInt32.isValidChar, Nat.isValidChar] at hvalid
    change c.val.toNat < _
    omega⟩

/-- The code point with the number of a byte. -/
def ofByte (b : UInt8) : CodePoint := ⟨b.toNat, Nat.lt_trans b.toNat_lt (by decide)⟩

/-- The character of a code point, if it is no surrogate. -/
def toChar (c : CodePoint) : Option Char :=
  if h : c.val.isValidChar then some (Char.ofNatAux c.val h) else none

/-- The error handler of an encoder. -/
inductive Errors where
  | strict
  | surrogateescape
  deriving DecidableEq

/-- What a surrogate is encoded as: the byte that it escapes, if the handler takes it for that. -/
def encodeSurrogate : Errors → CodePoint → Option (List UInt8)
  | .strict, _ => none
  | .surrogateescape, c =>
    if 0xDC80 ≤ c.val ∧ c.val ≤ 0xDCFF then some [UInt8.ofNat (c.val - 0xDC00)] else none

def encodePoint (handler : Errors) (c : CodePoint) : Option (List UInt8) :=
  match toChar c with
  | some ch => some (String.utf8EncodeChar ch)
  | none => encodeSurrogate handler c

/-- `str.encode("utf-8", errors)`. -/
def encode (handler : Errors) (s : List CodePoint) : Option (List UInt8) :=
  (s.mapM (encodePoint handler)).map List.flatten

/-! ### Escapes -/

/-- The names of code points. -/
class UnicodeNames where
  lookup : List UInt8 → Option CodePoint

/-- The value of a hexadecimal digit. -/
def hexByte (b : UInt8) : Option ℕ := Text.hexValue (Char.ofNat b.toNat)

/-- A number of so many hexadecimal digits. -/
def readHex : ℕ → ℕ → List UInt8 → Option (ℕ × List UInt8)
  | 0, acc, bs => some (acc, bs)
  | _ + 1, _, [] => none
  | n + 1, acc, b :: bs =>
    match hexByte b with
    | some d => readHex n (acc * 16 + d) bs
    | none => none

/-- The value of an octal digit. -/
def octByte (b : UInt8) : Option ℕ := if 48 ≤ b ∧ b ≤ 55 then some (b.toNat - 48) else none

/-- A number of at most so many octal digits. -/
def readOct : ℕ → ℕ → List UInt8 → ℕ × List UInt8
  | 0, acc, bs => (acc, bs)
  | _ + 1, acc, [] => (acc, [])
  | n + 1, acc, b :: bs =>
    match octByte b with
    | some d => readOct n (acc * 8 + d) bs
    | none => (acc, b :: bs)

/-- The one-letter escapes. A backslash at the end of a line is a continuation. -/
def simpleEscapes : List (UInt8 × List CodePoint) :=
  [(10, []), (92, [92]), (39, [39]), (34, [34]), (98, [8]), (102, [12]), (116, [9]), (110, [10]),
    (114, [13]), (118, [11]), (97, [7])]

def simpleEscape (b : UInt8) : Option (List CodePoint) := simpleEscapes.lookup b

/-- What a step of the decoder yields: code points, and the bytes that are left. -/
abbrev Step := Except String (List CodePoint × List UInt8)

/-- The code point with a number that was read. -/
def numbered (n : ℕ) (rest : List UInt8) : Step :=
  if h : n < 0x110000 then .ok ([⟨n, h⟩], rest) else .error "illegal Unicode character"

/-- An escape with so many hexadecimal digits. -/
def hexEscape (count : ℕ) (message : String) (bs : List UInt8) : Step :=
  match readHex count 0 bs with
  | some (n, rest) => numbered n rest
  | none => .error message

/-- A byte that begins an escape when it stands after a backslash. -/
def isEscapeByte (b : UInt8) : Bool :=
  (simpleEscape b).isSome || (octByte b).isSome || b = 120 || b = 117 || b = 85 || b = 78

theorem length_simpleEscape {b : UInt8} {s : List CodePoint} (h : simpleEscape b = some s) :
    s.length ≤ 1 := by
  have hall : simpleEscapes.all (fun e => e.2.length ≤ 1) = true := by decide
  obtain ⟨l₁, l₂, hl, -⟩ := List.lookup_eq_some_iff.mp h
  exact of_decide_eq_true (List.all_eq_true.mp hall (b, s) (by simp [hl]))

theorem readHex_suffix {n acc m : ℕ} {bs rest : List UInt8}
    (h : readHex n acc bs = some (m, rest)) : rest <:+ bs := by
  induction n generalizing acc bs with
  | zero =>
    rw [readHex] at h
    obtain ⟨-, rfl⟩ := Prod.mk.inj (Option.some.inj h)
    exact List.suffix_refl bs
  | succ n ih =>
    cases bs with
    | nil => cases h
    | cons b bs =>
      rw [readHex] at h
      split at h
      · exact (ih h).trans (List.suffix_cons b bs)
      · cases h

theorem readOct_suffix (n acc : ℕ) (bs : List UInt8) : (readOct n acc bs).2 <:+ bs := by
  induction n generalizing acc bs with
  | zero => exact List.suffix_refl bs
  | succ n ih =>
    cases bs with
    | nil => exact List.suffix_refl []
    | cons b bs =>
      rw [readOct]
      split
      · exact (ih _ bs).trans (List.suffix_cons b bs)
      · exact List.suffix_refl _

theorem numbered_eq_ok {n : ℕ} {bs rest : List UInt8} {s : List CodePoint}
    (h : numbered n bs = .ok (s, rest)) : s.length = 1 ∧ rest = bs := by
  rw [numbered] at h
  split at h
  · obtain ⟨rfl, rfl⟩ := Prod.mk.inj (Except.ok.inj h)
    exact ⟨rfl, rfl⟩
  · cases h

theorem hexEscape_eq_ok {count : ℕ} {message : String} {bs rest : List UInt8}
    {s : List CodePoint} (h : hexEscape count message bs = .ok (s, rest)) :
    s.length = 1 ∧ rest <:+ bs := by
  rw [hexEscape] at h
  split at h
  · rename_i n rest' hread
    obtain ⟨hs, rfl⟩ := numbered_eq_ok h
    exact ⟨hs, readHex_suffix hread⟩
  · cases h

/-! ### The decoder -/

section Decoder

variable [UnicodeNames]

/-- An escape with a name between braces. -/
def namedEscape : List UInt8 → Step
  | 123 :: bs =>
    let name := bs.takeWhile (· ≠ 125)
    match bs.drop name.length with
    | [] => .error "malformed \\N character escape"
    | _ :: rest =>
      if name = [] then .error "malformed \\N character escape"
      else
        match UnicodeNames.lookup name with
        | some c => .ok ([c], rest)
        | none => .error "unknown Unicode character name"
  | _ => .error "malformed \\N character escape"

/-- The escape that a byte after a backslash begins. -/
def escape (b : UInt8) (bs : List UInt8) : Step :=
  match simpleEscape b with
  | some s => .ok (s, bs)
  | none =>
    if (octByte b).isSome then
      let (n, rest) := readOct 3 0 (b :: bs)
      numbered n rest
    else if b = 120 then hexEscape 2 "truncated \\xXX escape" bs
    else if b = 117 then hexEscape 4 "truncated \\uXXXX escape" bs
    else if b = 85 then hexEscape 8 "truncated \\UXXXXXXXX escape" bs
    else if b = 78 then namedEscape bs
    else .ok ([92, ofByte b], bs)

/-- One step of the decoder. -/
def next : UInt8 → List UInt8 → Step
  | 92, [] => .error "\\ at end of string"
  | 92, b :: bs => escape b bs
  | b, bs => .ok ([ofByte b], bs)

/-- The decoder, with a bound on its steps. -/
def decodeAux : ℕ → List UInt8 → Except String (List CodePoint)
  | _, [] => .ok []
  | 0, _ :: _ => .error "out of steps"
  | n + 1, b :: bs => do
    let (s, rest) ← next b bs
    let t ← decodeAux n rest
    return s ++ t

/-- `bytes.decode("unicode_escape")`. Every step consumes a byte. -/
def decode (bs : List UInt8) : Except String (List CodePoint) := decodeAux bs.length bs

theorem namedEscape_eq_ok {bs rest : List UInt8} {s : List CodePoint}
    (h : namedEscape bs = .ok (s, rest)) : s.length = 1 ∧ rest <:+ bs := by
  rw [namedEscape.eq_def] at h
  split at h
  · rename_i bs
    dsimp only at h
    split at h
    · cases h
    · rename_i b rest' hdrop
      split at h
      · cases h
      · split at h
        · obtain ⟨rfl, rfl⟩ := Prod.mk.inj (Except.ok.inj h)
          refine ⟨rfl, (List.suffix_cons b rest').trans ?_⟩
          rw [← hdrop]
          exact (List.drop_suffix _ _).trans (List.suffix_cons _ _)
        · cases h
  · cases h

/-- **An escape** yields at most one code point, or it is none and stands for itself. -/
theorem escape_eq_ok {b : UInt8} {bs rest : List UInt8} {s : List CodePoint}
    (h : escape b bs = .ok (s, rest)) :
    (isEscapeByte b = true ∧ s.length ≤ 1 ∧ rest <:+ b :: bs ∧ rest.length ≤ bs.length) ∨
      (isEscapeByte b = false ∧ s = [92, ofByte b] ∧ rest = bs) := by
  have hcons : rest <:+ bs → rest <:+ b :: bs ∧ rest.length ≤ bs.length := fun hr =>
    ⟨hr.trans (List.suffix_cons b bs), hr.length_le⟩
  rw [escape] at h
  split at h
  · rename_i t hsimple
    obtain ⟨rfl, rfl⟩ := Prod.mk.inj (Except.ok.inj h)
    exact .inl ⟨by simp [isEscapeByte, hsimple], length_simpleEscape hsimple,
      hcons (List.suffix_refl _)⟩
  rename_i hsimple
  split at h
  · rename_i hoct
    obtain ⟨d, hd⟩ := Option.isSome_iff_exists.mp hoct
    obtain ⟨hs, hrest⟩ := numbered_eq_ok h
    rw [hd] at hrest
    exact .inl ⟨by simp [isEscapeByte, hoct], by omega, hcons (hrest ▸ readOct_suffix ..)⟩
  rename_i hoct
  split at h
  · rename_i hb
    obtain ⟨hs, hr⟩ := hexEscape_eq_ok h
    exact .inl ⟨by simp [isEscapeByte, hb], by omega, hcons hr⟩
  rename_i hx
  split at h
  · rename_i hb
    obtain ⟨hs, hr⟩ := hexEscape_eq_ok h
    exact .inl ⟨by simp [isEscapeByte, hb], by omega, hcons hr⟩
  rename_i hu
  split at h
  · rename_i hb
    obtain ⟨hs, hr⟩ := hexEscape_eq_ok h
    exact .inl ⟨by simp [isEscapeByte, hb], by omega, hcons hr⟩
  rename_i hU
  split at h
  · rename_i hb
    obtain ⟨hs, hr⟩ := namedEscape_eq_ok h
    exact .inl ⟨by simp [isEscapeByte, hb], by omega, hcons hr⟩
  rename_i hN
  obtain ⟨rfl, rfl⟩ := Prod.mk.inj (Except.ok.inj h)
  exact .inr ⟨by simp [isEscapeByte, hsimple, hoct, hx, hu, hU, hN], rfl, rfl⟩

/-- **One step**: a byte, an escape, or a backslash that stands for itself. -/
theorem next_eq_ok {b : UInt8} {bs rest : List UInt8} {s : List CodePoint}
    (h : next b bs = .ok (s, rest)) :
    (b ≠ 92 ∧ s = [ofByte b] ∧ rest = bs) ∨
      ∃ c tail, b = 92 ∧ bs = c :: tail ∧
        ((isEscapeByte c = true ∧ s.length ≤ 1 ∧ rest <:+ tail) ∨
          (isEscapeByte c = false ∧ s = [92, ofByte c] ∧ rest = tail)) := by
  rw [next.eq_def] at h
  split at h
  · cases h
  · rename_i c tail
    refine .inr ⟨c, tail, rfl, rfl, ?_⟩
    rcases escape_eq_ok h with ⟨hc, hs, hr, hlen⟩ | hplain
    · refine .inl ⟨hc, hs, ?_⟩
      rcases List.suffix_cons_iff.mp hr with rfl | hr
      · simp at hlen
      · exact hr
    · exact .inr hplain
  · rename_i hnil hcons
    obtain ⟨rfl, rfl⟩ := Prod.mk.inj (Except.ok.inj h)
    refine .inl ⟨?_, rfl, rfl⟩
    rintro rfl
    cases bs with
    | nil => exact hnil rfl rfl
    | cons c tail => exact hcons c tail rfl rfl

/-- A step leaves no more than what is behind its first byte. -/
theorem next_length {b : UInt8} {bs rest : List UInt8} {s : List CodePoint}
    (h : next b bs = .ok (s, rest)) : rest.length ≤ bs.length := by
  rcases next_eq_ok h with ⟨-, -, rfl⟩ | ⟨c, tail, -, rfl, ⟨-, -, hr⟩ | ⟨-, -, rfl⟩⟩
  · exact Nat.le_refl _
  · exact Nat.le_succ_of_le hr.length_le
  · exact Nat.le_succ _

/-- Steps enough are as good as any. -/
theorem decodeAux_of_le {n : ℕ} {bs : List UInt8} (h : bs.length ≤ n) :
    decodeAux n bs = decode bs := by
  rw [decode]
  generalize hm : bs.length = m at h
  induction m using Nat.strong_induction_on generalizing n bs with
  | _ m ih =>
    subst hm
    cases bs with
    | nil =>
      cases n <;> rfl
    | cons b bs =>
      obtain ⟨n, rfl⟩ : ∃ k, n = k + 1 := ⟨n - 1, by simp at h; omega⟩
      rw [List.length_cons, decodeAux, decodeAux]
      cases hnext : next b bs with
      | error e => rfl
      | ok p =>
        obtain ⟨s, rest⟩ := p
        have hlen := next_length hnext
        have hn : rest.length ≤ n := by
          simp only [List.length_cons] at h
          omega
        have h₁ := ih rest.length (by simp; omega) rfl hn
        have h₂ := ih rest.length (by simp; omega) rfl hlen
        change (do let t ← decodeAux n rest; pure (s ++ t)) =
          (do let t ← decodeAux bs.length rest; pure (s ++ t))
        rw [h₁, h₂]

/-- The decoder, step by step. -/
theorem decode_cons (b : UInt8) (bs : List UInt8) :
    decode (b :: bs) = (do
      let (s, rest) ← next b bs
      let t ← decode rest
      return s ++ t) := by
  rw [decode, List.length_cons, decodeAux]
  cases hnext : next b bs with
  | error e => rfl
  | ok p =>
    obtain ⟨s, rest⟩ := p
    change (do let t ← decodeAux bs.length rest; pure (s ++ t)) =
      (do let t ← decode rest; pure (s ++ t))
    rw [decodeAux_of_le (next_length hnext)]

/-- A byte that is no backslash stands for itself. -/
theorem decode_byte {b : UInt8} (hb : b ≠ 92) {bs : List UInt8} {s : List CodePoint}
    (h : decode bs = .ok s) : decode (b :: bs) = .ok (ofByte b :: s) := by
  have hnext : next b bs = .ok ([ofByte b], bs) := by
    rw [next.eq_def]
    split
    · exact absurd rfl hb
    · exact absurd rfl hb
    · rfl
  rw [decode_cons, hnext]
  change (do let t ← decode bs; pure ([ofByte b] ++ t)) = _
  rw [h]
  rfl

/-- A one-letter escape. -/
theorem decode_simpleEscape {b : UInt8} {c s : List CodePoint} (hb : simpleEscape b = some c)
    {bs : List UInt8} (h : decode bs = .ok s) : decode (92 :: b :: bs) = .ok (c ++ s) := by
  have hnext : next 92 (b :: bs) = .ok (c, bs) := by
    change escape b bs = _
    rw [escape, hb]
  rw [decode_cons, hnext]
  change (do let t ← decode bs; pure (c ++ t)) = _
  rw [h]
  rfl

/-! ### What the decoder reads -/

/-- Bytes **read** as code points, piece by piece. -/
inductive Reads : List UInt8 → List CodePoint → Prop
  | nil : Reads [] []
  | byte {b bs s} : b ≠ 92 → Reads bs s → Reads (b :: bs) (ofByte b :: s)
  | escape {b more bs c s} : isEscapeByte b = true → c.length ≤ 1 → Reads bs s →
      Reads (92 :: b :: (more ++ bs)) (c ++ s)
  | backslash {b bs s} : isEscapeByte b = false → Reads bs s →
      Reads (92 :: b :: bs) (92 :: ofByte b :: s)

/-- The decoder reads piece by piece. -/
theorem decode_sound {bs : List UInt8} {s : List CodePoint} (h : decode bs = .ok s) :
    Reads bs s := by
  generalize hn : bs.length = n
  induction n using Nat.strong_induction_on generalizing bs s with
  | _ n ih =>
    subst hn
    cases bs with
    | nil =>
      obtain rfl := Except.ok.inj h
      exact .nil
    | cons b bs =>
      rw [decode_cons] at h
      cases hnext : next b bs with
      | error e =>
        rw [hnext] at h
        cases h
      | ok p =>
        obtain ⟨c, rest⟩ := p
        rw [hnext] at h
        change (do let t ← decode rest; pure (c ++ t)) = _ at h
        cases ht : decode rest with
        | error e =>
          rw [ht] at h
          cases h
        | ok t =>
          rw [ht] at h
          obtain rfl := Except.ok.inj h
          have hlen := next_length hnext
          have hrest := ih rest.length (by simp; omega) ht rfl
          obtain ⟨hb, rfl, rfl⟩ | ⟨x, tail, rfl, rfl, ⟨hx, hc, hr⟩ | ⟨hx, rfl, rfl⟩⟩ :=
            next_eq_ok hnext
          · exact .byte hb hrest
          · obtain ⟨more, rfl⟩ := hr
            exact .escape hx hc hrest
          · exact .backslash hx hrest

end Decoder

/-! ### Decoded text against its source

Code points are compared as the bytes of their encoding with the bytes that they were read from.
-/

section Encoding

variable {handler : Errors}

theorem encode_append (s t : List CodePoint) :
    encode handler (s ++ t) =
      (encode handler s).bind fun o => (encode handler t).map fun o' => o ++ o' := by
  simp only [encode, List.mapM_append]
  cases s.mapM (encodePoint handler) with
  | none => rfl
  | some os =>
    cases t.mapM (encodePoint handler) with
    | none => rfl
    | some os' => exact congrArg some List.flatten_append

theorem encode_append_eq_some_iff {s t : List CodePoint} {o : List UInt8} :
    encode handler (s ++ t) = some o ↔
      ∃ o₁ o₂, encode handler s = some o₁ ∧ encode handler t = some o₂ ∧ o = o₁ ++ o₂ := by
  simp only [encode_append, Option.bind_eq_some_iff, Option.map_eq_some_iff]
  constructor
  · rintro ⟨o₁, hs, o₂, ht, rfl⟩
    exact ⟨o₁, o₂, hs, ht, rfl⟩
  · rintro ⟨o₁, o₂, hs, ht, rfl⟩
    exact ⟨o₁, hs, o₂, ht, rfl⟩

theorem encode_singleton (c : CodePoint) : encode handler [c] = encodePoint handler c := by
  rw [encode, List.mapM_cons, List.mapM_nil]
  cases encodePoint handler c <;> simp

theorem encode_cons {c : CodePoint} {s : List CodePoint} {o : List UInt8} :
    encode handler (c :: s) = some o ↔
      ∃ o₁ o₂, encode handler [c] = some o₁ ∧ encode handler s = some o₂ ∧ o = o₁ ++ o₂ :=
  encode_append_eq_some_iff (s := [c])

theorem toNat_of_toChar {c : CodePoint} {ch : Char} (h : toChar c = some ch) :
    ch.toNat = c.val := by
  rw [toChar] at h
  by_cases hvalid : c.val.isValidChar
  · rw [dif_pos hvalid] at h
    obtain rfl := Option.some.inj h
    rfl
  · rw [dif_neg hvalid] at h
    cases h

theorem toChar_ofChar (c : Char) : toChar (ofChar c) = some c := by
  rw [toChar, dif_pos (show (ofChar c).val.isValidChar from c.valid)]
  exact congrArg some (Char.ext (UInt32.toNat_inj.mp rfl))

theorem ofChar_injective : Function.Injective ofChar := fun c d h =>
  Option.some.inj (by rw [← toChar_ofChar c, h, toChar_ofChar])

/-- **A code point is encoded** as its character, or it is a surrogate and a byte that is not
ASCII. -/
theorem encode_singleton_cases {c : CodePoint} {o : List UInt8}
    (h : encode handler [c] = some o) :
    (∃ ch, c = ofChar ch ∧ o = String.utf8EncodeChar ch) ∨
      (toChar c = none ∧ handler = .surrogateescape ∧ ∃ b : UInt8, 0x80 ≤ b.toNat ∧ o = [b]) := by
  rw [encode_singleton, encodePoint] at h
  split at h
  · rename_i ch hch
    exact .inl ⟨ch, (Fin.ext (toNat_of_toChar hch)).symm, (Option.some.inj h).symm⟩
  · rename_i hnone
    cases handler with
    | strict => cases h
    | surrogateescape =>
      rw [encodeSurrogate] at h
      split at h
      · refine .inr ⟨hnone, rfl, _, ?_, (Option.some.inj h).symm⟩
        rw [UInt8.toNat_ofNat']
        omega
      · cases h

theorem encode_singleton_ofChar (ch : Char) :
    encode handler [ofChar ch] = some (String.utf8EncodeChar ch) := by
  rw [encode_singleton, encodePoint, toChar_ofChar]

/-- The encoding of characters. -/
theorem encode_map_ofChar (cs : List Char) :
    encode handler (cs.map ofChar) = some (Text.utf8 cs) := by
  induction cs with
  | nil => rfl
  | cons c cs ih =>
    rw [List.map_cons, encode_cons]
    exact ⟨_, _, encode_singleton_ofChar c, ih, Text.utf8_cons c cs⟩

/-- Without a handler for surrogates only characters can be encoded. -/
theorem exists_eq_map_ofChar {s : List CodePoint} (h : (encode .strict s).isSome = true) :
    ∃ cs : List Char, s = cs.map ofChar := by
  induction s with
  | nil => exact ⟨[], rfl⟩
  | cons c s ih =>
    obtain ⟨o, ho⟩ := Option.isSome_iff_exists.mp h
    obtain ⟨o₁, o₂, hc, hs, -⟩ := encode_cons.mp ho
    obtain ⟨cs, rfl⟩ := ih (by rw [hs, Option.isSome_some])
    rcases encode_singleton_cases hc with ⟨ch, rfl, -⟩ | ⟨-, hstrict, -⟩
    · exact ⟨ch :: cs, rfl⟩
    · cases hstrict

/-- An ASCII byte in an encoding is all of it. -/
theorem encode_singleton_ascii {c : CodePoint} {o : List UInt8} {x : UInt8}
    (h : encode handler [c] = some o) (hx : x ∈ o) (hascii : x.toNat < 0x80) :
    o = [x] ∧ c.val = x.toNat := by
  rcases encode_singleton_cases h with ⟨ch, rfl, rfl⟩ | ⟨-, -, b, hb, rfl⟩
  · have hnat := Text.toNat_of_mem_utf8EncodeChar hx hascii
    rw [Text.utf8EncodeChar_of_lt (by omega), hnat, UInt8.ofNat_toNat]
    exact ⟨rfl, hnat⟩
  · obtain rfl := List.mem_singleton.mp hx
    omega

/-- An ASCII byte is in the encoding of the code point of its own number only. -/
theorem encode_ofByte_ascii {b x : UInt8} {o : List UInt8}
    (h : encode handler [ofByte b] = some o) (hx : x ∈ o) (hascii : x.toNat < 0x80) : b = x :=
  UInt8.toNat_inj.mp (encode_singleton_ascii h hx hascii).2

/-- An ASCII code point is encoded as one byte. -/
theorem encode_ascii {c : CodePoint} {o : List UInt8} (hc : c.val < 0x80)
    (h : encode handler [c] = some o) : o = [UInt8.ofNat c.val] := by
  obtain ⟨ch, hch⟩ : ∃ ch : Char, c = ofChar ch := by
    have hvalid : c.val.isValidChar := .inl (by omega)
    exact ⟨Char.ofNatAux c.val hvalid, rfl⟩
  have hnat : ch.toNat = c.val := by rw [hch]; rfl
  rw [hch, encode_singleton_ofChar, Text.utf8EncodeChar_of_lt (by omega), hnat] at h
  exact (Option.some.inj h).symm

theorem encode_ne_nil {c : CodePoint} : encode handler [c] ≠ some [] := by
  intro h
  rcases encode_singleton_cases h with ⟨ch, -, hnil⟩ | ⟨-, -, b, -, hnil⟩
  · have hpos : 0 < (String.utf8EncodeChar ch).length := by
      rw [String.length_utf8EncodeChar]
      exact Char.utf8Size_pos ch
    rw [← hnil] at hpos
    exact absurd hpos (by decide)
  · cases hnil

end Encoding

theorem toNat_of_isEscapeByte {b : UInt8} (h : isEscapeByte b = true) : b.toNat < 0x80 := by
  have key : ∀ n < 256, isEscapeByte (UInt8.ofNat n) = true → n < 0x80 := by decide +kernel
  exact key b.toNat b.toNat_lt (by rwa [UInt8.ofNat_toNat])

/-- What is in the first part of a text when a byte is not. -/
theorem append_split {α : Type} {a o u r : List α} {x : α} (h : a ++ o = u ++ x :: r)
    (hx : x ∉ a) : ∃ u', u = a ++ u' ∧ o = u' ++ x :: r := by
  rcases List.append_eq_append_iff.mp h with ⟨u', rfl, ho⟩ | ⟨w, rfl, hw⟩
  · exact ⟨u', rfl, ho⟩
  · cases w with
    | nil => exact ⟨[], by simp, by simpa using hw.symm⟩
    | cons y w =>
      obtain rfl := (List.cons.inj hw).1
      simp at hx

section Quoted

variable {handler : Errors} {bs : List UInt8} {s : List CodePoint} {keep : UInt8 → Bool}
  (hkeep : ∀ b, isEscapeByte b = true → keep b = true)

include hkeep

/-- What is kept of an escape: the backslash and the byte behind it, and something more. -/
theorem filter_escape {b : UInt8} (hb : isEscapeByte b = true) (more bs : List UInt8) :
    (92 :: b :: (more ++ bs)).filter keep = 92 :: b :: (more.filter keep ++ bs.filter keep) := by
  rw [List.filter_cons_of_pos (hkeep 92 (by decide)), List.filter_cons_of_pos (hkeep b hb),
    List.filter_append]

/-- **Escapes do not come out.** In the encoding of what a text reads as, no escape stands before
the text itself: its backslash would have to come out of a later escape. This is so as well when
bytes of the text that begin no escape are dropped. -/
theorem Reads.ne_escape (h : Reads bs s) {o : List UInt8} (ho : encode handler s = some o)
    {e : UInt8} (he : isEscapeByte e = true) (u m t : List UInt8) :
    o ≠ u ++ 92 :: e :: (m ++ (bs.filter keep ++ t)) := by
  intro heq
  induction h generalizing o u e m with
  | nil =>
    obtain rfl : [] = o := Option.some.inj ho
    simp at heq
  | @byte b bs s hb hs ih =>
    obtain ⟨ob, os, hob, hos, rfl⟩ := encode_cons.mp ho
    have hmem : 92 ∉ ob := fun hx => hb (encode_ofByte_ascii hob hx (by decide))
    obtain ⟨u', rfl, hos'⟩ := append_split heq hmem
    rw [← List.singleton_append (x := b), List.filter_append] at hos'
    exact ih hos he u' (m ++ [b].filter keep) (by simpa using hos')
  | @escape b more bs c s hb hc hs ih =>
    obtain ⟨oc, os, hoc, hos, rfl⟩ := encode_append_eq_some_iff.mp ho
    rw [filter_escape hkeep hb] at heq
    by_cases hmem : 92 ∈ oc
    · -- the backslash that comes out of this escape
      obtain ⟨p, rfl⟩ : ∃ p, c = [p] := by
        cases c with
        | nil =>
          obtain rfl : [] = oc := Option.some.inj hoc
          cases hmem
        | cons p c => exact ⟨p, by simpa using hc⟩
      obtain ⟨rfl, -⟩ := encode_singleton_ascii hoc hmem (by decide)
      cases u with
      | nil =>
        have hos' := (List.cons.inj heq).2
        exact ih hos hb (e :: m) (more.filter keep) (by simpa using hos')
      | cons y u =>
        have hos' := (List.cons.inj heq).2
        exact ih hos he u (m ++ 92 :: b :: more.filter keep) (by simpa using hos')
    · obtain ⟨u', rfl, hos'⟩ := append_split heq hmem
      exact ih hos he u' (m ++ 92 :: b :: more.filter keep) (by simpa using hos')
  | @backslash b bs s hb hs ih =>
    obtain ⟨oh, o₁, hoh, ho₁, rfl⟩ := encode_cons.mp ho
    obtain ⟨ob, os, hob, hos, rfl⟩ := encode_cons.mp ho₁
    obtain rfl : oh = [92] := encode_ascii (by decide) hoh
    rw [List.filter_cons_of_pos (hkeep 92 (by decide)), ← List.singleton_append (x := b),
      List.filter_append] at heq
    cases u with
    | nil =>
      -- the byte after the backslash is none that begins an escape
      have hos' := (List.cons.inj heq).2
      cases ob with
      | nil => exact encode_ne_nil hob
      | cons x ob =>
        obtain rfl := (List.cons.inj hos').1
        have hbx := encode_ofByte_ascii hob List.mem_cons_self (toNat_of_isEscapeByte he)
        rw [hbx, he] at hb
        cases hb
    | cons y u =>
      have hos' : ob ++ os =
          u ++ 92 :: e :: (m ++ (92 :: ([b].filter keep ++ bs.filter keep) ++ t)) :=
        (List.cons.inj heq).2
      have hmem : 92 ∉ ob := fun hx => by
        rw [encode_ofByte_ascii hob hx (by decide)] at hb
        exact absurd hb (by decide)
      obtain ⟨u', rfl, hos''⟩ := append_split hos' hmem
      exact ih hos he u' (m ++ 92 :: [b].filter keep) (by simpa using hos'')

/-- **No text in double quotes** is the encoding of what its contents read as. -/
theorem Reads.ne_quoted (h : Reads bs s) {o : List UInt8} (ho : encode handler s = some o)
    (t : List UInt8) : o ≠ 34 :: (bs.filter keep ++ t) := by
  intro heq
  induction h generalizing o with
  | nil =>
    obtain rfl : [] = o := Option.some.inj ho
    cases heq
  | @byte b bs s hb hs ih =>
    obtain ⟨ob, os, hob, hos, rfl⟩ := encode_cons.mp ho
    cases ob with
    | nil => exact encode_ne_nil hob
    | cons x ob =>
      -- the quote is the byte itself, so that the rest is quoted in its turn
      obtain rfl := (List.cons.inj heq).1
      obtain rfl := encode_ofByte_ascii hob List.mem_cons_self (by decide)
      obtain ⟨hnil, -⟩ := encode_singleton_ascii hob List.mem_cons_self (by decide)
      rw [(List.cons.inj hnil).2, List.filter_cons_of_pos (hkeep 34 (by decide))] at heq
      exact ih hos (List.cons.inj heq).2
  | @escape b more bs c s hb hc hs ih =>
    obtain ⟨oc, os, hoc, hos, rfl⟩ := encode_append_eq_some_iff.mp ho
    rw [filter_escape hkeep hb] at heq
    have hmem : 92 ∉ oc := by
      intro hx
      cases c with
      | nil =>
        obtain rfl : [] = oc := Option.some.inj hoc
        cases hx
      | cons p c =>
        obtain rfl : c = [] := by simpa using hc
        obtain ⟨rfl, -⟩ := encode_singleton_ascii hoc hx (by decide)
        exact absurd (List.cons.inj heq).1 (by decide)
    obtain ⟨u', -, hos'⟩ := append_split (u := [34]) heq hmem
    exact hs.ne_escape hkeep hos hb u' (more.filter keep) t (by simpa using hos')
  | @backslash b bs s hb hs ih =>
    obtain ⟨oh, o₁, hoh, -, rfl⟩ := encode_cons.mp ho
    obtain rfl : oh = [92] := encode_ascii (by decide) hoh
    exact absurd (List.cons.inj heq).1 (by decide)

end Quoted

/-- An ASCII byte of an encoding comes from its own code point. -/
theorem ofByte_mem_of_mem_encode {handler : Errors} {s : List CodePoint} {o : List UInt8}
    (h : encode handler s = some o) {b : UInt8} (hb : b ∈ o) (hascii : b.toNat < 0x80) :
    ofByte b ∈ s := by
  induction s generalizing o with
  | nil =>
    obtain rfl : [] = o := Option.some.inj h
    cases hb
  | cons c s ih =>
    obtain ⟨oc, os, hoc, hos, rfl⟩ := encode_cons.mp h
    rcases List.mem_append.mp hb with hb | hb
    · obtain ⟨-, hval⟩ := encode_singleton_ascii hoc hb hascii
      exact List.mem_cons.mpr (.inl (Fin.ext hval.symm))
    · exact List.mem_cons_of_mem _ (ih hos hb)

end UnicodeEscape
