import ApmeApi.Lib.Text
import Mathlib.Data.List.Sort

/-!
# JSON texts: writing values, reading flat records

The writer renders a JSON value compactly (no white space between tokens), with the shortest
escape of each character that needs one. Object members keep their order.

The reader is a deserializer for *flat records*: structures whose members are all strings (or
enumerations written as strings), with unknown members refused. It is a streaming reader over
bytes, so it accepts what such a deserializer accepts and nothing else: a JSON object with each
member exactly once, in any order and with any string escapes in names and values, or a JSON
array with the members in their declared order; white space between tokens; nothing after the
end. Strings must be well-formed UTF-8 once their escapes are resolved, control characters must
be escaped, and `\u` escapes of surrogates must come in pairs.
-/

/-- JSON values; objects are ordered lists of members. -/
inductive Json where
  | null
  | bool (b : Bool)
  | num (n : ℤ)
  | str (s : String)
  | arr (xs : List Json)
  | obj (members : List (String × Json))

namespace Json

/-- The bytes of an ASCII text, for the fixed tokens of the grammar. -/
def ascii (s : String) : List UInt8 := s.toList.map fun c => UInt8.ofNat c.toNat

/-! ### Writing -/

/-- One character inside a string literal. -/
def escapeChar (c : Char) : List UInt8 :=
  if c = '"' then ascii "\\\""
  else if c = '\\' then ascii "\\\\"
  else if c.toNat = 8 then ascii "\\b"
  else if c.toNat = 12 then ascii "\\f"
  else if c = '\n' then ascii "\\n"
  else if c = '\r' then ascii "\\r"
  else if c = '\t' then ascii "\\t"
  else if c.toNat < 32 then
    ascii "\\u00" ++ Text.utf8 [Text.hexDigit (c.toNat / 16), Text.hexDigit (c.toNat % 16)]
  else String.utf8EncodeChar c

/-- A string literal. -/
def quote (s : String) : List UInt8 := 0x22 :: (s.toList.flatMap escapeChar ++ [0x22])

/-- The decimal notation of an integer. -/
def decimal (n : ℤ) : List UInt8 :=
  (if n < 0 then [0x2D] else []) ++ Text.utf8 (Nat.toDigits 10 n.natAbs)

mutual

/-- The compact JSON text of a value. -/
def render : Json → List UInt8
  | .null => ascii "null"
  | .bool true => ascii "true"
  | .bool false => ascii "false"
  | .num n => decimal n
  | .str s => quote s
  | .arr xs => 0x5B :: (renderElements xs ++ [0x5D])
  | .obj ms => 0x7B :: (renderMembers ms ++ [0x7D])

/-- The elements of an array, separated by commas. -/
def renderElements : List Json → List UInt8
  | [] => []
  | [x] => render x
  | x :: xs => render x ++ 0x2C :: renderElements xs

/-- The members of an object, separated by commas. -/
def renderMembers : List (String × Json) → List UInt8
  | [] => []
  | [(k, v)] => quote k ++ 0x3A :: render v
  | (k, v) :: ms => quote k ++ 0x3A :: (render v ++ 0x2C :: renderMembers ms)

end

mutual

/-- The value with the members of every object in the order of their names, as a map with
ordered keys holds them. -/
def toValue : Json → Json
  | .arr xs => .arr (elementsToValue xs)
  | .obj ms => .obj ((membersToValue ms).insertionSort fun a b => a.1 ≤ b.1)
  | v => v

/-- The elements of an array. -/
def elementsToValue : List Json → List Json
  | [] => []
  | x :: xs => toValue x :: elementsToValue xs

/-- The members of an object. -/
def membersToValue : List (String × Json) → List (String × Json)
  | [] => []
  | (k, v) :: ms => (k, toValue v) :: membersToValue ms

end

/-! ### Lengths -/

/-- The bytes that a member takes, without separators. -/
def memberLength (m : String × Json) : ℕ := (quote m.1).length + (1 + (render m.2).length)

theorem length_renderMembers (ms : List (String × Json)) :
    (renderMembers ms).length = (ms.map memberLength).sum + (ms.length - 1) := by
  induction ms with
  | nil => rfl
  | cons m ms ih =>
    obtain ⟨k, v⟩ := m
    cases ms with
    | nil =>
      simp only [renderMembers, memberLength, List.length_append, List.length_cons, List.map_cons,
        List.map_nil, List.sum_cons, List.sum_nil, List.length_nil]
      omega
    | cons m' ms =>
      simp only [renderMembers, memberLength, List.length_append, List.length_cons, List.map_cons,
        List.sum_cons] at ih ⊢
      omega

theorem length_renderElements (xs : List Json) :
    (renderElements xs).length =
      (xs.map fun x => (render x).length).sum + (xs.length - 1) := by
  induction xs with
  | nil => rfl
  | cons x xs ih =>
    cases xs with
    | nil => simp [renderElements]
    | cons x' xs =>
      simp only [renderElements, List.length_append, List.length_cons, List.map_cons,
        List.sum_cons] at ih ⊢
      omega

mutual

/-- The order of members does not change the length of a text. -/
theorem length_render_toValue (v : Json) : (render (toValue v)).length = (render v).length := by
  cases v with
  | arr xs =>
    have h := map_length_elementsToValue xs
    have hlen := congrArg List.length h
    simp only [List.length_map] at hlen
    simp only [toValue, render, List.length_cons, List.length_append, length_renderElements, h,
      hlen]
  | obj ms =>
    have h := map_length_membersToValue ms
    have hlen := congrArg List.length h
    simp only [List.length_map] at hlen
    have hperm := List.perm_insertionSort (fun a b : String × Json => a.1 ≤ b.1)
      (membersToValue ms)
    simp only [toValue, render, List.length_cons, List.length_append, length_renderMembers,
      (hperm.map memberLength).sum_nat, h, hperm.length_eq, hlen]
  | null => rfl
  | bool b => rfl
  | num n => rfl
  | str s => rfl

/-- The elements keep their lengths. -/
theorem map_length_elementsToValue (xs : List Json) :
    (elementsToValue xs).map (fun x => (render x).length) = xs.map fun x => (render x).length := by
  cases xs with
  | nil => rfl
  | cons x xs =>
    rw [elementsToValue, List.map_cons, List.map_cons, length_render_toValue x,
      map_length_elementsToValue xs]

/-- The members keep their lengths. -/
theorem map_length_membersToValue (ms : List (String × Json)) :
    (membersToValue ms).map memberLength = ms.map memberLength := by
  cases ms with
  | nil => rfl
  | cons m ms =>
    obtain ⟨k, v⟩ := m
    rw [membersToValue, List.map_cons, List.map_cons, map_length_membersToValue ms, memberLength,
      memberLength, length_render_toValue v]

end

/-- A text of characters that need no escape and one byte each. -/
theorem length_quote {s : String} (h : ∀ c ∈ s.toList, (escapeChar c).length = 1) :
    (quote s).length = s.toList.length + 2 := by
  have hsum : (s.toList.flatMap escapeChar).length = s.toList.length := by
    rw [List.length_flatMap, List.map_congr_left h]
    simp
  rw [quote, List.length_cons, List.length_append, hsum]
  rfl

/-! ### Reading string literals -/

/-- White space between tokens skipped. -/
def skipWs : List UInt8 → List UInt8
  | [] => []
  | b :: bs => if b = 0x20 ∨ b = 0x0A ∨ b = 0x09 ∨ b = 0x0D then skipWs bs else b :: bs

/-- The two-character escapes. -/
def simpleEscape (b : UInt8) : Option UInt8 :=
  if b = 0x22 ∨ b = 0x5C ∨ b = 0x2F then some b
  else if b = 0x62 then some 0x08
  else if b = 0x66 then some 0x0C
  else if b = 0x6E then some 0x0A
  else if b = 0x72 then some 0x0D
  else if b = 0x74 then some 0x09
  else none

/-- The value of a byte that is a hexadecimal digit. -/
def hexByte (b : UInt8) : Option ℕ := Text.hexValue (Char.ofNat b.toNat)

/-- The four digits of a `\u` escape. -/
def hex4 (a b c d : UInt8) : Option ℕ := do
  let x ← hexByte a
  let y ← hexByte b
  let z ← hexByte c
  let w ← hexByte d
  return ((x * 16 + y) * 16 + z) * 16 + w

/-- The content of a string literal after its opening quote, escapes resolved and not yet
checked to be UTF-8, and what follows the closing quote. -/
def readStringBytes : List UInt8 → Option (List UInt8 × List UInt8)
  | [] => none
  | b :: rest =>
    if b = 0x22 then some ([], rest)
    else if b = 0x5C then
      match rest with
      | [] => none
      | e :: rest =>
        match simpleEscape e with
        | some x => (readStringBytes rest).map fun r => (x :: r.1, r.2)
        | none =>
          if e = 0x75 then
            match rest with
            | a :: b :: c :: d :: rest =>
              match hex4 a b c d with
              | none => none
              | some n =>
                if 0xDC00 ≤ n ∧ n ≤ 0xDFFF then none
                else if n < 0xD800 ∨ 0xDBFF < n then
                  (readStringBytes rest).map fun r => (Text.utf8 [Char.ofNat n] ++ r.1, r.2)
                else
                  -- a leading surrogate: the trailing one must follow at once
                  match rest with
                  | e₀ :: e₁ :: a :: b :: c :: d :: rest =>
                    match hex4 a b c d with
                    | none => none
                    | some m =>
                      if e₀ = 0x5C ∧ e₁ = 0x75 ∧ 0xDC00 ≤ m ∧ m ≤ 0xDFFF then
                        (readStringBytes rest).map fun r =>
                          (Text.utf8 [Char.ofNat ((n - 0xD800) * 0x400 + (m - 0xDC00) + 0x10000)]
                            ++ r.1, r.2)
                      else none
                  | _ => none
            | _ => none
          else none
    else if b.toNat < 0x20 then none
    else (readStringBytes rest).map fun r => (b :: r.1, r.2)

/-- A string literal after its opening quote, and what follows it. -/
def readLiteral (bs : List UInt8) : Option (String × List UInt8) := do
  let (content, rest) ← readStringBytes bs
  let cs ← Text.utf8Decode content
  return (String.ofList cs, rest)

/-- A string value: white space, then a string literal. -/
def readString (bs : List UInt8) : Option (String × List UInt8) :=
  match skipWs bs with
  | 0x22 :: rest => readLiteral rest
  | _ => none

/-- The given tokens, each after optional white space. -/
def readTokens : List (List UInt8) → List UInt8 → Option (List UInt8)
  | [], bs => some bs
  | t :: ts, bs => (Text.stripPrefixList t (skipWs bs)).bind (readTokens ts)

/-- A unit variant of an enumeration: the name of the variant as a string, or as the only
member of an object whose value is `null`. -/
def readVariant (bs : List UInt8) : Option (String × List UInt8) :=
  match skipWs bs with
  | 0x22 :: rest => readLiteral rest
  | 0x7B :: rest => do
    let (name, rest) ← readString rest
    let rest ← readTokens [[0x3A], ascii "null", [0x7D]] rest
    return (name, rest)
  | _ => none

/-! ### Reading flat records -/

/-- How the value of a member is read. -/
abbrev Reader := List UInt8 → Option (String × List UInt8)

/-- The members of an object after its opening brace. `fields` are the fields not read yet:
a member with any other name is unknown or a duplicate, and the object may end only when no
field is missing. -/
def readMembers (reader : String → Reader) (first : Bool) :
    ℕ → List String → List UInt8 → Option (List (String × String) × List UInt8)
  | 0, _, bs =>
    match skipWs bs with
    | 0x7D :: rest => some ([], rest)
    | _ => none
  | n + 1, fields, bs => do
    let bs ← if first then some (skipWs bs) else readTokens [[0x2C]] bs
    let (k, rest) ← readString bs
    let rest ← if k ∈ fields then readTokens [[0x3A]] rest else none
    let (v, rest) ← reader k rest
    let (ms, rest) ← readMembers reader false n (fields.erase k) rest
    return ((k, v) :: ms, rest)

/-- The elements of an array after its opening bracket, one for each field. -/
def readElements (reader : String → Reader) (first : Bool) :
    List String → List UInt8 → Option (List (String × String) × List UInt8)
  | [], bs =>
    match skipWs bs with
    | 0x5D :: rest => some ([], rest)
    | _ => none
  | k :: ks, bs => do
    let bs ← if first then some bs else readTokens [[0x2C]] bs
    let (v, rest) ← reader k bs
    let (ms, rest) ← readElements reader false ks rest
    return ((k, v) :: ms, rest)

/-- A complete JSON text that denotes a flat record with the given fields. -/
def readRecord (reader : String → Reader) (fields : List String) (bs : List UInt8) :
    Option (List (String × String)) := do
  let (ms, rest) ← match skipWs bs with
    | 0x7B :: rest => readMembers reader true fields.length fields rest
    | 0x5B :: rest => readElements reader true fields rest
    | _ => none
  if skipWs rest = [] then some ms else none

/-- The value of a field of a record that was read. -/
def field (name : String) (ms : List (String × String)) : Option String :=
  (ms.find? fun m => m.1 = name).map Prod.snd

end Json
