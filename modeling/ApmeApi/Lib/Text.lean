import Mathlib.Data.List.Basic
import Mathlib.Tactic.IntervalCases

/-!
# Text as bytes and characters

Strings are sequences of Unicode scalar values with a UTF-8 encoding. This module has the
operations on them that a program over UTF-8 strings uses: the character classes of Unicode
(white space and control), trimming, prefixes, substring search, hexadecimal digits, and the
encoding and decoding of UTF-8.

Everything is structurally recursive on lists, so that concrete texts evaluate.
-/

namespace Text

/-! ### Character classes -/

/-- The Unicode property `White_Space`. -/
def isWhitespace (c : Char) : Bool :=
  let n := c.toNat
  (9 ≤ n && n ≤ 13) || n == 0x20 || n == 0x85 || n == 0xA0 || n == 0x1680 ||
    (0x2000 ≤ n && n ≤ 0x200A) || n == 0x2028 || n == 0x2029 || n == 0x202F || n == 0x205F ||
    n == 0x3000

/-- The Unicode category `Cc`: the C0 and C1 controls and DEL. -/
def isControl (c : Char) : Bool :=
  c.toNat < 0x20 || (0x7F ≤ c.toNat && c.toNat < 0xA0)

/-! ### Substrings -/

/-- White space removed at both ends. -/
def trim (s : String) : String :=
  String.ofList (((s.toList.dropWhile isWhitespace).reverse.dropWhile isWhitespace).reverse)

/-- The rest of a list after a prefix, if it has that prefix. -/
def stripPrefixList {α : Type} [DecidableEq α] : List α → List α → Option (List α)
  | [], s => some s
  | _ :: _, [] => none
  | a :: p, b :: s => if a = b then stripPrefixList p s else none

theorem stripPrefixList_eq_some_iff {α : Type} [DecidableEq α] {p s r : List α} :
    stripPrefixList p s = some r ↔ s = p ++ r := by
  induction p generalizing s with
  | nil => exact Option.some_inj
  | cons a p ih =>
    cases s with
    | nil => simp [stripPrefixList]
    | cons b s =>
      rw [stripPrefixList, Option.ite_none_right_eq_some, ih, List.cons_append, List.cons.injEq,
        eq_comm (a := b)]

/-- The rest of a string after a prefix, if it has that prefix. -/
def stripPrefix (p s : String) : Option String :=
  (stripPrefixList p.toList s.toList).map String.ofList

/-- Whether one list occurs in another as a contiguous part. -/
def containsList {α : Type} [DecidableEq α] (p : List α) : List α → Bool
  | [] => p.isEmpty
  | a :: s => (stripPrefixList p (a :: s)).isSome || containsList p s

/-- Whether one string occurs in another. -/
def contains (p s : String) : Bool := containsList p.toList s.toList

/-! ### Hexadecimal digits -/

/-- The lower-case hexadecimal digit of a number below sixteen. -/
def hexDigit (n : ℕ) : Char :=
  if n < 10 then Char.ofNat (48 + n) else Char.ofNat (87 + n)

/-- The value of a hexadecimal digit, in either case. -/
def hexValue (c : Char) : Option ℕ :=
  let n := c.toNat
  if 48 ≤ n && n ≤ 57 then some (n - 48)
  else if 97 ≤ n && n ≤ 102 then some (n - 87)
  else if 65 ≤ n && n ≤ 70 then some (n - 55)
  else none

theorem hexValue_lt {c : Char} {n : ℕ} (h : hexValue c = some n) : n < 16 := by
  simp only [hexValue, Bool.and_eq_true, decide_eq_true_eq] at h
  split_ifs at h with hdigit hlower hupper <;>
    · have hn := Option.some.inj h
      omega

theorem hexValue_hexDigit {n : ℕ} (h : n < 16) : hexValue (hexDigit n) = some n := by
  interval_cases n <;> rfl

/-- Reading back a digit: hexadecimal digits of different values differ. -/
theorem hexDigit_inj {m n : ℕ} (hm : m < 16) (hn : n < 16) (h : hexDigit m = hexDigit n) :
    m = n := by
  have hv : hexValue (hexDigit m) = hexValue (hexDigit n) := by rw [h]
  rw [hexValue_hexDigit hm, hexValue_hexDigit hn] at hv
  exact Option.some.inj hv

/-! ### UTF-8 -/

/-- The UTF-8 encoding of a sequence of characters. -/
def utf8 (cs : List Char) : List UInt8 := cs.flatMap String.utf8EncodeChar

/-- A continuation byte, as the six bits it carries. -/
def continuation (b : UInt8) : Option ℕ :=
  if 0x80 ≤ b.toNat ∧ b.toNat < 0xC0 then some (b.toNat - 0x80) else none

/-- The scalar value `n`, provided that it is one and at least `least`, the smallest that the
length of its encoding may carry. -/
def scalar (least n : ℕ) : Option Char :=
  if h : n.isValidChar then if least ≤ n then some (Char.ofNatAux n h) else none else none

/-- The characters that a byte sequence encodes, if it is well-formed UTF-8: no stray
continuation byte, no overlong form, no surrogate, nothing above `U+10FFFF`. -/
def utf8Decode : List UInt8 → Option (List Char)
  | [] => some []
  | a :: rest =>
    if a.toNat < 0x80 then do
      let cs ← utf8Decode rest
      return Char.ofNat a.toNat :: cs
    else if a.toNat < 0xC0 then none
    else match rest with
      | [] => none
      | b :: rest =>
        if a.toNat < 0xE0 then do
          let x ← continuation b
          let c ← scalar 0x80 ((a.toNat - 0xC0) * 0x40 + x)
          let cs ← utf8Decode rest
          return c :: cs
        else match rest with
          | [] => none
          | b' :: rest =>
            if a.toNat < 0xF0 then do
              let x ← continuation b
              let y ← continuation b'
              let c ← scalar 0x800 ((a.toNat - 0xE0) * 0x1000 + x * 0x40 + y)
              let cs ← utf8Decode rest
              return c :: cs
            else match rest with
              | [] => none
              | b'' :: rest =>
                if a.toNat < 0xF8 then do
                  let x ← continuation b
                  let y ← continuation b'
                  let z ← continuation b''
                  let c ← scalar 0x10000
                    ((a.toNat - 0xF0) * 0x40000 + x * 0x1000 + y * 0x40 + z)
                  let cs ← utf8Decode rest
                  return c :: cs
                else none

end Text
