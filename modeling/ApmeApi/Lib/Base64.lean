import ApmeApi.Lib.Text

/-!
# Base64

Three bytes are four digits of the base64 alphabet; one or two bytes at the end are padded with the
sign `=`. Decoding gives back what was encoded (`decode_encode`), and the encoding has bytes of the
alphabet and padding only.
-/

namespace Base64

/-- The digits, in the order of their values. -/
def alphabet : List UInt8 :=
  Text.utf8 "ABCDEFGHIJKLMNOPQRSTUVWXYZabcdefghijklmnopqrstuvwxyz0123456789+/".toList

/-- The digit of a number below 64. -/
def digit (n : ℕ) : UInt8 := alphabet.getD n 61

/-- The value of a digit. -/
def value (b : UInt8) : Option ℕ := alphabet.idxOf? b

def encode : List UInt8 → List UInt8
  | a :: b :: c :: bs =>
    let n := a.toNat * 65536 + b.toNat * 256 + c.toNat
    digit (n / 262144) :: digit (n / 4096 % 64) :: digit (n / 64 % 64) :: digit (n % 64) ::
      encode bs
  | [a, b] =>
    let n := a.toNat * 256 + b.toNat
    [digit (n / 1024), digit (n / 16 % 64), digit (n % 16 * 4), 61]
  | [a] => [digit (a.toNat / 4), digit (a.toNat % 4 * 16), 61, 61]
  | [] => []

def decode : List UInt8 → Option (List UInt8)
  | [] => some []
  | w :: x :: y :: z :: bs => do
    let p ← value w
    let q ← value x
    let first := UInt8.ofNat (p * 4 + q / 16)
    if z = 61 ∧ bs = [] then
      if y = 61 then return [first]
      else do
        let r ← value y
        return [first, UInt8.ofNat (q % 16 * 16 + r / 4)]
    else do
      let r ← value y
      let s ← value z
      let rest ← decode bs
      return first :: UInt8.ofNat (q % 16 * 16 + r / 4) :: UInt8.ofNat (r % 4 * 64 + s) :: rest
  | _ => none

theorem value_digit {n : ℕ} (h : n < 64) : value (digit n) = some n := by
  have key : ∀ n < 64, value (digit n) = some n := by decide +kernel
  exact key n h

theorem digit_ne_padding {n : ℕ} (h : n < 64) : digit n ≠ 61 := by
  have key : ∀ n < 64, digit n ≠ 61 := by decide +kernel
  exact key n h

theorem ofNat_eq {b : UInt8} {n : ℕ} (h : n = b.toNat) : UInt8.ofNat n = b := by
  rw [h, UInt8.ofNat_toNat]

/-- **The round trip.** -/
theorem decode_encode (bs : List UInt8) : decode (encode bs) = some bs := by
  induction bs using encode.induct with
  | case1 a b c bs ih =>
    have ha := a.toNat_lt
    have hb := b.toNat_lt
    have hc := c.toNat_lt
    rw [encode]
    generalize hn : a.toNat * 65536 + b.toNat * 256 + c.toNat = n
    have h₁ : n / 262144 < 64 := by omega
    have h₂ : n / 4096 % 64 < 64 := by omega
    have h₃ : n / 64 % 64 < 64 := by omega
    have h₄ : n % 64 < 64 := by omega
    have ea : n / 262144 * 4 + n / 4096 % 64 / 16 = a.toNat := by omega
    have eb : n / 4096 % 64 % 16 * 16 + n / 64 % 64 / 4 = b.toNat := by omega
    have ec : n / 64 % 64 % 4 * 64 + n % 64 = c.toNat := by omega
    have hlast : ¬ (digit (n % 64) = 61 ∧ encode bs = []) := fun h => digit_ne_padding h₄ h.1
    rw [decode, value_digit h₁, value_digit h₂, value_digit h₃, value_digit h₄, ih]
    simp only [Option.bind_eq_bind, Option.bind_some, Option.pure_def, if_neg hlast, ofNat_eq ea,
      ofNat_eq eb, ofNat_eq ec]
  | case2 a b =>
    have ha := a.toNat_lt
    have hb := b.toNat_lt
    rw [encode]
    generalize hn : a.toNat * 256 + b.toNat = n
    have h₁ : n / 1024 < 64 := by omega
    have h₂ : n / 16 % 64 < 64 := by omega
    have h₃ : n % 16 * 4 < 64 := by omega
    have ea : n / 1024 * 4 + n / 16 % 64 / 16 = a.toNat := by omega
    have eb : n / 16 % 64 % 16 * 16 + n % 16 * 4 / 4 = b.toNat := by omega
    rw [decode, value_digit h₁, value_digit h₂, value_digit h₃]
    simp only [Option.bind_eq_bind, Option.bind_some, Option.pure_def, and_self, if_true,
      if_neg (digit_ne_padding h₃), ofNat_eq ea, ofNat_eq eb]
  | case3 a =>
    have ha := a.toNat_lt
    have h₁ : a.toNat / 4 < 64 := by omega
    have h₂ : a.toNat % 4 * 16 < 64 := by omega
    have ea : a.toNat / 4 * 4 + a.toNat % 4 * 16 / 16 = a.toNat := by omega
    rw [encode, decode, value_digit h₁, value_digit h₂]
    simp only [Option.bind_eq_bind, Option.bind_some, Option.pure_def, and_self, if_true,
      ofNat_eq ea]
  | case4 => rfl

/-- An encoding is one line. -/
theorem feed_not_mem_encode (bs : List UInt8) : 10 ∉ encode bs := by
  have hdigit : ∀ n, digit n ≠ 10 := by
    intro n
    have hmem : digit n ∈ 61 :: alphabet := by
      rw [digit, List.getD_eq_getElem?_getD]
      cases h : alphabet[n]? with
      | none => exact List.mem_cons_self
      | some b => exact List.mem_cons_of_mem _ (List.mem_of_getElem? h)
    have hall : (61 :: alphabet).all (· ≠ 10) = true := by decide +kernel
    exact of_decide_eq_true (List.all_eq_true.mp hall _ hmem)
  induction bs using encode.induct with
  | case1 a b c bs ih => simp [encode, Ne.symm (hdigit _), ih]
  | case2 a b => simp [encode, Ne.symm (hdigit _)]
  | case3 a => simp [encode, Ne.symm (hdigit _)]
  | case4 => simp [encode]

end Base64
