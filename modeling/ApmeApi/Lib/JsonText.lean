import ApmeApi.Lib.StringLiteral

/-!
# Compact texts are uniquely decodable

A compact JSON text determines its value (`render_injective`). The induction needs the statement
inside a larger text: what follows a value is the end, a comma or a closing bracket, and then
the value and what follows it are determined (`render_append_inj`). Literals close themselves,
the digits of a number end where no digit follows, and the first byte of a text tells which kind
of value it is.
-/

namespace Json

open Text

/-! ### Numbers -/

/-- A byte that is a decimal digit. -/
def IsDigit (b : UInt8) : Prop := 0x30 ≤ b.toNat ∧ b.toNat ≤ 0x39

/-- Two lists with a common property up to a first element without it are split there. -/
theorem append_inj_of_forall {α : Type} {p : α → Prop} {xs ys r s : List α}
    (hx : ∀ a ∈ xs, p a) (hy : ∀ a ∈ ys, p a) (hr : ∀ a ∈ r.head?, ¬ p a)
    (hs : ∀ a ∈ s.head?, ¬ p a) (h : xs ++ r = ys ++ s) : xs = ys ∧ r = s := by
  induction xs generalizing ys with
  | nil =>
    cases ys with
    | nil => exact ⟨rfl, h⟩
    | cons y ys =>
      rw [List.nil_append] at h
      exact absurd (hy y List.mem_cons_self) (hr y (by rw [h]; rfl))
  | cons x xs ih =>
    obtain ⟨hxp, hxs⟩ := List.forall_mem_cons.mp hx
    cases ys with
    | nil =>
      rw [List.nil_append] at h
      exact absurd hxp (hs x (by rw [← h]; rfl))
    | cons y ys =>
      obtain ⟨rfl, htail⟩ := List.cons.inj h
      obtain ⟨rfl, hrs⟩ := ih hxs (List.forall_mem_cons.mp hy).2 htail
      exact ⟨rfl, hrs⟩

/-- The digits of a natural number. -/
theorem isDigit_toDigits {n : ℕ} {b : UInt8} (hb : b ∈ utf8 (Nat.toDigits 10 n)) : IsDigit b := by
  have hchar : ∀ c ∈ Nat.toDigits 10 n, 0x30 ≤ c.toNat ∧ c.toNat ≤ 0x39 := by
    intro c hc
    have hd := Nat.isDigit_of_mem_toDigits (by decide) (by decide) hc
    simp only [Char.isDigit, Bool.and_eq_true, decide_eq_true_eq] at hd
    exact hd
  rw [utf8_ascii fun c hc => by have := hchar c hc; omega] at hb
  obtain ⟨c, hc, rfl⟩ := List.mem_map.mp hb
  have := hchar c hc
  rw [IsDigit, UInt8.toNat_ofNat']
  omega

/-- The decimal notation determines a natural number. -/
theorem toDigits_injective : Function.Injective (Nat.toDigits 10) := by
  intro m n h
  have hm := Nat.ofDigitChars_ten_toDigits (n := m)
  rw [h, Nat.ofDigitChars_ten_toDigits] at hm
  exact hm.symm

/-- A natural number has a first digit. -/
theorem utf8_toDigits_eq_cons (n : ℕ) :
    ∃ b bs, utf8 (Nat.toDigits 10 n) = b :: bs ∧ IsDigit b := by
  cases hdigits : utf8 (Nat.toDigits 10 n) with
  | nil => exact absurd (utf8_injective (hdigits.trans utf8_nil.symm)) Nat.toDigits_ne_nil
  | cons b bs => exact ⟨b, bs, rfl, isDigit_toDigits (hdigits ▸ List.mem_cons_self)⟩

/-- A number starts with its sign or a digit. -/
theorem decimal_eq_cons (n : ℤ) : ∃ b bs, decimal n = b :: bs ∧ (b = 0x2D ∨ IsDigit b) := by
  obtain ⟨b, bs, hdigits, hb⟩ := utf8_toDigits_eq_cons n.natAbs
  rw [decimal, hdigits]
  split_ifs with hneg
  · exact ⟨0x2D, _, rfl, .inl rfl⟩
  · exact ⟨b, bs, rfl, .inr hb⟩

/-- **Numbers end where no digit follows.** -/
theorem decimal_append_inj {m n : ℤ} {r s : List UInt8} (hr : ∀ b ∈ r.head?, ¬ IsDigit b)
    (hs : ∀ b ∈ s.head?, ¬ IsDigit b) (h : decimal m ++ r = decimal n ++ s) :
    m = n ∧ r = s := by
  have hsign : ¬ IsDigit 0x2D := by
    unfold IsDigit
    decide
  -- the digits of the absolute values agree once the signs do
  have hdigits : ∀ {r s : List UInt8}, (∀ b ∈ r.head?, ¬ IsDigit b) →
      (∀ b ∈ s.head?, ¬ IsDigit b) →
      utf8 (Nat.toDigits 10 m.natAbs) ++ r = utf8 (Nat.toDigits 10 n.natAbs) ++ s →
        m.natAbs = n.natAbs ∧ r = s := by
    intro r s hr hs h
    obtain ⟨hd, hrs⟩ := append_inj_of_forall (fun _ => isDigit_toDigits)
      (fun _ => isDigit_toDigits) hr hs h
    exact ⟨toDigits_injective (utf8_injective hd), hrs⟩
  obtain ⟨b, bs, hb, hbd⟩ := utf8_toDigits_eq_cons m.natAbs
  obtain ⟨c, cs, hc, hcd⟩ := utf8_toDigits_eq_cons n.natAbs
  rw [decimal, decimal] at h
  split_ifs at h with hm hn hn
  · obtain ⟨habs, hrs⟩ := hdigits hr hs (List.cons.inj h).2
    exact ⟨by omega, hrs⟩
  · rw [hc] at h
    exact absurd ((List.cons.inj h).1 ▸ hcd) hsign
  · rw [hb] at h
    exact absurd ((List.cons.inj h).1 ▸ hbd) hsign
  · obtain ⟨habs, hrs⟩ := hdigits hr hs h
    exact ⟨by omega, hrs⟩

/-! ### Values -/

/-- The kinds of values, and of the bytes that start their texts. -/
inductive Kind where
  | null
  | bool
  | num
  | str
  | arr
  | obj
  | none
  deriving DecidableEq

/-- The kind of a value. -/
def kind : Json → Kind
  | .null => .null
  | .bool _ => .bool
  | .num _ => .num
  | .str _ => .str
  | .arr _ => .arr
  | .obj _ => .obj

/-- The kind that a first byte announces. -/
def kindOf (b : UInt8) : Kind :=
  if b = 0x6E then .null
  else if b = 0x74 ∨ b = 0x66 then .bool
  else if b = 0x22 then .str
  else if b = 0x5B then .arr
  else if b = 0x7B then .obj
  else if b = 0x2D ∨ 0x30 ≤ b.toNat ∧ b.toNat ≤ 0x39 then .num
  else .none

/-- **The first byte tells the kind.** -/
theorem render_eq_cons (v : Json) : ∃ b bs, render v = b :: bs ∧ kindOf b = kind v := by
  cases v with
  | null => exact ⟨0x6E, _, rfl, rfl⟩
  | bool b =>
    cases b with
    | false => exact ⟨0x66, _, rfl, rfl⟩
    | true => exact ⟨0x74, _, rfl, rfl⟩
  | num n =>
    obtain ⟨b, bs, hn, hb⟩ := decimal_eq_cons n
    refine ⟨b, bs, hn, ?_⟩
    rcases hb with rfl | hb
    · rfl
    · obtain ⟨hlo, hhi⟩ := hb
      have hne : ∀ x : UInt8, x.toNat < 0x30 ∨ 0x39 < x.toNat → b ≠ x := by
        rintro x hx rfl
        omega
      simp only [kindOf, kind]
      rw [if_neg (hne _ (by decide)), if_neg (not_or.mpr ⟨hne _ (by decide), hne _ (by decide)⟩),
        if_neg (hne _ (by decide)), if_neg (hne _ (by decide)), if_neg (hne _ (by decide)),
        if_pos (.inr ⟨hlo, hhi⟩)]
  | str s => exact ⟨0x22, _, rfl, rfl⟩
  | arr xs => exact ⟨0x5B, _, rfl, rfl⟩
  | obj ms => exact ⟨0x7B, _, rfl, rfl⟩

/-- Texts with the same first bytes have values of the same kind. -/
theorem kind_eq {v w : Json} {r s : List UInt8} (h : render v ++ r = render w ++ s) :
    kind v = kind w := by
  obtain ⟨b, bs, hv, hb⟩ := render_eq_cons v
  obtain ⟨c, cs, hw, hc⟩ := render_eq_cons w
  rw [hv, hw] at h
  rw [← hb, ← hc, (List.cons.inj h).1]

/-- A value does not start with a byte that announces none. -/
theorem render_append_ne {v : Json} {b : UInt8} (hb : kindOf b = .none) {r s : List UInt8} :
    render v ++ r ≠ b :: s := by
  intro h
  obtain ⟨c, cs, hv, hc⟩ := render_eq_cons v
  rw [hv] at h
  rw [(List.cons.inj h).1, hb] at hc
  cases v <;> cases hc

/-- What may follow a value inside a text: a comma, a closing bracket or the end. -/
def Delimited (r : List UInt8) : Prop := ∀ b ∈ r.head?, b = 0x2C ∨ b = 0x5D ∨ b = 0x7D

/-- The elements after the first one, with the comma before them. -/
def elementsTail : List Json → List UInt8
  | [] => []
  | xs => 0x2C :: renderElements xs

/-- The members after the first one, with the comma before them. -/
def membersTail : List (String × Json) → List UInt8
  | [] => []
  | ms => 0x2C :: renderMembers ms

theorem renderElements_cons (x : Json) (xs : List Json) :
    renderElements (x :: xs) = render x ++ elementsTail xs := by
  cases xs with
  | nil => rw [renderElements, elementsTail, List.append_nil]
  | cons y ys => rfl

theorem renderMembers_cons (k : String) (v : Json) (ms : List (String × Json)) :
    renderMembers ((k, v) :: ms) = quote k ++ 0x3A :: (render v ++ membersTail ms) := by
  cases ms with
  | nil => rw [renderMembers, membersTail, List.append_nil]
  | cons m ms => rfl

theorem delimited_elementsTail (xs : List Json) (r : List UInt8) :
    Delimited (elementsTail xs ++ 0x5D :: r) := by
  intro b hb
  cases xs with
  | nil => exact .inr (.inl (Option.some.inj hb).symm)
  | cons x xs => exact .inl (Option.some.inj hb).symm

theorem delimited_membersTail (ms : List (String × Json)) (r : List UInt8) :
    Delimited (membersTail ms ++ 0x7D :: r) := by
  intro b hb
  cases ms with
  | nil => exact .inr (.inr (Option.some.inj hb).symm)
  | cons m ms => exact .inl (Option.some.inj hb).symm

mutual

/-- **A value and what follows it are determined by the text.** -/
theorem render_append_inj (v w : Json) {r s : List UInt8} (hr : Delimited r) (hs : Delimited s)
    (h : render v ++ r = render w ++ s) : v = w ∧ r = s := by
  -- the first byte tells the kind of a value; only a number needs what follows to end it
  have hkind := kind_eq h
  have hdigit : ∀ {r : List UInt8}, Delimited r → ∀ b ∈ r.head?, ¬ IsDigit b := by
    intro r hr b hb hd
    rcases hr b hb with rfl | rfl | rfl <;> exact absurd hd (by unfold IsDigit; decide)
  cases v with
  | null =>
    cases w with
    | null => exact ⟨rfl, List.append_cancel_left h⟩
    | _ => cases hkind
  | bool b =>
    cases w with
    | bool c =>
      obtain rfl : b = c := by
        cases b <;> cases c
        · rfl
        · exact absurd (List.cons.inj h).1 (by decide)
        · exact absurd (List.cons.inj h).1 (by decide)
        · rfl
      exact ⟨rfl, List.append_cancel_left h⟩
    | _ => cases hkind
  | num m =>
    cases w with
    | num n =>
      obtain ⟨rfl, hrs⟩ := decimal_append_inj (hdigit hr) (hdigit hs) h
      exact ⟨rfl, hrs⟩
    | _ => cases hkind
  | str a =>
    cases w with
    | str b =>
      obtain ⟨rfl, hrs⟩ := quote_append_inj h
      exact ⟨rfl, hrs⟩
    | _ => cases hkind
  | arr xs =>
    cases w with
    | arr ys =>
      simp only [render, List.cons_append, List.append_assoc, List.nil_append, List.cons.injEq,
        true_and] at h
      obtain ⟨rfl, hrs⟩ := renderElements_append_inj xs ys h
      exact ⟨rfl, hrs⟩
    | _ => cases hkind
  | obj ms =>
    cases w with
    | obj ns =>
      simp only [render, List.cons_append, List.append_assoc, List.nil_append, List.cons.injEq,
        true_and] at h
      obtain ⟨rfl, hrs⟩ := renderMembers_append_inj ms ns h
      exact ⟨rfl, hrs⟩
    | _ => cases hkind

/-- Elements up to their closing bracket are determined by the text. -/
theorem renderElements_append_inj (xs ys : List Json) {r s : List UInt8}
    (h : renderElements xs ++ 0x5D :: r = renderElements ys ++ 0x5D :: s) : xs = ys ∧ r = s := by
  cases xs with
  | nil =>
    cases ys with
    | nil => exact ⟨rfl, (List.cons.inj h).2⟩
    | cons y ys =>
      rw [renderElements_cons, List.append_assoc] at h
      exact absurd h.symm (render_append_ne rfl)
  | cons x xs =>
    cases ys with
    | nil =>
      rw [renderElements_cons, List.append_assoc] at h
      exact absurd h (render_append_ne rfl)
    | cons y ys =>
      rw [renderElements_cons, renderElements_cons, List.append_assoc, List.append_assoc] at h
      obtain ⟨rfl, htail⟩ := render_append_inj x y (delimited_elementsTail xs r)
        (delimited_elementsTail ys s) h
      cases xs with
      | nil =>
        cases ys with
        | nil => exact ⟨rfl, (List.cons.inj htail).2⟩
        | cons y' ys => exact absurd (List.cons.inj htail).1 (by decide)
      | cons x' xs =>
        cases ys with
        | nil => exact absurd (List.cons.inj htail).1 (by decide)
        | cons y' ys =>
          obtain ⟨hxs, hrs⟩ := renderElements_append_inj (x' :: xs) (y' :: ys)
            (List.cons.inj htail).2
          exact ⟨by rw [hxs], hrs⟩

/-- Members up to their closing brace are determined by the text. -/
theorem renderMembers_append_inj (ms ns : List (String × Json)) {r s : List UInt8}
    (h : renderMembers ms ++ 0x7D :: r = renderMembers ns ++ 0x7D :: s) : ms = ns ∧ r = s := by
  cases ms with
  | nil =>
    cases ns with
    | nil => exact ⟨rfl, (List.cons.inj h).2⟩
    | cons n ns =>
      rw [renderMembers_cons, List.append_assoc] at h
      exact absurd (List.cons.inj h).1 (by decide)
  | cons m ms =>
    obtain ⟨k, v⟩ := m
    cases ns with
    | nil =>
      rw [renderMembers_cons, List.append_assoc] at h
      exact absurd (List.cons.inj h).1 (by decide)
    | cons n ns =>
      obtain ⟨k', w⟩ := n
      simp only [renderMembers_cons, List.append_assoc, List.cons_append] at h
      obtain ⟨rfl, hmember⟩ := quote_append_inj h
      obtain ⟨rfl, htail⟩ := render_append_inj v w (delimited_membersTail ms r)
        (delimited_membersTail ns s) (List.cons.inj hmember).2
      cases ms with
      | nil =>
        cases ns with
        | nil => exact ⟨rfl, (List.cons.inj htail).2⟩
        | cons n ns => exact absurd (List.cons.inj htail).1 (by decide)
      | cons m ms =>
        cases ns with
        | nil => exact absurd (List.cons.inj htail).1 (by decide)
        | cons n ns =>
          obtain ⟨hms, hrs⟩ := renderMembers_append_inj (m :: ms) (n :: ns)
            (List.cons.inj htail).2
          exact ⟨by rw [hms], hrs⟩

end

/-- **The text of a value determines it.** -/
theorem render_injective : Function.Injective render := by
  intro v w h
  have hend : Delimited [] := fun b hb => by cases hb
  exact (render_append_inj v w hend hend (by rw [h])).1

end Json
