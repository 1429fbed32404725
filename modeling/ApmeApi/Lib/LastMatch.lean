import Mathlib.Order.Defs.Unbundled
import Mathlib.Data.List.Basic

/-!
# The last match before a stop

A list is gone through up to the first element that stops it, and the last element that matches is
taken. In a list that is ordered by a strict relation, which of its elements that is can be said
without going through it: the elements reached are those before every stop
(`mem_takeWhile_iff`), and the one taken is the last that matches among them
(`lastMatch_eq_some_iff`).
-/

namespace LastMatch

variable {α : Type} {R : α → α → Prop} {go hit : α → Bool} {l : List α} {a : α}

/-- The last match among the elements before the first that does not let go on. -/
def lastMatch (go hit : α → Bool) (l : List α) : Option α :=
  ((l.takeWhile go).filter hit).getLast?

/-- An element is **reached** when it is before every stop. -/
def Reached (R : α → α → Prop) (go : α → Bool) (l : List α) (a : α) : Prop :=
  ∀ u ∈ l, go u = false → R a u

theorem mem_takeWhile_iff [Std.Asymm R] (h : l.Pairwise R) :
    a ∈ l.takeWhile go ↔ a ∈ l ∧ Reached R go l a := by
  induction l with
  | nil => simp
  | cons b l ih =>
    obtain ⟨hb, hl⟩ := List.pairwise_cons.mp h
    by_cases hgo : go b = true
    · rw [List.takeWhile_cons_of_pos hgo, List.mem_cons, List.mem_cons, ih hl]
      constructor
      · rintro (rfl | ⟨ha, hreach⟩)
        · refine ⟨.inl rfl, fun u hu hstop => ?_⟩
          rcases List.mem_cons.mp hu with rfl | hu
          · rw [hgo] at hstop
            cases hstop
          · exact hb u hu
        · refine ⟨.inr ha, fun u hu hstop => ?_⟩
          rcases List.mem_cons.mp hu with rfl | hu
          · rw [hgo] at hstop
            cases hstop
          · exact hreach u hu hstop
      · rintro ⟨rfl | ha, hreach⟩
        · exact .inl rfl
        · exact .inr ⟨ha, fun u hu => hreach u (List.mem_cons_of_mem _ hu)⟩
    · rw [List.takeWhile_cons_of_neg hgo]
      simp only [List.not_mem_nil, false_iff, not_and]
      intro ha hreach
      -- nothing is before the stop at the head
      have hab := hreach b List.mem_cons_self (by simpa using hgo)
      rcases List.mem_cons.mp ha with rfl | ha
      · exact Std.Asymm.asymm a a hab hab
      · exact Std.Asymm.asymm a b hab (hb a ha)

theorem getLast?_eq_some_iff [Std.Asymm R] (h : l.Pairwise R) :
    l.getLast? = some a ↔ a ∈ l ∧ ∀ b ∈ l, b ≠ a → R b a := by
  rcases List.eq_nil_or_concat' l with rfl | ⟨l, c, rfl⟩
  · simp
  · have hc : ∀ b ∈ l, R b c := fun b hb =>
      (List.pairwise_append.mp h).2.2 b hb c List.mem_cons_self
    rw [List.getLast?_concat, Option.some_inj]
    constructor
    · rintro rfl
      refine ⟨by simp, fun b hb hne => ?_⟩
      rcases List.mem_append.mp hb with hb | hb
      · exact hc b hb
      · exact absurd (List.mem_singleton.mp hb) hne
    · rintro ⟨ha, hlast⟩
      by_contra hne
      rcases List.mem_append.mp ha with ha | ha
      · exact Std.Asymm.asymm a c (hc a ha) (hlast c (by simp) hne)
      · exact hne (List.mem_singleton.mp ha).symm

/-- **The last match**: it is reached, and every other match that is reached is before it. -/
theorem lastMatch_eq_some_iff [Std.Asymm R] (h : l.Pairwise R) :
    lastMatch go hit l = some a ↔
      (a ∈ l ∧ hit a = true ∧ Reached R go l a) ∧
        ∀ b ∈ l, hit b = true → Reached R go l b → b ≠ a → R b a := by
  have hpairwise : ((l.takeWhile go).filter hit).Pairwise R :=
    (h.sublist (List.takeWhile_sublist go)).filter hit
  rw [lastMatch, getLast?_eq_some_iff hpairwise]
  simp only [List.mem_filter, mem_takeWhile_iff h]
  constructor
  · rintro ⟨⟨⟨ha, hreach⟩, hmatch⟩, hlast⟩
    exact ⟨⟨ha, hmatch, hreach⟩, fun b hb hb' hr => hlast b ⟨⟨hb, hr⟩, hb'⟩⟩
  · rintro ⟨⟨ha, hmatch, hreach⟩, hlast⟩
    exact ⟨⟨⟨ha, hreach⟩, hmatch⟩, fun b hb => hlast b hb.1.1 hb.2 hb.1.2⟩

/-- There is no last match when no match is reached. -/
theorem lastMatch_eq_none_iff [Std.Asymm R] (h : l.Pairwise R) :
    lastMatch go hit l = none ↔ ∀ a ∈ l, hit a = true → ¬ Reached R go l a := by
  rw [lastMatch, List.getLast?_eq_none_iff, List.filter_eq_nil_iff]
  simp only [mem_takeWhile_iff h, and_imp]
  constructor
  · intro hnone a ha hmatch hreach
    exact hnone a ha hreach hmatch
  · intro hnone a ha hreach hmatch
    exact hnone a ha hmatch hreach

end LastMatch
