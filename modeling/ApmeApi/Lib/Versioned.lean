import ApmeApi.Lib.Refinement
import Mathlib.Algebra.Order.Group.Int

/-!
# Versioned records

A record that is written under optimistic concurrency control, over any content: it is created
once, in version one; an update names the version that it expects and takes effect on a live record
in that version only, raising it by one; at any time the record may be retired, for good.

`machine` is the abstract machine of one record. Of all its executions: the record only moves
forward (`Execution.advances`), every expected version is used up by one update
(`Execution.expected_increasing`), the version counts the updates (`Execution.version_eq`), and a
relation between contents that every update respects holds between any two live states
(`Execution.content_related`).
-/

namespace Versioned

open Interaction

/-- What a record holds, with which contents it may be created and how it may be updated. -/
structure Spec where
  Content : Type
  Creation : Type
  Update : Type
  initial : Creation → Content → Prop
  apply : Update → Content → Content → Prop

/-- The state of a record. -/
inductive Record (κ : Type) where
  | absent
  | live (version : ℤ) (content : κ)
  | retired

/-- A write to a record. -/
inductive Operation (S : Spec) where
  | create (c : S.Creation)
  | update (expected : ℤ) (u : S.Update)

/-- The effect of a write. -/
inductive Step (S : Spec) : Record S.Content → Operation S → Record S.Content → Prop
  | create {c : S.Creation} {k : S.Content} (h : S.initial c k) :
      Step S .absent (.create c) (.live 1 k)
  | update {u : S.Update} {v : ℤ} {k k' : S.Content} (h : S.apply u k k') :
      Step S (.live v k) (.update v u) (.live (v + 1) k')

/-- What may happen to a record besides. -/
inductive Internal {κ : Type} : Record κ → Record κ → Prop
  | refl (s : Record κ) : Internal s s
  | retire (v : ℤ) (k : κ) : Internal (.live v k) .retired

/-- The abstract machine of a record. -/
abbrev machine (S : Spec) : AbstractMachine where
  State := Record S.Content
  Label := Operation S
  step := Step S
  internal := Internal

/-- What a reader is shown: version and content of a live record. -/
def Record.visible {κ : Type} : Record κ → Option (ℤ × κ)
  | .live v k => some (v, k)
  | _ => none

@[simp]
theorem Record.visible_live {κ : Type} (v : ℤ) (k : κ) : (live v k).visible = some (v, k) := rfl

theorem Record.visible_eq_some {κ : Type} {s : Record κ} {v : ℤ} {k : κ}
    (h : s.visible = some (v, k)) : s = .live v k := by
  cases s with
  | absent => cases h
  | retired => cases h
  | live v' k' =>
    obtain ⟨rfl, rfl⟩ := Prod.mk.inj (Option.some.inj h)
    rfl

/-- The version of a record, none before its creation. -/
def Record.version {κ : Type} : Record κ → ℤ
  | .live v _ => v
  | _ => 0

/-- The version that a write expects. -/
def Operation.expected {S : Spec} : Operation S → Option ℤ
  | .create _ => none
  | .update v _ => some v

/-! ### Progress -/

/-- **The order in which a record moves**: it is created, its version grows and its content changes
with its version only, and once retired it stays so. -/
inductive Record.Advances {κ : Type} : Record κ → Record κ → Prop
  | absent (s : Record κ) : Advances .absent s
  | same (v : ℤ) (k : κ) : Advances (.live v k) (.live v k)
  | raised {v v' : ℤ} (k k' : κ) (h : v < v') : Advances (.live v k) (.live v' k')
  | retired (v : ℤ) (k : κ) : Advances (.live v k) .retired
  | stays : Advances .retired .retired

namespace Record.Advances

variable {κ : Type} {a b c : Record κ}

theorem refl (a : Record κ) : Advances a a := by
  cases a with
  | absent => exact .absent _
  | live v k => exact .same v k
  | retired => exact .stays

theorem trans (h : Advances a b) (h' : Advances b c) : Advances a c := by
  cases h with
  | absent => exact .absent _
  | stays => exact h'
  | same => exact h'
  | retired v k =>
    cases h'
    exact .retired v k
  | @raised v v' k k' hlt =>
    cases h' with
    | same => exact .raised k k' hlt
    | raised _ k'' hlt' => exact .raised k k'' (hlt.trans hlt')
    | retired => exact .retired v k

/-- What a reader is shown later is not older. -/
theorem visible (h : Advances a b) {v v' : ℤ} {k k' : κ} (ha : a.visible = some (v, k))
    (hb : b.visible = some (v', k')) : v ≤ v' ∧ (v = v' → k = k') := by
  obtain rfl := Record.visible_eq_some ha
  obtain rfl := Record.visible_eq_some hb
  cases h with
  | same => exact ⟨le_rfl, fun _ => rfl⟩
  | raised _ _ hlt => exact ⟨hlt.le, fun heq => absurd heq hlt.ne⟩

/-- What was shown once and is not shown any more, is never shown again. -/
theorem not_visible (h : Advances a b) (h' : Advances b c) (ha : a.visible.isSome = true)
    (hb : b.visible = none) : c = .retired := by
  cases h with
  | absent => cases ha
  | same => cases hb
  | raised => cases hb
  | stays => cases ha
  | retired =>
    cases h'
    rfl

end Record.Advances

/-! ### Executions -/

section Executions

variable {S : Spec} {s s' : (machine S).State} {ls : List (machine S).Label}

theorem Step.advances {s s' : Record S.Content} {l : Operation S} (h : Step S s l s') :
    Record.Advances s s' := by
  cases h with
  | create => exact .absent _
  | update => exact .raised _ _ (by omega)

/-- A write leaves a live record. -/
theorem Step.ne_retired {s s' : Record S.Content} {l : Operation S} (h : Step S s l s') :
    s' ≠ .retired := by
  cases h <;> simp

/-- The version that a write produces is determined. -/
theorem Step.version_eq {s : Record S.Content} {l : Operation S} {v v' : ℤ} {k k' : S.Content}
    (h : Step S s l (.live v k)) (h' : Step S s l (.live v' k')) : v = v' := by
  cases h with
  | create =>
    cases h'
    rfl
  | update =>
    cases h'
    rfl

theorem Internal.advances {s s' : Record S.Content} (h : Internal s s') : Record.Advances s s' := by
  cases h with
  | refl => exact .refl _
  | retire => exact .retired _ _

/-- **A record moves forward.** -/
theorem Execution.advances (h : Execution (machine S) s ls s') : Record.Advances s s' :=
  h.invariant (I := fun x => Record.Advances s x) (fun _ _ _ hl ha => ha.trans (Step.advances hl))
    (fun _ _ hi ha => ha.trans (Internal.advances hi)) (.refl s)

/-- Nothing happens to a retired record. -/
theorem Execution.of_retired (h : Execution (machine S) .retired ls s') :
    ls = [] ∧ s' = .retired := by
  induction h with
  | nil => exact ⟨rfl, rfl⟩
  | internal _ hi ih =>
    obtain ⟨hls, rfl⟩ := ih
    cases hi
    exact ⟨hls, rfl⟩
  | step _ hl ih =>
    obtain ⟨-, rfl⟩ := ih
    cases hl

/-- **The writes to a live record** expect one version after the other, and while it is live its
version counts them. -/
theorem Execution.of_live {v : ℤ} {k : S.Content} (h : Execution (machine S) (.live v k) ls s') :
    ls.map Operation.expected = (List.range ls.length).map (fun n : ℕ => some (v + n)) ∧
      s' ≠ .absent ∧ ∀ v' k', s' = .live v' k' → v' = v + ls.length := by
  induction h with
  | nil =>
    refine ⟨rfl, by simp, fun v' k' heq => ?_⟩
    cases heq
    simp
  | internal _ hi ih =>
    obtain ⟨hls, habsent, hversion⟩ := ih
    cases hi with
    | refl => exact ⟨hls, habsent, hversion⟩
    | retire => exact ⟨hls, by simp, fun v' k' heq => by cases heq⟩
  | @step ls s' s'' l _ hl ih =>
    obtain ⟨hls, habsent, hversion⟩ := ih
    cases hl with
    | create => exact absurd rfl habsent
    | @update u w k' k'' =>
      obtain rfl := hversion w k' rfl
      refine ⟨?_, by simp, fun v' k' heq => ?_⟩
      · rw [List.map_append, hls, List.length_append, List.length_singleton, List.range_succ,
          List.map_append]
        rfl
      · cases heq
        rw [List.length_append, List.length_singleton]
        push_cast
        omega

/-- **The writes to an absent record** begin with its creation. -/
theorem Execution.of_absent (h : Execution (machine S) .absent ls s') :
    (ls = [] ∧ s' = .absent) ∨ ∃ c k ls', ls = .create c :: ls' ∧ S.initial c k ∧
      Execution (machine S) (.live 1 k) ls' s' := by
  induction h with
  | nil => exact .inl ⟨rfl, rfl⟩
  | internal _ hi ih =>
    rcases ih with ⟨hls, rfl⟩ | ⟨c, k, ls', hls, hk, ht⟩
    · cases hi
      exact .inl ⟨hls, rfl⟩
    · exact .inr ⟨c, k, ls', hls, hk, ht.internal hi⟩
  | step _ hl ih =>
    rcases ih with ⟨rfl, rfl⟩ | ⟨c, k, ls', rfl, hk, ht⟩
    · cases hl with
      | create hk => exact .inr ⟨_, _, [], rfl, hk, .nil⟩
    · exact .inr ⟨c, k, ls' ++ [_], rfl, hk, ht.step hl⟩

/-- **Without writes nothing new is shown.** -/
theorem Execution.shown_of_nil (h : Execution (machine S) s [] s') {v : ℤ} {k : S.Content}
    (hs' : s'.visible = some (v, k)) : s.visible = some (v, k) := by
  cases s with
  | absent =>
    rcases Execution.of_absent h with ⟨-, rfl⟩ | ⟨_, _, _, hls, -⟩
    · cases hs'
    · cases hls
  | retired =>
    obtain rfl := (Execution.of_retired h).2
    cases hs'
  | live v₀ k₀ =>
    have hversion : v = v₀ :=
      ((Execution.of_live h).2.2 v k (Record.visible_eq_some hs')).trans (by simp)
    obtain rfl := ((Execution.advances h).visible rfl hs').2 hversion.symm
    rw [hversion, Record.visible_live]

/-- **One write and what is shown after it.** -/
theorem Execution.step_of_shown {l : Operation S} (h : Execution (machine S) s [l] s') {v : ℤ}
    {k : S.Content} (hs' : s'.visible = some (v, k)) : Step S s l (.live v k) := by
  obtain ⟨a, b, ha, hl, hb⟩ := h.of_singleton
  obtain rfl := Record.visible_eq_some (Execution.shown_of_nil hb hs')
  -- the write finds the record as it was
  suffices hsame : s = a from hsame ▸ hl
  cases hl with
  | update => exact Record.visible_eq_some (Execution.shown_of_nil ha rfl)
  | create =>
    cases s with
    | absent => rfl
    | retired => exact absurd (Execution.of_retired ha).2 (by simp)
    | live => exact absurd rfl (Execution.of_live ha).2.1

/-- The versions that the writes to a live record expect increase from its own. -/
theorem Execution.expected_of_live {v : ℤ} {k : S.Content}
    (h : Execution (machine S) (.live v k) ls s') :
    ls.filterMap Operation.expected = (List.range ls.length).map fun n : ℕ => v + n := by
  have hmap := (Execution.of_live h).1
  have hid : ls.filterMap Operation.expected = (ls.map Operation.expected).filterMap id := by
    rw [List.filterMap_map]
    rfl
  rw [hid, hmap, List.filterMap_map]
  exact congrFun List.filterMap_eq_map _

/-- **Every expected version is used up once**: the versions that the updates of an execution
expect increase strictly. -/
theorem Execution.expected_increasing (h : Execution (machine S) s ls s') :
    (ls.filterMap Operation.expected).Pairwise (· < ·) := by
  have hlive : ∀ {v : ℤ} {k : S.Content} {ls : List (Operation S)} {s' : Record S.Content},
      Execution (machine S) (.live v k) ls s' →
        (ls.filterMap Operation.expected).Pairwise (· < ·) := by
    intro v k ls s' h
    rw [Execution.expected_of_live h]
    refine List.pairwise_map.mpr (List.pairwise_lt_range.imp fun hlt => ?_)
    omega
  cases s with
  | live v k => exact hlive h
  | retired =>
    obtain ⟨rfl, -⟩ := Execution.of_retired h
    exact .nil
  | absent =>
    rcases Execution.of_absent h with ⟨rfl, -⟩ | ⟨c, k, ls', rfl, -, ht⟩
    · exact .nil
    · -- the creation itself expects no version
      rw [List.filterMap_cons_none rfl]
      exact hlive ht

/-- **The version counts the writes** of a record: its versions are gapless. -/
theorem Execution.version_eq {v : ℤ} {k : S.Content} (h : Execution (machine S) s ls (.live v k)) :
    v = Record.version s + ls.length := by
  cases s with
  | live v₀ k₀ => exact (Execution.of_live h).2.2 v k rfl
  | retired =>
    obtain ⟨-, hlive⟩ := Execution.of_retired h
    cases hlive
  | absent =>
    rcases Execution.of_absent h with ⟨-, hlive⟩ | ⟨c, k₀, ls', rfl, -, ht⟩
    · cases hlive
    · -- the creation produces version one
      have hcount := (Execution.of_live ht).2.2 v k rfl
      simp only [List.length_cons, Record.version]
      push_cast
      omega

/-- **Contents** of two live states of a record are related by every preorder that the updates
respect. -/
theorem Execution.content_related {R : S.Content → S.Content → Prop} (hrefl : ∀ k, R k k)
    (htrans : ∀ k k' k'', R k k' → R k' k'' → R k k'')
    (happly : ∀ u k k', S.apply u k k' → R k k') {v v' : ℤ} {k k' : S.Content}
    (h : Execution (machine S) (.live v k) ls (.live v' k')) : R k k' := by
  suffices hall : ∀ {s'}, Execution (machine S) (.live v k) ls s' →
      s' ≠ .absent ∧ ∀ v' k', s' = .live v' k' → R k k' from (hall h).2 v' k' rfl
  clear h
  intro s' h
  induction h with
  | nil =>
    refine ⟨by simp, fun v' k' heq => ?_⟩
    cases heq
    exact hrefl k
  | internal _ hi ih =>
    obtain ⟨habsent, hcontent⟩ := ih
    cases hi with
    | refl => exact ⟨habsent, hcontent⟩
    | retire => exact ⟨by simp, fun v' k' heq => by cases heq⟩
  | step _ hl ih =>
    obtain ⟨habsent, hcontent⟩ := ih
    cases hl with
    | create => exact absurd rfl habsent
    | update hu =>
      refine ⟨by simp, fun v' k' heq => ?_⟩
      cases heq
      exact htrans _ _ _ (hcontent _ _ rfl) (happly _ _ _ hu)

end Executions

end Versioned
