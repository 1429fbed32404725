import Mathlib.Data.List.Forall2

/-!
# Traversals that fail as a whole

`List.mapM` with a function that can fail is all or nothing: it succeeds exactly when every element
does, its results correspond to the elements one by one, and it fails with the error of an element.
-/

namespace Traversal

variable {α β ε : Type} {f : α → Except ε β}

/-- A traversal succeeds when every element does. -/
theorem mapM_eq_ok_iff {xs : List α} {ys : List β} :
    xs.mapM f = .ok ys ↔ List.Forall₂ (fun x y => f x = .ok y) xs ys := by
  induction xs generalizing ys with
  | nil =>
    rw [List.mapM_nil, List.forall₂_nil_left_iff]
    exact ⟨fun h => (Except.ok.inj h).symm, fun h => h ▸ rfl⟩
  | cons x xs ih =>
    rw [List.mapM_cons, List.forall₂_cons_left_iff]
    cases hx : f x with
    | error e =>
      constructor
      · intro h
        cases h
      · rintro ⟨_, _, h, -⟩
        cases h
    | ok y =>
      cases hxs : xs.mapM f with
      | error e =>
        constructor
        · intro h
          cases h
        · rintro ⟨_, ys, -, h, -⟩
          rw [← ih, hxs] at h
          cases h
      | ok zs =>
        constructor
        · intro h
          obtain rfl := Except.ok.inj h
          exact ⟨y, zs, rfl, ih.mp hxs, rfl⟩
        · rintro ⟨y', ys, hy, hys, rfl⟩
          rw [← ih, hxs] at hys
          obtain rfl := Except.ok.inj hy
          obtain rfl := Except.ok.inj hys
          rfl

/-- A traversal fails with the error of an element. -/
theorem exists_of_mapM_eq_error {xs : List α} {e : ε} (h : xs.mapM f = .error e) :
    ∃ x ∈ xs, f x = .error e := by
  induction xs with
  | nil => cases h
  | cons x xs ih =>
    rw [List.mapM_cons] at h
    cases hx : f x with
    | error e' =>
      rw [hx] at h
      obtain rfl := Except.error.inj h
      exact ⟨x, List.mem_cons_self, hx⟩
    | ok y =>
      rw [hx] at h
      cases hxs : xs.mapM f with
      | error e' =>
        rw [hxs] at h
        obtain rfl := Except.error.inj h
        obtain ⟨x', hx', he⟩ := ih hxs
        exact ⟨x', List.mem_cons_of_mem _ hx', he⟩
      | ok zs =>
        rw [hxs] at h
        cases h

/-- The elements and the results of a traversal correspond. -/
theorem mem_of_mapM_eq_ok {xs : List α} {ys : List β} (h : xs.mapM f = .ok ys) :
    (∀ x ∈ xs, ∃ y ∈ ys, f x = .ok y) ∧ ∀ y ∈ ys, ∃ x ∈ xs, f x = .ok y := by
  induction mapM_eq_ok_iff.mp h with
  | nil => simp
  | @cons x y xs ys hxy hrest ih =>
    obtain ⟨hleft, hright⟩ := ih (mapM_eq_ok_iff.mpr hrest)
    constructor
    · intro x' hx'
      rcases List.mem_cons.mp hx' with rfl | hx'
      · exact ⟨y, List.mem_cons_self, hxy⟩
      · obtain ⟨y', hy', he⟩ := hleft x' hx'
        exact ⟨y', List.mem_cons_of_mem _ hy', he⟩
    · intro y' hy'
      rcases List.mem_cons.mp hy' with rfl | hy'
      · exact ⟨x, List.mem_cons_self, hxy⟩
      · obtain ⟨x', hx', he⟩ := hright y' hy'
        exact ⟨x', List.mem_cons_of_mem _ hx', he⟩

/-- A traversal keeps the order of its elements. -/
theorem pairwise_of_mapM_eq_ok {R : α → α → Prop} {T : β → β → Prop}
    (hRT : ∀ {x x' y y'}, R x x' → f x = .ok y → f x' = .ok y' → T y y') {xs : List α}
    {ys : List β} (h : xs.mapM f = .ok ys) (hxs : xs.Pairwise R) : ys.Pairwise T := by
  induction mapM_eq_ok_iff.mp h with
  | nil => exact .nil
  | @cons x y xs ys hxy hrest ih =>
    have hrest' := mapM_eq_ok_iff.mpr hrest
    obtain ⟨hx, hxs⟩ := List.pairwise_cons.mp hxs
    refine List.pairwise_cons.mpr ⟨fun y' hy' => ?_, ih hrest' hxs⟩
    obtain ⟨x', hx', he⟩ := (mem_of_mapM_eq_ok hrest').2 y' hy'
    exact hRT (hx x' hx') hxy he

/-- A traversal fails when an element does. -/
theorem mapM_eq_error_of_mem {xs : List α} {x : α} {e : ε} (hx : x ∈ xs) (h : f x = .error e) :
    ∃ e', xs.mapM f = .error e' := by
  cases hxs : xs.mapM f with
  | error e' => exact ⟨e', rfl⟩
  | ok ys =>
    obtain ⟨y, -, hy⟩ := (mem_of_mapM_eq_ok hxs).1 x hx
    rw [h] at hy
    cases hy

end Traversal
