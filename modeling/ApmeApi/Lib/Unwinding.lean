import ApmeApi.Lib.Trace

/-!
# Unwinding

When is what some tasks of a run see independent of what the other tasks do? A relation of states
says what those tasks cannot tell apart. It *unwinds* (`Unwinding`) when their calls are answered
alike in related states and leave related states. If the calls of the other tasks leave states
related to those they found, the other tasks can be silenced: in the run without their calls the
tasks of the view make the same calls and end with the same answers (`Unwinding.silence`).
-/

namespace Interaction

variable {Y : System}

/-- **The unwinding conditions** of a relation of states for the calls of a view: such a call is
answered alike in related states and leaves related states, the environment leaves related states,
and a state stands for those that it is related to. -/
structure Unwinding (Y : System) (R : Y.machine.State → Y.machine.State → Prop)
    (C : Y.sig.Call → Prop) : Prop where
  exec : ∀ input c s s', C c → R s s' →
    (Y.machine.exec input c s).1 = (Y.machine.exec input c s').1 ∧
      R (Y.machine.exec input c s).2 (Y.machine.exec input c s').2
  env : ∀ e s s', R s s' → R (Y.env e s) (Y.env e s')
  stands : ∀ s₀ s s', R s₀ s → R s₀ s' → R s s'

/-- The actions of a run without the calls of the tasks outside a view. -/
def silence (own : ℕ → Bool) : List (Action Y) → List (Action Y)
  | [] => []
  | .call i input :: as => if own i then .call i input :: silence own as else silence own as
  | a :: as => a :: silence own as

/-- What can be told of a task: its request, the calls that it made, and what is left of its
program. -/
def Task.observed (t : Task Y) : Y.Request × List Y.sig.Call × Prog Y.sig Y.Response :=
  (t.request, t.history.map (·.call), t.prog)

/-- Two configurations with the same tasks in a view. -/
structure SameView (own : ℕ → Bool) (c c' : Config Y) : Prop where
  length : c.tasks.length = c'.tasks.length
  observed : ∀ i, own i = true →
    (c.tasks[i]?).map Task.observed = (c'.tasks[i]?).map Task.observed

namespace SameView

variable {own : ℕ → Bool} {c c' : Config Y}

/-- A request that arrives on both sides. -/
theorem start (hv : SameView own c c') (r : Y.Request) :
    SameView own (c.step (.start r)) (c'.step (.start r)) where
  length := by
    change (c.tasks ++ [_]).length = (c'.tasks ++ [_]).length
    rw [List.length_append, List.length_append, hv.length]
  observed i hi := by
    change ((c.tasks ++ [_])[i]?).map Task.observed = ((c'.tasks ++ [_])[i]?).map Task.observed
    rw [List.getElem?_append, List.getElem?_append, ← hv.length]
    split
    · exact hv.observed i hi
    · rfl

/-- A task that moves on one side, outside the view. -/
theorem set_left (hv : SameView own c c') {s : Y.machine.State} {i : ℕ} (hi : own i = false)
    (t : Task Y) : SameView own ⟨s, c.tasks.set i t⟩ c' where
  length := by rw [List.length_set, hv.length]
  observed j hj := by
    have hij : i ≠ j := by
      rintro rfl
      cases hi.symm.trans hj
    rw [List.getElem?_set_ne hij]
    exact hv.observed j hj

/-- A task of the view that moves alike on both sides. -/
theorem set_both (hv : SameView own c c') {s s' : Y.machine.State} (i : ℕ) {t t' : Task Y}
    (ht : t.observed = t'.observed) :
    SameView own ⟨s, c.tasks.set i t⟩ ⟨s', c'.tasks.set i t'⟩ where
  length := by rw [List.length_set, List.length_set, hv.length]
  observed j hj := by
    simp only [List.getElem?_set, hv.length]
    split
    · split
      · exact congrArg some ht
      · rfl
    · exact hv.observed j hj

end SameView

namespace Unwinding

variable {R : Y.machine.State → Y.machine.State → Prop} {C : Y.sig.Call → Prop}

/-- **One call of the view**, on both sides. -/
theorem call_own (hu : Unwinding Y R C) {own : ℕ → Bool} {c c' : Config Y}
    (hs : R c.state c'.state) (hv : SameView own c c') {i : ℕ} (hi : own i = true)
    (input : Y.machine.Input) (hC : ∀ x, c.called (.call i input) = some x → C x.2.call) :
    R (c.step (.call i input)).state (c'.step (.call i input)).state ∧
      SameView own (c.step (.call i input)) (c'.step (.call i input)) := by
  have hview := hv.observed i hi
  cases ht : c.tasks[i]? with
  | none =>
    rw [ht] at hview
    have ht' : c'.tasks[i]? = none := Option.map_eq_none_iff.mp hview.symm
    simp only [Config.step, ht, ht']
    exact ⟨hs, hv⟩
  | some t =>
    rw [ht] at hview
    obtain ⟨t', ht', hobserved⟩ := Option.map_eq_some_iff.mp hview.symm
    obtain ⟨hrequest, hcalls⟩ := Prod.mk.inj hobserved
    obtain ⟨hcalls, hprog⟩ := Prod.mk.inj hcalls
    cases hp : t.prog with
    | pure a =>
      have hp' : t'.prog = .pure a := hprog.trans hp
      simp only [Config.step, ht, ht', hp, hp']
      exact ⟨hs, hv⟩
    | call cl k =>
      have hp' : t'.prog = .call cl k := hprog.trans hp
      have hcl : C cl := hC (i, ⟨input, c.state, cl⟩) (by simp only [Config.called, ht, hp])
      obtain ⟨hreply, hpost⟩ := hu.exec input cl c.state c'.state hcl hs
      simp only [Config.step, ht, ht', hp, hp']
      refine ⟨hpost, hv.set_both i ?_⟩
      -- the same call, with the same reply, and so the same rest
      simp only [Task.observed, Task.advance, List.map_append, hrequest, hcalls, Obs.reply]
      rw [hreply]
      rfl

/-- **One call outside the view**, on one side. -/
theorem call_other (hu : Unwinding Y R C) {own : ℕ → Bool} {c c' : Config Y}
    (hs : R c.state c'.state) (hv : SameView own c c') {i : ℕ} (hi : own i = false)
    (input : Y.machine.Input)
    (hR : ∀ x, c.called (.call i input) = some x → R x.2.pre x.2.post) :
    R (c.step (.call i input)).state c'.state ∧ SameView own (c.step (.call i input)) c' := by
  cases ht : c.tasks[i]? with
  | none =>
    simp only [Config.step, ht]
    exact ⟨hs, hv⟩
  | some t =>
    cases hp : t.prog with
    | pure a =>
      simp only [Config.step, ht, hp]
      exact ⟨hs, hv⟩
    | call cl k =>
      have hpost := hR (i, ⟨input, c.state, cl⟩) (by simp only [Config.called, ht, hp])
      simp only [Config.step, ht, hp]
      exact ⟨hu.stands _ _ _ hpost hs, hv.set_left hi _⟩

/-- **The other tasks can be silenced.** When every call of a task in the view is a call of the
view, and every call of another task leaves a state related to the one it found, the tasks of the
view are the same in the run without the calls of the others, from any related state. The induction
is on the actions of the run. -/
theorem silence (hu : Unwinding Y R C) {own : ℕ → Bool} {c c' : Config Y}
    (hs : R c.state c'.state) (hv : SameView own c c') (as : List (Action Y))
    (hown : ∀ x ∈ c.trace as, own x.1 = true → C x.2.call)
    (hother : ∀ x ∈ c.trace as, own x.1 = false → R x.2.pre x.2.post) :
    R (c.run as).state (c'.run (Interaction.silence own as)).state ∧
      SameView own (c.run as) (c'.run (Interaction.silence own as)) := by
  induction as generalizing c c' with
  | nil => exact ⟨hs, hv⟩
  | cons a as ih =>
    have hrest : ∀ x ∈ (c.step a).trace as, x ∈ c.trace (a :: as) := fun x hx =>
      List.mem_append_right _ hx
    have hfirst : ∀ x, c.called a = some x → x ∈ c.trace (a :: as) := fun x hx =>
      List.mem_append_left _ (by rw [hx]; exact List.mem_singleton_self x)
    have hown' : ∀ x ∈ (c.step a).trace as, own x.1 = true → C x.2.call := fun x hx =>
      hown x (hrest x hx)
    have hother' : ∀ x ∈ (c.step a).trace as, own x.1 = false → R x.2.pre x.2.post := fun x hx =>
      hother x (hrest x hx)
    cases a with
    | start r => exact ih (c := c.step (.start r)) hs (hv.start r) hown' hother'
    | env e =>
      exact ih (c := c.step (.env e)) (hu.env e _ _ hs) ⟨hv.length, hv.observed⟩ hown' hother'
    | call i input =>
      have hcaller : ∀ x, c.called (.call i input) = some x → x.1 = i := by
        intro x hx
        simp only [Config.called] at hx
        split at hx
        · cases hx
        · split at hx
          · cases hx
          · rw [← Option.some.inj hx]
      cases hi : own i with
      | true =>
        obtain ⟨hs', hv'⟩ := hu.call_own hs hv hi input fun x hx =>
          hown x (hfirst x hx) (by rw [hcaller x hx, hi])
        rw [Interaction.silence, if_pos hi]
        exact ih hs' hv' hown' hother'
      | false =>
        obtain ⟨hs', hv'⟩ := hu.call_other hs hv hi input fun x hx =>
          hother x (hfirst x hx) (by rw [hcaller x hx, hi])
        rw [Interaction.silence, if_neg (Bool.eq_false_iff.mp hi)]
        exact ih hs' hv' hown' hother'

end Unwinding

end Interaction
