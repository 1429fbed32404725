import ApmeApi.Lib.Trace

/-!
# Abstract machines and what refines them

An `AbstractMachine` says what a component is for: its states, its labelled steps, and what may
happen to it without a label. A system of tasks refines it (`Refines`) when each of its calls is,
seen through an abstraction of the state, a step with the label of the call or an internal step.

The calls of a run with a label are then an execution of the abstract machine in the order in which
they were made (`Refines.run`), and every call finds the state that the calls before it lead to
(`Refines.before`), so a property of all executions is one of all runs. What a run has changed is
the effect of its last call with a label (`Refines.last_step`).
-/

namespace Interaction

/-! ### Abstract machines -/

/-- Steps with a label, and steps that nobody asked for. -/
structure AbstractMachine where
  State : Type
  Label : Type
  step : State → Label → State → Prop
  internal : State → State → Prop

/-- The executions of a machine from a state: the labels of their steps, and the state they lead
to. -/
inductive Execution (A : AbstractMachine) (s : A.State) : List A.Label → A.State → Prop
  | nil : Execution A s [] s
  | internal {ls : List A.Label} {s' s'' : A.State} (h : Execution A s ls s')
      (hi : A.internal s' s'') : Execution A s ls s''
  | step {ls : List A.Label} {s' s'' : A.State} {l : A.Label} (h : Execution A s ls s')
      (hs : A.step s' l s'') : Execution A s (ls ++ [l]) s''

namespace Execution

variable {A : AbstractMachine} {s s' s'' : A.State} {ls ls' : List A.Label}

/-- **Invariants of executions.** -/
theorem invariant {I : A.State → Prop} (hstep : ∀ s l s', A.step s l s' → I s → I s')
    (hinternal : ∀ s s', A.internal s s' → I s → I s') (h : Execution A s ls s') (hs : I s) :
    I s' := by
  induction h with
  | nil => exact hs
  | internal _ hi ih => exact hinternal _ _ hi ih
  | step _ hl ih => exact hstep _ _ _ hl ih

/-- An execution with one label makes that step, with internal steps around it. -/
theorem of_singleton {l : A.Label} (h : Execution A s [l] s') :
    ∃ a b, Execution A s [] a ∧ A.step a l b ∧ Execution A b [] s' := by
  generalize hone : [l] = one at h
  induction h with
  | nil => cases hone
  | internal _ hi ih =>
    obtain ⟨a, b, ha, hl, hb⟩ := ih hone
    exact ⟨a, b, ha, hl, hb.internal hi⟩
  | @step ks t u l' ht hl =>
    cases ks with
    | nil =>
      obtain rfl := List.singleton_inj.mp hone
      exact ⟨t, u, ht, hl, .nil⟩
    | cons k ks => simp at hone

end Execution

/-! ### Refinement -/

/-- **Refinement.** Seen through `abs`, on states with the invariant `F`, a call with a label is a
step of the abstract machine, and everything else is internal to it. -/
structure Refines (Y : System) (A : AbstractMachine) (F : Y.machine.State → Prop)
    (abs : Y.machine.State → A.State) (label : Obs Y.machine → Option A.Label) : Prop where
  stable : Config.Stable Y F
  internal : ∀ o, F o.pre → label o = none → A.internal (abs o.pre) (abs o.post)
  step : ∀ o l, F o.pre → label o = some l → A.step (abs o.pre) l (abs o.post)
  env : ∀ e s, F s → A.internal (abs s) (abs (Y.env e s))

/-- The labels of calls, in their order. -/
def labels {Y : System} {L : Type} (label : Obs Y.machine → Option L)
    (calls : List (ℕ × Obs Y.machine)) : List L :=
  calls.filterMap fun x => label x.2

namespace Refines

variable {Y : System} {A : AbstractMachine} {F : Y.machine.State → Prop}
  {abs : Y.machine.State → A.State} {label : Obs Y.machine → Option A.Label}
  (hr : Refines Y A F abs label)
include hr

/-- **A run is an execution.** The induction is on the run, from its last action. -/
theorem run {c : Config Y} (hc : F c.state) (as : List (Action Y)) :
    Execution A (abs c.state) (labels label (c.trace as)) (abs (c.run as).state) := by
  induction as using List.reverseRecOn with
  | nil => exact .nil
  | append_singleton as a ih =>
    have hpre : F (c.run as).state := Config.run_stable hr.stable as hc
    have htrace : c.trace (as ++ [a]) = c.trace as ++ ((c.run as).called a).toList := by
      rw [Config.trace_append, Config.trace, Config.trace, List.append_nil]
    have hrun : c.run (as ++ [a]) = (c.run as).step a := by
      rw [Config.run_append, Config.run_cons, Config.run_nil]
    rw [htrace, hrun]
    obtain ⟨hnone, hstep | ⟨r, hstep⟩ | ⟨e, hstep⟩⟩ | ⟨j, u, o, q, hcalled, -, hstate, hstep⟩ :=
      (c.run as).called_cases a
    · rw [hnone, hstep]
      simpa using ih
    · rw [hnone, hstep]
      simpa using ih
    · rw [hnone, hstep]
      simp only [Option.toList_none, List.append_nil]
      exact ih.internal (hr.env e _ hpre)
    · -- a call is one step, or internal
      rw [hcalled, hstep]
      rw [← hstate] at hpre ih
      simp only [labels, Option.toList_some, List.filterMap_append]
      cases hlabel : label o with
      | none =>
        simp only [List.filterMap_cons, hlabel, List.filterMap_nil, List.append_nil]
        exact ih.internal (hr.internal o hpre hlabel)
      | some l =>
        simp only [List.filterMap_cons, hlabel, List.filterMap_nil]
        exact ih.step (hr.step o l hpre hlabel)

end Refines

/-! ### The calls of a trace -/

namespace Refines

variable {Y : System} {A : AbstractMachine} {F : Y.machine.State → Prop}
  {abs : Y.machine.State → A.State} {label : Obs Y.machine → Option A.Label}
  (hr : Refines Y A F abs label)
include hr

/-- **A call finds the state that the calls before it lead to.** -/
theorem before {c : Config Y} (hc : F c.state) {as : List (Action Y)}
    {l₁ l₂ : List (ℕ × Obs Y.machine)} {x : ℕ × Obs Y.machine} (h : c.trace as = l₁ ++ x :: l₂) :
    F x.2.pre ∧ Execution A (abs c.state) (labels label l₁) (abs x.2.pre) := by
  obtain ⟨bs, a, cs, -, rfl, hpre⟩ := Config.trace_at h
  rw [hpre]
  exact ⟨Config.run_stable hr.stable bs hc, hr.run hc bs⟩

/-- **From one call to a later one** the abstract machine makes the steps of the first and of the
calls in between. -/
theorem onwards {c : Config Y} (hc : F c.state) {as : List (Action Y)}
    {l₁ l₂ l₃ : List (ℕ × Obs Y.machine)} {x y : ℕ × Obs Y.machine}
    (h : c.trace as = l₁ ++ x :: (l₂ ++ y :: l₃)) :
    Execution A (abs x.2.pre) (labels label (x :: l₂)) (abs y.2.pre) := by
  obtain ⟨bs, a, cs, rfl, hbs, hpre⟩ := Config.trace_at h
  rw [Config.trace_append, hbs] at h
  rw [hpre]
  exact (hr.before (Config.run_stable hr.stable bs hc) (List.append_cancel_left h)).2

/-- **The last step of a run.** Either a run makes internal steps only, or the last call with a
label has led to its end, but for internal steps. -/
theorem last_step {c : Config Y} (hc : F c.state) (as : List (Action Y)) :
    Execution A (abs c.state) [] (abs (c.run as).state) ∨
      ∃ l₁ x l₂ l, c.trace as = l₁ ++ x :: l₂ ∧ label x.2 = some l ∧
        Execution A (abs x.2.pre) [l] (abs (c.run as).state) := by
  have hexec := hr.run hc as
  rcases List.eq_nil_or_concat' (labels label (c.trace as)) with hnil | ⟨ls, l, hlast⟩
  · exact .inl (hnil ▸ hexec)
  · obtain ⟨l₁, l₂, htrace, -, hl₂⟩ := List.filterMap_eq_append_iff.mp hlast
    obtain ⟨k₁, x, k₂, rfl, -, hl, hk₂⟩ := List.filterMap_eq_cons_iff.mp hl₂
    rw [← List.append_assoc] at htrace
    refine .inr ⟨l₁ ++ k₁, x, k₂, l, htrace, hl, ?_⟩
    -- the run onwards from the call has this label only
    obtain ⟨bs, a, cs, rfl, hbs, hpre⟩ := Config.trace_at htrace
    rw [Config.trace_append, hbs] at htrace
    have hrest := hr.run (Config.run_stable hr.stable bs hc) (a :: cs)
    have hlabels : labels label (x :: k₂) = [l] := by
      simp only [labels, List.filterMap_cons, hl, hk₂]
    rwa [List.append_cancel_left htrace, ← Config.run_append, ← hpre, hlabels] at hrest

end Refines

end Interaction
