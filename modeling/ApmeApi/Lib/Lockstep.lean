import ApmeApi.Lib.Interaction

/-!
# Programs in lockstep

Two programs of one signature run in lockstep when they make their calls in pairs, each pair with
the same effect on every state, and end together in related results. The calls of a pair may
differ in what they send and in the type of their replies, as long as the programs go on in
lockstep; so the rule is finer than equality of programs, and running alone from one state with
one stream of choices they reach related results and the same state (`Lockstep.run`).

The rules follow the programs: `Lockstep.bind` for sequences, `Lockstep.refl` for a common part,
and `Lockstep.of_wp` to add what the weakest precondition of one side says of its results.
-/

namespace Interaction

variable {S : Signature} {α β γ δ : Type} {M : Machine S}

/-- **Lockstep.** The programs end together in results related by `Q`, or they make calls with
the same effect and continue in lockstep. -/
inductive Lockstep (M : Machine S) (Q : α → β → Prop) : Prog S α → Prog S β → Prop
  | pure {a : α} {b : β} (h : Q a b) : Lockstep M Q (.pure a) (.pure b)
  | call {c c' : S.Call} {k : S.Reply c → Prog S α} {k' : S.Reply c' → Prog S β}
      (hpost : ∀ i s, (M.exec i c s).2 = (M.exec i c' s).2)
      (hrest : ∀ i s, Lockstep M Q (k (M.exec i c s).1) (k' (M.exec i c' s).1)) :
    Lockstep M Q (.call c k) (.call c' k')

namespace Lockstep

variable {Q Q' : α → β → Prop} {p : Prog S α} {p' : Prog S β}

/-- Consequence. -/
theorem post (h : Lockstep M Q p p') (hQ : ∀ a b, Q a b → Q' a b) : Lockstep M Q' p p' := by
  induction h with
  | pure h => exact .pure (hQ _ _ h)
  | call hpost _ ih => exact .call hpost ih

/-- **Sequencing.** -/
theorem bind {R : γ → δ → Prop} {f : α → Prog S γ} {f' : β → Prog S δ} (h : Lockstep M Q p p')
    (hf : ∀ a b, Q a b → Lockstep M R (f a) (f' b)) : Lockstep M R (p >>= f) (p' >>= f') := by
  change Lockstep M R (p.bind f) (p'.bind f')
  induction h with
  | pure h => exact hf _ _ h
  | call hpost _ ih => exact .call hpost ih

/-- A pair of calls with one effect, and what follows their replies. -/
theorem perform_bind {c c' : S.Call} {f : S.Reply c → Prog S α} {f' : S.Reply c' → Prog S β}
    (hpost : ∀ i s, (M.exec i c s).2 = (M.exec i c' s).2)
    (hf : ∀ i s, Lockstep M Q (f (M.exec i c s).1) (f' (M.exec i c' s).1)) :
    Lockstep M Q (Prog.perform c >>= f) (Prog.perform c' >>= f') :=
  .call hpost hf

/-- A program is in lockstep with itself. -/
theorem refl (p : Prog S α) : Lockstep M (· = ·) p p := by
  induction p with
  | pure a => exact .pure rfl
  | call c k ih => exact .call (fun _ _ => rfl) fun _ _ => ih _

/-- **Results.** What the weakest precondition of the first program says of its results may be
assumed. -/
theorem of_wp {P : α → Prop} {G : List (Obs M) → Obs M → Prop} {h₀ : List (Obs M)}
    (h : Lockstep M Q p p') (hp : wp G (fun _ a => P a) p h₀) :
    Lockstep M (fun a b => Q a b ∧ P a) p p' := by
  induction h generalizing h₀ with
  | pure h => exact .pure ⟨h, hp⟩
  | call hpost _ ih => exact .call hpost fun i s => ih i s (hp i s).2

/-- **Soundness.** Alone, from one state and with one stream of choices, the programs reach related
results and the same state. -/
theorem run (h : Lockstep M Q p p') (i : ℕ → M.Input) (s : M.State) :
    Q (p.run M i s).1 (p'.run M i s).1 ∧ (p.run M i s).2 = (p'.run M i s).2 := by
  induction h generalizing i s with
  | pure h => exact ⟨h, rfl⟩
  | call hpost _ ih =>
    simp only [Prog.run, hpost]
    exact ih (i 0) s _ _

/-! ### Fallible programs -/

section Fallible

variable {ε ε' : Type} {x x' : ExceptT ε (Prog S) α}

/-- A change of errors on both sides. -/
theorem run_adapt (h : Lockstep M (· = ·) x.run x'.run) (f : ε → ε') :
    Lockstep M (· = ·) (ExceptT.adapt f x).run (ExceptT.adapt f x').run := by
  change Lockstep M (· = ·) (Except.mapError f <$> x.run) (Except.mapError f <$> x'.run)
  rw [map_eq_pure_bind, map_eq_pure_bind]
  refine h.bind ?_
  rintro r _ rfl
  exact .refl _

/-- Sequencing, with one early error return on both sides. -/
theorem run_bind {R : Except ε γ → Except ε γ → Prop} {f f' : α → ExceptT ε (Prog S) γ}
    (h : Lockstep M (· = ·) x.run x'.run) (hf : ∀ a, Lockstep M R (f a).run (f' a).run)
    (herror : ∀ e, R (.error e) (.error e)) : Lockstep M R (x >>= f).run (x' >>= f').run := by
  rw [ExceptT.run_bind, ExceptT.run_bind]
  refine h.bind ?_
  rintro r _ rfl
  cases r with
  | ok a => exact hf a
  | error e => exact .pure (herror e)

end Fallible

end Lockstep

end Interaction
