import Mathlib.Data.List.Basic
import Mathlib.Tactic.Common

/-!
# Interaction programs and their weakest preconditions

A `Prog S α` is a finite program that talks to an environment through the calls of a
signature `S` and ends with a value of type `α`: it is the free monad over `S`. An
asynchronous function whose only effects are awaited calls is such a program, one call per
await point, so that everything another task may do in between happens *between* two calls.

A `Machine S` says what a call does to a state, given the choices the environment makes for
it (answers, failures, fresh values). One executed call is an *observation* (`Obs`): the
environment's input, the state the call found, and the call. Reply and state after it are
functions of these three.

`Follows p h q` relates a program to what is left of it after the observations `h`. The
observations of `h` need not chain: the state that the next call finds is arbitrary, which is
what interference by others can do to it.

`wp G Q p h` is the weakest precondition of `p` after the history `h`: whatever the
environment chooses, each call is made under the guarantee `G` (of the history before it) and
the program ends under the postcondition `Q` (of the whole history and the result).
`Follows.sound` is its soundness, `wp_bind`, `wp_mono` and `wp_frame` are the rules that proofs
use. `Prog.run` executes a program alone; `Prog.run_related` compares two such executions.
-/

namespace Interaction

/-- An effect signature: the calls a program can make, each with the type of its reply. -/
structure Signature where
  Call : Type
  Reply : Call → Type

/-- Programs over a signature: a result, or a call and what follows each reply. -/
inductive Prog (S : Signature) (α : Type) : Type where
  | pure (a : α)
  | call (c : S.Call) (k : S.Reply c → Prog S α)

variable {S : Signature} {α β ε : Type}

namespace Prog

/-- Sequencing: graft `f` onto the results of a program. -/
def bind : Prog S α → (α → Prog S β) → Prog S β
  | .pure a, f => f a
  | .call c k, f => .call c fun r => (k r).bind f

instance : Monad (Prog S) where
  pure := Prog.pure
  bind := Prog.bind

/-- The program that makes one call and returns its reply. -/
def perform (c : S.Call) : Prog S (S.Reply c) := .call c .pure

theorem bind_pure (p : Prog S α) : p.bind .pure = p := by
  induction p with
  | pure a => rfl
  | call c k ih => simp only [bind, ih]

theorem bind_assoc {γ : Type} (p : Prog S α) (f : α → Prog S β) (g : β → Prog S γ) :
    (p.bind f).bind g = p.bind fun a => (f a).bind g := by
  induction p with
  | pure a => rfl
  | call c k ih => simp only [bind, ih]

instance : LawfulMonad (Prog S) :=
  LawfulMonad.mk' (Prog S) bind_pure (fun _ _ => rfl) bind_assoc

end Prog

/-- What the calls of a signature do to a state, given the environment's choices. -/
structure Machine (S : Signature) where
  State : Type
  Input : Type
  exec : Input → (c : S.Call) → State → S.Reply c × State

/-- One executed call: the environment's choices for it and the state it found. -/
structure Obs (M : Machine S) where
  input : M.Input
  pre : M.State
  call : S.Call

variable {M : Machine S}

namespace Obs

/-- The reply the call got. -/
def reply (o : Obs M) : S.Reply o.call := (M.exec o.input o.call o.pre).1

/-- The state the call left. -/
def post (o : Obs M) : M.State := (M.exec o.input o.call o.pre).2

end Obs

/-! ### Residual programs -/

/-- `Follows p h q`: executing the calls observed in `h`, one after the other, leaves the
program `q` of `p`. -/
inductive Follows : Prog S α → List (Obs M) → Prog S α → Prop
  | nil (p : Prog S α) : Follows p [] p
  | cons {i : M.Input} {s : M.State} {c : S.Call} {k : S.Reply c → Prog S α}
      {h : List (Obs M)} {q : Prog S α} :
      Follows (k (Obs.reply ⟨i, s, c⟩)) h q → Follows (.call c k) (⟨i, s, c⟩ :: h) q

/-- One more call at the end. -/
theorem Follows.snoc {p : Prog S α} {h : List (Obs M)} {c : S.Call}
    {k : S.Reply c → Prog S α} (hp : Follows p h (.call c k)) (i : M.Input) (s : M.State) :
    Follows p (h ++ [⟨i, s, c⟩]) (k (Obs.reply ⟨i, s, c⟩)) := by
  generalize hq : Prog.call c k = q at hp
  induction hp with
  | nil p =>
    subst hq
    exact .cons (.nil _)
  | cons _ ih => exact .cons (ih hq)

/-! ### Weakest preconditions -/

/-- The weakest precondition of a program after a history: every call is made under the
guarantee `G`, and the result is reached under the postcondition `Q`. -/
def wp (G : List (Obs M) → Obs M → Prop) (Q : List (Obs M) → α → Prop) :
    Prog S α → List (Obs M) → Prop
  | .pure a, h => Q h a
  | .call c k, h => ∀ (i : M.Input) (s : M.State),
      G h ⟨i, s, c⟩ ∧ wp G Q (k (Obs.reply ⟨i, s, c⟩)) (h ++ [⟨i, s, c⟩])

variable {G G' : List (Obs M) → Obs M → Prop} {Q Q' : List (Obs M) → α → Prop}

@[simp]
theorem wp_pure (a : α) (h : List (Obs M)) : wp G Q (pure a) h ↔ Q h a := Iff.rfl

@[simp]
theorem wp_call (c : S.Call) (k : S.Reply c → Prog S α) (h : List (Obs M)) :
    wp G Q (.call c k) h ↔ ∀ (i : M.Input) (s : M.State),
      G h ⟨i, s, c⟩ ∧ wp G Q (k (Obs.reply ⟨i, s, c⟩)) (h ++ [⟨i, s, c⟩]) :=
  Iff.rfl

/-- **Sequencing.** The first program runs to the weakest precondition of the second. -/
@[simp]
theorem wp_bind {Q : List (Obs M) → β → Prop} (p : Prog S α) (f : α → Prog S β)
    (h : List (Obs M)) :
    wp G Q (p >>= f) h ↔ wp G (fun h' a => wp G Q (f a) h') p h := by
  change wp G Q (p.bind f) h ↔ _
  induction p generalizing h with
  | pure a => exact Iff.rfl
  | call c k ih =>
    simp only [Prog.bind, wp_call, ih]

/-- **Consequence.** Guarantee and postcondition may be weakened; both weakenings may use
that the history at hand extends the one the program started from. -/
theorem wp_mono {p : Prog S α} {h : List (Obs M)} (hp : wp G Q p h)
    (hG : ∀ t o, G (h ++ t) o → G' (h ++ t) o)
    (hQ : ∀ t a, Q (h ++ t) a → Q' (h ++ t) a) : wp G' Q' p h := by
  induction p generalizing h with
  | pure a =>
    have := hQ [] a
    rw [List.append_nil] at this
    exact this hp
  | call c k ih =>
    intro i s
    obtain ⟨hg, hk⟩ := hp i s
    have h0 := hG [] ⟨i, s, c⟩
    rw [List.append_nil] at h0
    refine ⟨h0 hg, ih _ hk (fun t o => ?_) fun t a => ?_⟩
    · rw [List.append_assoc]
      exact hG _ o
    · rw [List.append_assoc]
      exact hQ _ a

/-- Consequence for the postcondition alone. -/
theorem wp_post {p : Prog S α} {h : List (Obs M)} (hp : wp G Q p h)
    (hQ : ∀ h' a, Q h' a → Q' h' a) : wp G Q' p h :=
  wp_mono hp (fun _ _ hg => hg) fun _ a hq => hQ _ a hq

/-- Two postconditions hold together. -/
theorem wp_and {p : Prog S α} {h : List (Obs M)} (hp : wp G Q p h) (hp' : wp G' Q' p h) :
    wp (fun h o => G h o ∧ G' h o) (fun h a => Q h a ∧ Q' h a) p h := by
  induction p generalizing h with
  | pure a => exact ⟨hp, hp'⟩
  | call c k ih =>
    intro i s
    exact ⟨⟨(hp i s).1, (hp' i s).1⟩, ih _ (hp i s).2 (hp' i s).2⟩

/-- **Tracking.** Guarantee and postcondition may assume of the calls added to the history
whatever the guarantee implies of a call by itself. -/
theorem wp_track {C : Obs M → Prop} (hC : ∀ h o, G h o → C o) {p : Prog S α} {h : List (Obs M)}
    (hp : wp G Q p h) :
    wp (fun h' o => (∃ t, h' = h ++ t ∧ ∀ o ∈ t, C o) ∧ G h' o)
      (fun h' a => (∃ t, h' = h ++ t ∧ ∀ o ∈ t, C o) ∧ Q h' a) p h := by
  induction p generalizing h with
  | pure a => exact ⟨⟨[], by simp, by simp⟩, hp⟩
  | call c k ih =>
    intro i s
    obtain ⟨hg, hk⟩ := hp i s
    have hcons : ∀ t : List (Obs M), (∀ o ∈ t, C o) →
        ∃ t', (h ++ [⟨i, s, c⟩]) ++ t = h ++ t' ∧ ∀ o ∈ t', C o := by
      refine fun t ht => ⟨⟨i, s, c⟩ :: t, by simp, fun o ho => ?_⟩
      rcases List.mem_cons.mp ho with rfl | ho
      · exact hC _ _ hg
      · exact ht o ho
    refine ⟨⟨⟨[], by simp, by simp⟩, hg⟩, wp_mono (ih _ hk) ?_ ?_⟩
    · rintro t o ⟨⟨t', ht', hcalls⟩, ho⟩
      exact ⟨ht' ▸ hcons t' hcalls, ho⟩
    · rintro t a ⟨⟨t', ht', hcalls⟩, hq⟩
      exact ⟨ht' ▸ hcons t' hcalls, hq⟩

/-- The postcondition may assume a guarantee that does not depend on the history. -/
theorem wp_calls {C : Obs M → Prop} {p : Prog S α} {h : List (Obs M)}
    (hp : wp (fun _ o => C o) Q p h) :
    wp (fun _ o => C o) (fun h' a => (∃ t, h' = h ++ t ∧ ∀ o ∈ t, C o) ∧ Q h' a) p h :=
  wp_mono (wp_track (G := fun _ o => C o) (fun _ _ hc => hc) hp) (fun _ _ hg => hg.2)
    fun _ _ hq => hq

/-- From the start, the calls are all there is in the history. -/
theorem wp_calls_nil {C : Obs M → Prop} {p : Prog S α} (hp : wp (fun _ o => C o) Q p []) :
    wp (fun _ o => C o) (fun h a => (∀ o ∈ h, C o) ∧ Q h a) p [] := by
  refine wp_post (wp_calls hp) ?_
  rintro h a ⟨⟨t, rfl, ht⟩, hq⟩
  exact ⟨ht, hq⟩

/-- **Soundness, residuals.** After the observations `t` the precondition of what is left
holds, and each observed call was made under the guarantee. -/
theorem Follows.sound {p q : Prog S α} {t : List (Obs M)} (hf : Follows p t q) :
    ∀ {h : List (Obs M)}, wp G Q p h → wp G Q q (h ++ t) ∧
      ∀ t₁ o t₂, t = t₁ ++ o :: t₂ → G (h ++ t₁) o := by
  induction hf with
  | nil p =>
    intro h hp
    refine ⟨by rwa [List.append_nil], fun t₁ o t₂ he => ?_⟩
    simp at he
  | @cons i s c k t q _ ih =>
    intro h hp
    obtain ⟨hg, hk⟩ := hp i s
    obtain ⟨hq, hgs⟩ := ih hk
    refine ⟨by simpa using hq, fun t₁ o t₂ he => ?_⟩
    cases t₁ with
    | nil =>
      obtain ⟨rfl, -⟩ := List.cons.inj he
      rwa [List.append_nil]
    | cons o₁ t₁ =>
      obtain ⟨rfl, rfl⟩ := List.cons.inj he
      simpa using hgs t₁ o t₂ rfl

/-- **Soundness, results.** A complete execution ends under the postcondition. -/
theorem Follows.result {p : Prog S α} {h : List (Obs M)} {a : α}
    (hf : Follows p h (.pure a)) (hp : wp G Q p []) : Q h a :=
  (hf.sound hp).1

/-- **Soundness, calls.** Each observed call was made under the guarantee. -/
theorem Follows.guarantee {p q : Prog S α} {h t₁ t₂ : List (Obs M)} {o : Obs M}
    (hf : Follows p h q) (hp : wp G Q p []) (he : h = t₁ ++ o :: t₂) : G t₁ o := by
  simpa using (hf.sound hp).2 t₁ o t₂ he

/-- **Framing.** What holds of a program run from an empty history holds of the part of the
history that is its own, when it runs after others. -/
theorem wp_frame {p : Prog S α} {t : List (Obs M)} (hp : wp G Q p t) (h : List (Obs M)) :
    wp (fun h' o => ∃ t, h' = h ++ t ∧ G t o) (fun h' a => ∃ t, h' = h ++ t ∧ Q t a) p
      (h ++ t) := by
  induction p generalizing t with
  | pure a => exact ⟨t, rfl, hp⟩
  | call c k ih =>
    intro i s
    obtain ⟨hg, hk⟩ := hp i s
    refine ⟨⟨t, rfl, hg⟩, ?_⟩
    rw [List.append_assoc]
    exact ih _ hk

/-- A complete execution of two programs in sequence is one of each. -/
theorem Follows.of_bind {p : Prog S α} {f : α → Prog S β} {h : List (Obs M)} {b : β}
    (hf : Follows (p >>= f) h (.pure b)) :
    ∃ h₁ h₂ a, h = h₁ ++ h₂ ∧ Follows p h₁ (.pure a) ∧ Follows (f a) h₂ (.pure b) := by
  change Follows (p.bind f) h (.pure b) at hf
  induction p generalizing h with
  | pure a => exact ⟨[], h, a, rfl, .nil _, hf⟩
  | call c k ih =>
    cases hf with
    | @cons i s _ _ h _ hf =>
      obtain ⟨h₁, h₂, a, rfl, hp, hq⟩ := ih _ hf
      exact ⟨_ :: h₁, h₂, a, rfl, .cons hp, hq⟩

/-- Complete executions in sequence. -/
theorem Follows.append {p : Prog S α} {f : α → Prog S β} {h₁ h₂ : List (Obs M)} {a : α}
    {q : Prog S β} (hp : Follows p h₁ (.pure a)) (hf : Follows (f a) h₂ q) :
    Follows (p >>= f) (h₁ ++ h₂) q := by
  change Follows (p.bind f) (h₁ ++ h₂) q
  induction p generalizing h₁ with
  | pure b =>
    cases hp
    exact hf
  | call c k ih =>
    cases hp with
    | cons hp => exact .cons (ih _ hp)

/-- The execution of a call and of what follows its reply. -/
theorem Follows.perform {c : S.Call} {i : M.Input} {s : M.State} {r : S.Reply c}
    {k : S.Reply c → Prog S α} {h : List (Obs M)} {q : Prog S α}
    (hr : Obs.reply ⟨i, s, c⟩ = r) (hf : Follows (k r) h q) :
    Follows (Prog.perform c >>= k) (⟨i, s, c⟩ :: h) q := by
  subst hr
  exact .cons hf

/-- A program that makes no call has an empty history. -/
theorem Follows.of_pure {a b : α} {h : List (Obs M)} (hf : Follows (.pure a) h (.pure b)) :
    h = [] ∧ b = a := by
  cases hf
  exact ⟨rfl, rfl⟩

/-- A complete execution of a call and what follows it. -/
theorem Follows.of_perform {c : S.Call} {k : S.Reply c → Prog S α} {h : List (Obs M)} {a : α}
    (hf : Follows (Prog.perform c >>= k) h (.pure a)) :
    ∃ i s t, h = ⟨i, s, c⟩ :: t ∧ Follows (k (Obs.reply ⟨i, s, c⟩)) t (.pure a) := by
  change Follows (.call c k) h (.pure a) at hf
  cases hf with
  | cons hf => exact ⟨_, _, _, rfl, hf⟩

/-! ### Undisturbed executions -/

/-- The result and the final state of a program that runs alone, with the environment's
choices taken from a stream. -/
def Prog.run (M : Machine S) : Prog S α → (ℕ → M.Input) → M.State → α × M.State
  | .pure a, _, s => (a, s)
  | .call c k, i, s => run M (k (M.exec (i 0) c s).1) (fun n => i (n + 1)) (M.exec (i 0) c s).2

/-- The observations of a program that runs alone. -/
def Prog.trace (M : Machine S) : Prog S α → (ℕ → M.Input) → M.State → List (Obs M)
  | .pure _, _, _ => []
  | .call c k, i, s =>
    ⟨i 0, s, c⟩ ::
      trace M (k (M.exec (i 0) c s).1) (fun n => i (n + 1)) (M.exec (i 0) c s).2

/-- **Sequencing, alone.** The second program takes its choices from where the first one stopped. -/
theorem Prog.run_bind (p : Prog S α) (f : α → Prog S β) (i : ℕ → M.Input) (s : M.State) :
    ∃ n, (p >>= f).run M i s =
      (f (p.run M i s).1).run M (fun k => i (n + k)) (p.run M i s).2 := by
  change ∃ n, (p.bind f).run M i s = _
  induction p generalizing i s with
  | pure a => exact ⟨0, by simp [bind, run]⟩
  | call c k ih =>
    obtain ⟨n, hn⟩ := ih (M.exec (i 0) c s).1 (fun n => i (n + 1)) (M.exec (i 0) c s).2
    refine ⟨n + 1, ?_⟩
    rw [bind, run, hn, run]
    simp only [Nat.add_right_comm]

/-- A program that runs alone can end so. -/
def Alone (M : Machine S) (p : Prog S α) (s : M.State) (a : α) (s' : M.State) : Prop :=
  ∃ i, p.run M i s = (a, s')

theorem Alone.of_bind {p : Prog S α} {f : α → Prog S β} {s s' : M.State} {b : β}
    (h : Alone M (p >>= f) s b s') : ∃ a s₁, Alone M p s a s₁ ∧ Alone M (f a) s₁ b s' := by
  obtain ⟨i, hi⟩ := h
  obtain ⟨n, hn⟩ := p.run_bind f i s
  exact ⟨_, _, ⟨i, rfl⟩, _, hn.symm.trans hi⟩

theorem Alone.of_pure {a b : α} {s s' : M.State} (h : Alone M (pure a) s b s') :
    b = a ∧ s' = s := by
  obtain ⟨i, hi⟩ := h
  exact ⟨(congrArg Prod.fst hi).symm, (congrArg Prod.snd hi).symm⟩

theorem Alone.of_perform {c : S.Call} {s s' : M.State} {r : S.Reply c}
    (h : Alone M (Prog.perform c) s r s') : ∃ i, M.exec i c s = (r, s') := by
  obtain ⟨i, hi⟩ := h
  exact ⟨i 0, hi⟩

/-- Running alone is a complete execution. -/
theorem Prog.follows_trace (p : Prog S α) (i : ℕ → M.Input) (s : M.State) :
    Follows p (p.trace M i s) (.pure (p.run M i s).1) := by
  induction p generalizing i s with
  | pure a => exact .nil _
  | call c k ih => exact .cons (ih _ _ _)

/-- The observations of a program that runs alone have inputs of the stream. -/
theorem Prog.input_of_mem_trace {p : Prog S α} {i : ℕ → M.Input} {s : M.State} {o : Obs M}
    (ho : o ∈ p.trace M i s) : ∃ n, o.input = i n := by
  induction p generalizing i s with
  | pure a => cases ho
  | call c k ih =>
    rcases List.mem_cons.mp ho with rfl | ho
    · exact ⟨0, rfl⟩
    · obtain ⟨n, hn⟩ := ih _ ho
      exact ⟨n + 1, hn⟩

/-- **Noninterference.** If a relation of states is kept by every call of a program, and
related states give every call the same reply, then related states give the same result. -/
theorem Prog.run_related {R : M.State → M.State → Prop} {C : S.Call → Prop}
    (hexec : ∀ i c s s', C c → R s s' →
      (M.exec i c s).1 = (M.exec i c s').1 ∧ R (M.exec i c s).2 (M.exec i c s').2)
    {p : Prog S α} {h : List (Obs M)} (hp : wp (fun _ o => C o.call) Q p h)
    (i : ℕ → M.Input) {s s' : M.State} (hs : R s s') :
    (p.run M i s).1 = (p.run M i s').1 ∧ R (p.run M i s).2 (p.run M i s').2 := by
  induction p generalizing h i s s' with
  | pure a => exact ⟨rfl, hs⟩
  | call c k ih =>
    obtain ⟨hc, hk⟩ := hp (i 0) s
    obtain ⟨hr, hpost⟩ := hexec (i 0) c s s' hc hs
    simp only [Prog.run, ← hr]
    exact ih _ hk _ hpost

/-! ### Fallible programs

`ExceptT ε (Prog S)` is the monad of programs with an early error return. -/

/-- A result that is already there. -/
def Prog.ofExcept (r : Except ε α) : ExceptT ε (Prog S) α := ExceptT.mk (pure r)

@[simp]
theorem Prog.ofExcept_pure (a : α) :
    (ofExcept (Pure.pure a) : ExceptT ε (Prog S) α) = Pure.pure a := rfl

@[simp]
theorem Prog.ofExcept_bind (r : Except ε α) (f : α → Except ε β) :
    (ofExcept (r >>= f) : ExceptT ε (Prog S) β) = ofExcept r >>= fun a => ofExcept (f a) := by
  cases r <;> rfl

/-- A program in front of a fallible one. -/
theorem run_lift_bind (p : Prog S α) (f : α → ExceptT ε (Prog S) β) :
    (liftM p >>= f).run = p >>= fun a => (f a).run := by
  change (p >>= fun a => pure (Except.ok a)) >>= _ = _
  rw [bind_assoc]
  rfl

section Fallible

variable {ε' : Type} {Q : List (Obs M) → Except ε α → Prop} {h : List (Obs M)}

/-- The weakest precondition of a fallible program, as one of its underlying program. -/
@[simp]
theorem wp_run_bind {Q : List (Obs M) → Except ε β → Prop} (x : ExceptT ε (Prog S) α)
    (f : α → ExceptT ε (Prog S) β) (h : List (Obs M)) :
    wp G Q (x >>= f).run h ↔
      wp G (fun h' r => match r with
        | .ok a => wp G Q (f a).run h'
        | .error e => Q h' (.error e)) x.run h := by
  rw [ExceptT.run_bind, wp_bind]
  refine iff_of_eq (congrArg (fun Q => wp G Q x.run h) ?_)
  funext h' r
  cases r <;> rfl

@[simp]
theorem wp_run_throw (e : ε) :
    wp G Q (throw e : ExceptT ε (Prog S) α).run h ↔ Q h (.error e) :=
  Iff.rfl

@[simp]
theorem wp_run_ofExcept (r : Except ε α) : wp G Q (Prog.ofExcept r).run h ↔ Q h r := Iff.rfl

@[simp]
theorem wp_run_lift (p : Prog S α) :
    wp G Q (liftM p : ExceptT ε (Prog S) α).run h ↔ wp G (fun h a => Q h (.ok a)) p h := by
  change wp G Q (p >>= fun a => pure (.ok a)) h ↔ _
  rw [wp_bind]
  exact Iff.rfl

@[simp]
theorem wp_run_adapt {Q : List (Obs M) → Except ε' α → Prop} (f : ε → ε')
    (x : ExceptT ε (Prog S) α) :
    wp G Q (ExceptT.adapt f x).run h ↔ wp G (fun h r => Q h (r.mapError f)) x.run h := by
  change wp G Q (Except.mapError f <$> x.run) h ↔ _
  rw [map_eq_pure_bind, wp_bind]
  exact Iff.rfl

end Fallible

/-- What holds of a fallible program when it succeeds; of a failure nothing is asked. -/
def Ok (P : List (Obs M) → α → Prop) : List (Obs M) → Except ε α → Prop
  | h, .ok a => P h a
  | _, .error _ => True

section Success

variable {ε' : Type} {P : List (Obs M) → α → Prop} {h : List (Obs M)}

theorem ok_bind {P : List (Obs M) → β → Prop} {x : ExceptT ε (Prog S) α}
    {f : α → ExceptT ε (Prog S) β} (hx : wp G (Ok fun h' a => wp G (Ok P) (f a).run h') x.run h) :
    wp G (Ok P) (x >>= f).run h := by
  rw [wp_run_bind]
  refine wp_post hx ?_
  rintro h' (e | a) hr
  · trivial
  · exact hr

theorem ok_ofExcept {r : Except ε α} (hr : ∀ a, r = .ok a → P h a) :
    wp G (Ok P) (Prog.ofExcept r).run h := by
  rw [wp_run_ofExcept]
  cases r with
  | error e => trivial
  | ok a => exact hr a rfl

theorem ok_adapt {f : ε → ε'} {x : ExceptT ε (Prog S) α} (hx : wp G (Ok P) x.run h) :
    wp G (Ok P) (ExceptT.adapt f x).run h := by
  rw [wp_run_adapt]
  refine wp_post hx ?_
  rintro h' (e | a) hr
  · trivial
  · exact hr

/-- The successful end of two programs in sequence is one of each. -/
theorem Alone.of_ok_bind {x : ExceptT ε (Prog S) α} {f : α → ExceptT ε (Prog S) β} {s s' : M.State}
    {b : β} (hx : Alone M (x >>= f).run s (.ok b) s') :
    ∃ a s₁, Alone M x.run s (.ok a) s₁ ∧ Alone M (f a).run s₁ (.ok b) s' := by
  rw [ExceptT.run_bind] at hx
  obtain ⟨r, s₁, hr, hf⟩ := hx.of_bind
  cases r with
  | error e => cases (Alone.of_pure hf).1
  | ok a => exact ⟨a, s₁, hr, hf⟩

theorem Alone.of_ok_lift {p : Prog S α} {s s' : M.State} {a : α}
    (h : Alone M (liftM p : ExceptT ε (Prog S) α).run s (.ok a) s') : Alone M p s a s' := by
  change Alone M (p >>= fun a => pure (Except.ok a : Except ε α)) s (.ok a) s' at h
  obtain ⟨b, s₁, hb, hpure⟩ := h.of_bind
  obtain ⟨hab, rfl⟩ := hpure.of_pure
  cases hab
  exact hb

end Success

end Interaction
