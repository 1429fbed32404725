import ApmeApi.Lib.Interaction

/-!
# Service loops

`Prog.loop body n` are the first `n` rounds of an endless loop. One round returns `none` to go
on, or `some a` to leave the loop with `a`; an error leaves the loop too. So the result `ok none`
says that the loop still runs after `n` rounds, and the residuals of all `Prog.loop body n` are
the states that the loop reaches.

* `wp_loop`: an invariant of the histories that every round keeps;
* `StopsAt T p`: the program `p` makes no call after an observation that satisfies `T`, and
  it leaves the loop exactly at such an observation. `StopsAt.returned_iff` says what this means
  of a run: the loop has been left if and only if `T` was observed, and `T` was observed at most
  once, at the end.
-/

namespace Interaction

variable {S : Signature} {M : Machine S} {α ε : Type}

/-- The first `n` rounds of an endless loop. -/
def Prog.loop (body : ExceptT ε (Prog S) (Option α)) : ℕ → ExceptT ε (Prog S) (Option α)
  | 0 => Pure.pure (f := ExceptT ε (Prog S)) none
  | n + 1 => do
    match ← body with
    | some a => return some a
    | none => loop body n

variable {G : List (Obs M) → Obs M → Prop} {Q : List (Obs M) → Except ε (Option α) → Prop}

/-- **The loop rule.** If every round keeps the invariant `I` or leaves the loop under `Q`, then
the loop still runs under `I` or was left under `Q`. -/
theorem wp_loop {I : List (Obs M) → Prop} {body : ExceptT ε (Prog S) (Option α)}
    (hbody : ∀ h, I h → wp G (fun h' r => match r with
      | .ok none => I h'
      | r => Q h' r) body.run h)
    (hrunning : ∀ h, I h → Q h (.ok none)) (n : ℕ) {h : List (Obs M)} (hI : I h) :
    wp G Q (Prog.loop body n).run h := by
  induction n generalizing h with
  | zero => exact hrunning h hI
  | succ n ih =>
    rw [Prog.loop, wp_run_bind]
    refine wp_post (hbody h hI) fun h' r hr => ?_
    match r with
    | .error e => exact hr
    | .ok (some a) => exact hr
    | .ok none => exact ih hr

/-! ### Loops that stop at an observation -/

/-- Whether what is left of a loop has been left: with a value or with an error. -/
def Returned (q : Prog S (Except ε (Option α))) : Prop := ∃ r, r ≠ .ok none ∧ q = .pure r

/-- No call of a history satisfies `T`. -/
def Free (T : Obs M → Prop) (h : List (Obs M)) : Prop := ∀ o ∈ h, ¬ T o

/-- The program calls only as long as `T` has not been observed, and it goes on to the next
round exactly when it still has not. -/
def StopsAt (T : Obs M → Prop) (p : ExceptT ε (Prog S) (Option α)) : Prop :=
  ∀ h, Free T h → wp (fun h' _ => Free T h') (fun h' r => r = .ok none ↔ Free T h') p.run h

variable {T : Obs M → Prop}

theorem Free.nil : Free T ([] : List (Obs M)) := fun _ ho => by cases ho

theorem Free.concat {h : List (Obs M)} {o : Obs M} (hh : Free T h) (ho : ¬ T o) :
    Free T (h ++ [o]) := by
  intro o' ho'
  rcases List.mem_append.mp ho' with ho' | ho'
  · exact hh o' ho'
  · rwa [List.mem_singleton.mp ho']

/-- A loop that stops at its last observation. -/
theorem left_iff {h : List (Obs M)} {o : Obs M} {r : Except ε (Option α)} (ho : T o)
    (hr : r ≠ .ok none) : r = .ok none ↔ Free T (h ++ [o]) :=
  ⟨fun he => absurd he hr, fun hf => absurd ho (hf o (by simp))⟩

/-- A loop that goes on. -/
theorem running_iff {h : List (Obs M)} (hh : Free T h) :
    (.ok none : Except ε (Option α)) = .ok none ↔ Free T h :=
  ⟨fun _ => hh, fun _ => rfl⟩

/-- A loop stops where its rounds do. -/
theorem StopsAt.loop {body : ExceptT ε (Prog S) (Option α)} (hbody : StopsAt T body) (n : ℕ) :
    StopsAt T (Prog.loop body n) := by
  intro h hfree
  refine wp_loop (I := Free T) (fun h hfree => ?_) (fun h hfree => running_iff hfree) n
    hfree
  refine wp_post (hbody h hfree) fun h' r hr => ?_
  match r with
  | .error e => exact hr
  | .ok (some a) => exact hr
  | .ok none => exact hr.mp rfl

/-- What the residuals of such a program look like. -/
theorem StopsAt.sound {p : ExceptT ε (Prog S) (Option α)} (hp : StopsAt T p) {h : List (Obs M)}
    {q : Prog S (Except ε (Option α))} (hf : Follows p.run h q) :
    wp (fun h' _ => Free T h') (fun h' r => r = .ok none ↔ Free T h') q h ∧
      ∀ t₁ o t₂, h = t₁ ++ o :: t₂ → Free T t₁ := by
  have hsound := hf.sound (hp [] Free.nil)
  simpa using hsound

/-- **Where the loop was left**: it has been left if and only if `T` was observed. -/
theorem StopsAt.returned_iff {p : ExceptT ε (Prog S) (Option α)} (hp : StopsAt T p)
    {h : List (Obs M)} {q : Prog S (Except ε (Option α))} (hi : Nonempty M.Input)
    (hs : Nonempty M.State) (hf : Follows p.run h q) : Returned q ↔ ∃ o ∈ h, T o := by
  have hq := (hp.sound hf).1
  cases q with
  | pure r =>
    have hr : r = .ok none ↔ Free T h := hq
    have hleft : Returned (.pure r : Prog S (Except ε (Option α))) ↔ r ≠ .ok none := by
      constructor
      · rintro ⟨r', hr', he⟩
        obtain rfl := Prog.pure.inj he
        exact hr'
      · exact fun hr' => ⟨r, hr', rfl⟩
    rw [hleft, ne_eq, hr, Free]
    push Not
    rfl
  | call c k =>
    -- a call is left to make, so nothing of `h` satisfies `T`
    have hfree : Free T h := (hq hi.some hs.some).1
    constructor
    · rintro ⟨r, -, he⟩
      cases he
    · rintro ⟨o, ho, hT⟩
      exact absurd hT (hfree o ho)

/-- **`T` is observed last**: two observations of a run that satisfy it are one. -/
theorem StopsAt.unique {p : ExceptT ε (Prog S) (Option α)} (hp : StopsAt T p)
    {h : List (Obs M)} {q : Prog S (Except ε (Option α))} (hf : Follows p.run h q)
    {o o' : Obs M} (ho : o ∈ h) (ho' : o' ∈ h) (hT : T o) (hT' : T o') : o = o' := by
  have hfirst := (hp.sound hf).2
  obtain ⟨t₁, t₂, rfl⟩ := List.append_of_mem ho
  rcases List.mem_append.mp ho' with hmem | hmem
  · exact absurd hT' (hfirst t₁ o t₂ rfl o' hmem)
  · rcases List.mem_cons.mp hmem with rfl | hmem
    · rfl
    · obtain ⟨u₁, u₂, rfl⟩ := List.append_of_mem hmem
      have hfree := hfirst (t₁ ++ o :: u₁) o' u₂ (by simp)
      exact absurd hT (hfree o (by simp))

end Interaction
