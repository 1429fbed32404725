import ApmeApi.Lib.Interaction

/-!
# Interleaved interaction programs

A `System` is a machine together with the programs that answer requests and the actions by
which the environment changes the state on its own. A configuration holds the shared state
and the tasks started so far; a run is a list of actions, each of which starts a task, lets
one task make its next call, or lets the environment act. A task that is never scheduled
again has crashed or was cancelled, so crashes need no action of their own.

Each task remembers the calls it made (`history`), which is bookkeeping of the model: no
program reads it. What holds over all runs is derived from four rules:

* `Config.run_invariant`: an invariant of configurations kept by every action;
* `Config.run_follows`: every task is a residual of its program, so the weakest
  preconditions of `Interaction.wp` apply to it;
* `Config.run_recorded`: what a call established stays established when every call and
  every environment action keeps it; `Config.run_pairwise` says so of the later calls of the
  same task, `Config.run_later` of the calls of later tasks;
* `Config.run_token_unique`: a token that is issued only when it was not issued before is
  issued at most once in a run.
-/

namespace Interaction

/-- Request programs over a machine, and what the environment does by itself. -/
structure System where
  sig : Signature
  machine : Machine sig
  Request : Type
  Response : Type
  main : Request → Prog sig Response
  EnvAction : Type
  env : EnvAction → machine.State → machine.State

/-- A task: the request it answers, the calls it made, and the program that is left. -/
structure Task (Y : System) where
  request : Y.Request
  history : List (Obs Y.machine)
  prog : Prog Y.sig Y.Response

/-- What a task that has ended answers. -/
def Task.result {Y : System} (t : Task Y) : Option Y.Response :=
  match t.prog with
  | .pure a => some a
  | .call _ _ => none

theorem Task.result_eq_some {Y : System} {t : Task Y} {a : Y.Response} :
    t.result = some a ↔ t.prog = .pure a := by
  rw [Task.result]
  cases t.prog with
  | pure b => simp
  | call c k => simp

/-- The shared state and the tasks started so far, each known by its position. -/
structure Config (Y : System) where
  state : Y.machine.State
  tasks : List (Task Y)

/-- One action of a run. -/
inductive Action (Y : System) where
  | start (r : Y.Request)
  | call (i : ℕ) (input : Y.machine.Input)
  | env (e : Y.EnvAction)

variable {Y : System}

/-- The task after its next call, observed as `o`. -/
def Task.advance (t : Task Y) (o : Obs Y.machine) (q : Prog Y.sig Y.Response) : Task Y :=
  ⟨t.request, t.history ++ [o], q⟩

namespace Config

/-- The configuration after one action. A call of a task that does not exist or has ended
changes nothing. -/
def step (c : Config Y) : Action Y → Config Y
  | .start r => ⟨c.state, c.tasks ++ [⟨r, [], Y.main r⟩]⟩
  | .call i input =>
    match c.tasks[i]? with
    | none => c
    | some t =>
      match t.prog with
      | .pure _ => c
      | .call cl k =>
        let o : Obs Y.machine := ⟨input, c.state, cl⟩
        ⟨o.post, c.tasks.set i (t.advance o (k o.reply))⟩
  | .env e => ⟨Y.env e c.state, c.tasks⟩

/-- The configuration after a run. -/
def run (c : Config Y) (as : List (Action Y)) : Config Y := as.foldl step c

/-- The configuration in which no task has started. -/
def initial (s : Y.machine.State) : Config Y := ⟨s, []⟩

@[simp]
theorem run_nil (c : Config Y) : c.run [] = c := rfl

@[simp]
theorem run_cons (c : Config Y) (a : Action Y) (as : List (Action Y)) :
    c.run (a :: as) = (c.step a).run as := rfl

theorem run_append (c : Config Y) (as bs : List (Action Y)) :
    c.run (as ++ bs) = (c.run as).run bs := List.foldl_append

/-- **Inversion of one action**: it changes nothing, or it starts a task, or it is the next
call of a task, or it is the environment's. -/
theorem step_cases (c : Config Y) (a : Action Y) :
    c.step a = c ∨ (∃ r, c.step a = ⟨c.state, c.tasks ++ [⟨r, [], Y.main r⟩]⟩) ∨
      (∃ i t input cl k, c.tasks[i]? = some t ∧ t.prog = .call cl k ∧
        c.step a = ⟨Obs.post ⟨input, c.state, cl⟩,
          c.tasks.set i (t.advance ⟨input, c.state, cl⟩ (k (Obs.reply ⟨input, c.state, cl⟩)))⟩) ∨
      ∃ e, c.step a = ⟨Y.env e c.state, c.tasks⟩ := by
  cases a with
  | start r => exact .inr (.inl ⟨r, rfl⟩)
  | env e => exact .inr (.inr (.inr ⟨e, rfl⟩))
  | call i input =>
    cases ht : c.tasks[i]? with
    | none => exact .inl (by simp only [step, ht])
    | some t =>
      cases hp : t.prog with
      | pure a => exact .inl (by simp only [step, ht, hp])
      | call cl k =>
        exact .inr (.inr (.inl ⟨i, t, input, cl, k, ht, hp, by simp only [step, ht, hp]⟩))

/-- **Invariants of configurations.** -/
theorem run_invariant {I : Config Y → Prop}
    (hstart : ∀ c r, I c → I ⟨c.state, c.tasks ++ [⟨r, [], Y.main r⟩]⟩)
    (hcall : ∀ c i t input cl k, I c → c.tasks[i]? = some t → t.prog = .call cl k →
      I ⟨Obs.post ⟨input, c.state, cl⟩,
        c.tasks.set i (t.advance ⟨input, c.state, cl⟩ (k (Obs.reply ⟨input, c.state, cl⟩)))⟩)
    (henv : ∀ c e, I c → I ⟨Y.env e c.state, c.tasks⟩)
    {c : Config Y} (as : List (Action Y)) (hc : I c) : I (c.run as) := by
  induction as generalizing c with
  | nil => exact hc
  | cons a as ih =>
    refine ih ?_
    rcases c.step_cases a with h | ⟨r, h⟩ | ⟨i, t, input, cl, k, ht, hp, h⟩ | ⟨e, h⟩ <;> rw [h]
    · exact hc
    · exact hstart c r hc
    · exact hcall c i t input cl k hc ht hp
    · exact henv c e hc

/-! ### Tasks after an action -/

/-- The tasks after a call: the caller advanced, the others as they were. -/
theorem getElem?_set_advance {ts : List (Task Y)} {i j : ℕ} {t t' : Task Y} {o : Obs Y.machine}
    {q : Prog Y.sig Y.Response} (ht : ts[i]? = some t)
    (h : (ts.set i (t.advance o q))[j]? = some t') :
    (i = j ∧ t' = t.advance o q) ∨ (i ≠ j ∧ ts[j]? = some t') := by
  have hlt : i < ts.length := (List.getElem?_eq_some_iff.mp ht).1
  rcases eq_or_ne i j with rfl | hij
  · rw [List.getElem?_set_self hlt] at h
    exact .inl ⟨rfl, (Option.some.inj h).symm⟩
  · rw [List.getElem?_set_ne hij] at h
    exact .inr ⟨hij, h⟩

/-- Every task is still there after a call, with at least its calls. -/
theorem exists_mem_set_advance {ts : List (Task Y)} {i : ℕ} {t t' : Task Y} {o : Obs Y.machine}
    {q : Prog Y.sig Y.Response} (ht : ts[i]? = some t) (ht' : t' ∈ ts) :
    ∃ u ∈ ts.set i (t.advance o q), t'.request = u.request ∧ t'.history ⊆ u.history := by
  obtain ⟨j, hj⟩ := List.mem_iff_getElem?.mp ht'
  rcases eq_or_ne i j with rfl | hij
  · obtain rfl := Option.some.inj (ht.symm.trans hj)
    refine ⟨t.advance o q, List.mem_of_getElem? (List.getElem?_set_self ?_), rfl, ?_⟩
    · exact (List.getElem?_eq_some_iff.mp ht).1
    · exact List.subset_append_left _ _
  · refine ⟨t', List.mem_of_getElem? (i := j) ?_, rfl, List.Subset.refl _⟩
    rw [List.getElem?_set_ne hij, hj]

/-- The tasks after a start: the new one last, the others as they were. -/
theorem getElem?_concat_cases {ts : List (Task Y)} {j : ℕ} {t t' : Task Y}
    (h : (ts ++ [t])[j]? = some t') :
    (j = ts.length ∧ t' = t) ∨ ts[j]? = some t' := by
  rcases Nat.lt_trichotomy j ts.length with hj | rfl | hj
  · rw [List.getElem?_append_left hj] at h
    exact .inr h
  · rw [List.getElem?_concat_length] at h
    exact .inl ⟨rfl, (Option.some.inj h).symm⟩
  · rw [List.getElem?_eq_none (by simpa using Nat.succ_le_of_lt hj)] at h
    cases h

/-- Every task of a run is a residual of the program of its request. -/
theorem run_follows (s : Y.machine.State) (as : List (Action Y)) {i : ℕ} {t : Task Y}
    (ht : ((initial s).run as).tasks[i]? = some t) :
    Follows (Y.main t.request) t.history t.prog := by
  revert i t
  refine run_invariant (I := fun c => ∀ {i : ℕ} {t : Task Y}, c.tasks[i]? = some t →
    Follows (Y.main t.request) t.history t.prog) ?_ ?_ ?_ as ?_
  · intro c r hc j t' h
    rcases getElem?_concat_cases h with ⟨-, rfl⟩ | h
    · exact .nil _
    · exact hc h
  · intro c i t input cl k hc ht hp j t' h
    rcases getElem?_set_advance ht h with ⟨-, rfl⟩ | ⟨-, h⟩
    · have hf := hc ht
      rw [hp] at hf
      exact hf.snoc input c.state
    · exact hc h
  · exact fun c e hc => hc
  · intro i t h
    simp [initial] at h

/-! ### Facts that persist -/

/-- A fact about the state that no call and no environment action ends. -/
structure Stable (Y : System) (F : Y.machine.State → Prop) : Prop where
  exec : ∀ input c s, F s → F (Y.machine.exec input c s).2
  env : ∀ e s, F s → F (Y.env e s)

theorem Stable.true : Stable Y fun _ => True := ⟨fun _ _ _ _ => trivial, fun _ _ _ => trivial⟩

/-- A stable fact holds after every run from a state in which it holds. -/
theorem run_stable {F : Y.machine.State → Prop} (hF : Stable Y F) {c : Config Y}
    (as : List (Action Y)) (hc : F c.state) : F (c.run as).state :=
  run_invariant (I := fun c => F c.state) (fun _ _ h => h)
    (fun c _ _ input cl _ h _ _ => hF.exec input cl c.state h) (fun c e h => hF.env e c.state h)
    as hc

/-- **What a call established persists.** If each call establishes `R o` of its observation
in the state it leaves, from a stable invariant of the states, and `R o` is stable, then `R o`
holds of the present state for every call made so far. -/
theorem run_recorded {F : Y.machine.State → Prop} {R : Obs Y.machine → Y.machine.State → Prop}
    (hF : Stable Y F) (hR : ∀ o, Stable Y (R o)) (hnew : ∀ o : Obs Y.machine, F o.pre → R o o.post)
    {s : Y.machine.State} (hs : F s) (as : List (Action Y)) {t : Task Y}
    (ht : t ∈ ((initial s).run as).tasks) {o : Obs Y.machine} (ho : o ∈ t.history) :
    R o ((initial s).run as).state := by
  refine (run_invariant (I := fun c => F c.state ∧ ∀ t ∈ c.tasks, ∀ o ∈ t.history, R o c.state)
    ?_ ?_ ?_ as ⟨hs, by simp [initial]⟩).2 t ht o ho
  · rintro c r ⟨hf, hc⟩
    refine ⟨hf, fun t ht o ho => ?_⟩
    rcases List.mem_append.mp ht with ht | ht
    · exact hc t ht o ho
    · obtain rfl := List.mem_singleton.mp ht
      cases ho
  · rintro c i t input cl k ⟨hf, hc⟩ ht -
    refine ⟨hF.exec input cl c.state hf, fun t' ht' o ho => ?_⟩
    rcases List.mem_or_eq_of_mem_set ht' with ht' | rfl
    · exact (hR o).exec input cl c.state (hc t' ht' o ho)
    · rcases List.mem_append.mp ho with ho | ho
      · exact (hR o).exec input cl c.state (hc t (List.mem_of_getElem? ht) o ho)
      · obtain rfl := List.mem_singleton.mp ho
        exact hnew _ hf
  · rintro c e ⟨hf, hc⟩
    exact ⟨hF.env e c.state hf, fun t ht o ho => (hR o).env e c.state (hc t ht o ho)⟩

/-- **What a call established is found by the later calls of its task.** -/
theorem run_pairwise {R : Obs Y.machine → Y.machine.State → Prop} (hR : ∀ o, Stable Y (R o))
    (hnew : ∀ o : Obs Y.machine, R o o.post) (s : Y.machine.State) (as : List (Action Y))
    {t : Task Y} (ht : t ∈ ((initial s).run as).tasks) :
    t.history.Pairwise fun o o' => R o o'.pre := by
  refine (run_invariant (I := fun c => ∀ t ∈ c.tasks,
    (∀ o ∈ t.history, R o c.state) ∧ t.history.Pairwise fun o o' => R o o'.pre)
    ?_ ?_ ?_ as (by simp [initial]) t ht).2
  · intro c r hc t ht
    rcases List.mem_append.mp ht with ht | ht
    · exact hc t ht
    · obtain rfl := List.mem_singleton.mp ht
      exact ⟨by simp, .nil⟩
  · intro c i t input cl k hc ht _ t' ht'
    rcases List.mem_or_eq_of_mem_set ht' with ht' | rfl
    · have ⟨hpresent, hpair⟩ := hc t' ht'
      exact ⟨fun o ho => (hR o).exec input cl c.state (hpresent o ho), hpair⟩
    · -- the task of the call: what its calls established holds when it makes this one
      have ⟨hpresent, hpair⟩ := hc t (List.mem_of_getElem? ht)
      refine ⟨fun o ho => ?_, ?_⟩
      · rcases List.mem_append.mp ho with ho | ho
        · exact (hR o).exec input cl c.state (hpresent o ho)
        · obtain rfl := List.mem_singleton.mp ho
          exact hnew _
      · refine List.pairwise_append.mpr ⟨hpair, List.pairwise_singleton .., fun o ho o' ho' => ?_⟩
        obtain rfl := List.mem_singleton.mp ho'
        exact hpresent o ho
  · intro c e hc t ht
    exact ⟨fun o ho => (hR o).env e c.state ((hc t ht).1 o ho), (hc t ht).2⟩

/-- Histories only grow: a task of a configuration is still there after a run, with its
request and at least its calls, and every further call found a stable fact of the
configuration. -/
theorem run_extends {F : Y.machine.State → Prop} (hF : Stable Y F) {c : Config Y}
    (hc : F c.state) (as : List (Action Y)) {i : ℕ} {t : Task Y} (ht : c.tasks[i]? = some t) :
    ∃ t' u, (c.run as).tasks[i]? = some t' ∧ t'.request = t.request ∧
      t'.history = t.history ++ u ∧ ∀ o ∈ u, F o.pre := by
  refine (run_invariant (I := fun c' => F c'.state ∧ ∃ t' u, c'.tasks[i]? = some t' ∧
    t'.request = t.request ∧ t'.history = t.history ++ u ∧ ∀ o ∈ u, F o.pre)
    ?_ ?_ ?_ as ⟨hc, t, [], ht, rfl, by simp, by simp⟩).2
  · rintro c' r ⟨hf, t', u, h, hr, hh, hu⟩
    refine ⟨hf, t', u, ?_, hr, hh, hu⟩
    exact (List.getElem?_append_left (List.getElem?_eq_some_iff.mp h).1).trans h
  · rintro c' j t₁ input cl k ⟨hf, t', u, h, hr, hh, hu⟩ ht₁ -
    refine ⟨hF.exec input cl c'.state hf, ?_⟩
    -- the call is one of the task itself, or of another
    rcases eq_or_ne j i with rfl | hij
    · obtain rfl : t₁ = t' := Option.some.inj (ht₁.symm.trans h)
      refine ⟨_, u ++ [⟨input, c'.state, cl⟩],
        List.getElem?_set_self (List.getElem?_eq_some_iff.mp h).1, hr, ?_, ?_⟩
      · simp only [Task.advance, hh, List.append_assoc]
      · intro o ho
        rcases List.mem_append.mp ho with ho | ho
        · exact hu o ho
        · obtain rfl := List.mem_singleton.mp ho
          exact hf
    · exact ⟨t', u, (List.getElem?_set_ne hij).trans h, hr, hh, hu⟩
  · rintro c' e ⟨hf, h⟩
    exact ⟨hF.env e c'.state hf, h⟩

/-- **Later tasks find what holds now.** Every call of a task started after a configuration
found each stable fact of that configuration. -/
theorem run_later {F : Y.machine.State → Prop} (hF : Stable Y F) {c : Config Y} (hc : F c.state)
    (as : List (Action Y)) {j : ℕ} (hj : c.tasks.length ≤ j) {t : Task Y}
    (ht : (c.run as).tasks[j]? = some t) {o : Obs Y.machine} (ho : o ∈ t.history) : F o.pre := by
  refine (run_invariant (I := fun c' => F c'.state ∧ ∀ j t, c.tasks.length ≤ j →
    c'.tasks[j]? = some t → ∀ o ∈ t.history, F o.pre) ?_ ?_ ?_ as ⟨hc, ?_⟩).2 j t hj ht o ho
  · rintro c' r ⟨hf, h⟩
    refine ⟨hf, fun j t hj ht o ho => ?_⟩
    rcases getElem?_concat_cases ht with ⟨-, rfl⟩ | ht
    · cases ho
    · exact h j t hj ht o ho
  · rintro c' i t₁ input cl k ⟨hf, h⟩ ht₁ -
    refine ⟨hF.exec input cl c'.state hf, fun j t hj ht o ho => ?_⟩
    rcases getElem?_set_advance ht₁ ht with ⟨rfl, rfl⟩ | ⟨-, ht⟩
    · rcases List.mem_append.mp ho with ho | ho
      · exact h i t₁ hj ht₁ o ho
      · obtain rfl := List.mem_singleton.mp ho
        exact hf
    · exact h j t hj ht o ho
  · rintro c' e ⟨hf, h⟩
    exact ⟨hF.env e c'.state hf, h⟩
  · intro j t hj ht
    rw [List.getElem?_eq_none hj] at ht
    cases ht

/-- **A call is an old one or finds what holds now**: each call that a run adds to a configuration
found every stable fact of that configuration. -/
theorem run_since {F : Y.machine.State → Prop} (hF : Stable Y F) {c : Config Y} (hc : F c.state)
    (as : List (Action Y)) {i : ℕ} {t : Task Y} (ht : (c.run as).tasks[i]? = some t)
    {o : Obs Y.machine} (ho : o ∈ t.history) :
    (∃ t₀, c.tasks[i]? = some t₀ ∧ o ∈ t₀.history) ∨ F o.pre := by
  cases ht₀ : c.tasks[i]? with
  | none => exact .inr (run_later hF hc as (List.getElem?_eq_none_iff.mp ht₀) ht ho)
  | some t₀ =>
    obtain ⟨t', u, ht', -, hh, hu⟩ := run_extends hF hc as ht₀
    obtain rfl := Option.some.inj (ht'.symm.trans ht)
    rw [hh] at ho
    rcases List.mem_append.mp ho with ho | ho
    · exact .inl ⟨t₀, rfl, ho⟩
    · exact .inr (hu o ho)

/-! ### Logs -/

/-- One element of a list replaced by one with more to say. -/
theorem flatMap_set_perm {γ β : Type} {f : γ → List β} {x : List β} :
    ∀ {ts : List γ} {i : ℕ} {t t' : γ}, ts[i]? = some t → f t' = f t ++ x →
      ((ts.set i t').flatMap f).Perm (ts.flatMap f ++ x)
  | [], i, t, t', ht, _ => by simp at ht
  | t₀ :: ts, 0, t, t', ht, hf => by
    obtain rfl : t₀ = t := Option.some.inj ht
    simp only [List.set_cons_zero, List.flatMap_cons, hf, List.append_assoc]
    exact List.Perm.append_left _ List.perm_append_comm
  | t₀ :: ts, i + 1, t, t', ht, hf => by
    have ht' : ts[i]? = some t := by simpa using ht
    have ih := flatMap_set_perm ht' hf
    simp only [List.set_cons_succ, List.flatMap_cons, List.append_assoc]
    exact List.Perm.append_left _ ih

/-- **A log holds what the calls appended**: when every call appends `E` of its observation
to a log `L` of the state, and nothing else touches it, the log is what it was and what the calls of
all tasks appended, in some order. -/
theorem run_log {β : Type} {L : Y.machine.State → List β} {E : Obs Y.machine → List β}
    (hexec : ∀ o : Obs Y.machine, L o.post = L o.pre ++ E o)
    (henv : ∀ e s, L (Y.env e s) = L s) (s : Y.machine.State) (as : List (Action Y)) :
    (L ((initial s).run as).state).Perm
      (L s ++ ((initial s).run as).tasks.flatMap fun t => t.history.flatMap E) := by
  refine run_invariant (I := fun c => (L c.state).Perm
    (L s ++ c.tasks.flatMap fun t => t.history.flatMap E)) ?_ ?_ ?_ as (by simp [initial])
  · intro c r hc
    simpa using hc
  · intro c i t input cl k hc ht _
    have hset := flatMap_set_perm (f := fun t : Task Y => t.history.flatMap E)
      (x := E ⟨input, c.state, cl⟩) ht
      (show (t.advance ⟨input, c.state, cl⟩ (k (Obs.reply ⟨input, c.state, cl⟩))).history.flatMap
        E = _ by simp [Task.advance])
    rw [hexec]
    refine (hc.append_right _).trans ?_
    rw [List.append_assoc]
    exact (hset.append_left _).symm
  · intro c e hc
    rwa [henv]

/-- When only the `i`-th element contributes to a count, it is the count. -/
theorem countP_flatMap_of_unique {γ β : Type} {f : γ → List β} {p : β → Bool} :
    ∀ {ts : List γ} {i : ℕ} {t : γ}, ts[i]? = some t →
      (∀ j u, ts[j]? = some u → j ≠ i → (f u).countP p = 0) →
        (ts.flatMap f).countP p = (f t).countP p
  | [], i, t, ht, _ => by simp at ht
  | t₀ :: ts, 0, t, ht, h => by
    obtain rfl : t₀ = t := Option.some.inj ht
    have hrest : (ts.flatMap f).countP p = 0 := by
      rw [List.countP_eq_zero]
      intro b hb
      obtain ⟨u, hu, hbu⟩ := List.mem_flatMap.mp hb
      obtain ⟨j, hj⟩ := List.mem_iff_getElem?.mp hu
      exact List.countP_eq_zero.mp (h (j + 1) u (by simpa using hj) (by simp)) b hbu
    simp only [List.flatMap_cons, List.countP_append, hrest, Nat.add_zero]
  | t₀ :: ts, i + 1, t, ht, h => by
    have hhead : (f t₀).countP p = 0 := h 0 t₀ rfl (by simp)
    have ht' : ts[i]? = some t := by simpa using ht
    have ih := countP_flatMap_of_unique ht'
      fun j u hu hj => h (j + 1) u (by simpa using hu) (by simpa using hj)
    simp only [List.flatMap_cons, List.countP_append, hhead, ih, Nat.zero_add]

/-! ### Tokens -/

/-- **Tokens are issued once.** If a call issues a token only in a state where it was not
issued, leaves it issued, and nothing withdraws it, then two calls of a run that issue the
same token are the same call of the same task. -/
theorem run_token_unique {T : Type} {P : T → Y.machine.State → Prop}
    {R : Obs Y.machine → T → Prop} (hI : ∀ x, Stable Y (P x))
    (hpre : ∀ o x, R o x → ¬ P x o.pre) (hpost : ∀ o x, R o x → P x o.post)
    (s : Y.machine.State) (as : List (Action Y)) {i j m n : ℕ} {t u : Task Y}
    {o o' : Obs Y.machine} {x : T}
    (ht : ((initial s).run as).tasks[i]? = some t) (ho : t.history[m]? = some o)
    (hu : ((initial s).run as).tasks[j]? = some u) (ho' : u.history[n]? = some o')
    (hx : R o x) (hx' : R o' x) : i = j ∧ m = n := by
  refine (run_invariant (I := fun c => (∀ t ∈ c.tasks, ∀ o ∈ t.history, ∀ x, R o x →
      P x c.state) ∧ ∀ i j m n t u o o' x, c.tasks[i]? = some t → t.history[m]? = some o →
      c.tasks[j]? = some u → u.history[n]? = some o' → R o x → R o' x →
      i = j ∧ m = n) ?_ ?_ ?_ as ⟨by simp [initial], by simp [initial]⟩).2
    i j m n t u o o' x ht ho hu ho' hx hx'
  · rintro c r ⟨hiss, hc⟩
    refine ⟨fun t ht o ho => ?_, ?_⟩
    · rcases List.mem_append.mp ht with ht | ht
      · exact hiss t ht o ho
      · obtain rfl := List.mem_singleton.mp ht
        cases ho
    · intro i j m n t u o o' x ht ho hu ho'
      rcases getElem?_concat_cases ht with ⟨-, rfl⟩ | ht
      · cases ho
      · rcases getElem?_concat_cases hu with ⟨-, rfl⟩ | hu
        · cases ho'
        · exact hc i j m n t u o o' x ht ho hu ho'
  · rintro c a t₁ input cl k ⟨hiss, hc⟩ ht₁ -
    -- an older call and the new one do not issue the same token
    have hnew : ∀ t ∈ c.tasks, ∀ o ∈ t.history, ∀ x, R o x →
        ¬ R ⟨input, c.state, cl⟩ x := fun t ht o ho x hx hx' =>
      hpre _ x hx' (hiss t ht o ho x hx)
    have hmem : ∀ {j n u o}, (c.tasks.set a (t₁.advance ⟨input, c.state, cl⟩
        (k (Obs.reply ⟨input, c.state, cl⟩))))[j]? = some u → u.history[n]? = some o →
        (∃ u', c.tasks[j]? = some u' ∧ u'.history[n]? = some o) ∨
          (j = a ∧ n = t₁.history.length ∧ o = ⟨input, c.state, cl⟩) := by
      intro j n u o hu ho
      rcases getElem?_set_advance ht₁ hu with ⟨rfl, rfl⟩ | ⟨-, hu⟩
      · simp only [Task.advance] at ho
        rcases Nat.lt_trichotomy n t₁.history.length with hn | rfl | hn
        · exact .inl ⟨t₁, ht₁, by rwa [List.getElem?_append_left hn] at ho⟩
        · rw [List.getElem?_concat_length] at ho
          exact .inr ⟨rfl, rfl, (Option.some.inj ho).symm⟩
        · rw [List.getElem?_eq_none (by simpa using Nat.succ_le_of_lt hn)] at ho
          cases ho
      · exact .inl ⟨u, hu, ho⟩
    refine ⟨fun t ht o ho x hx => ?_, fun i j m n t u o o' x ht ho hu ho' hx hx' => ?_⟩
    · obtain ⟨i, hi⟩ := List.mem_iff_getElem?.mp ht
      obtain ⟨m, hm⟩ := List.mem_iff_getElem?.mp ho
      rcases hmem hi hm with ⟨t', ht', ho'⟩ | ⟨-, -, rfl⟩
      · exact (hI x).exec input cl c.state
          (hiss t' (List.mem_of_getElem? ht') o (List.mem_of_getElem? ho') x hx)
      · exact hpost _ x hx
    · rcases hmem ht ho with ⟨t', ht', hm⟩ | ⟨rfl, rfl, rfl⟩
      · rcases hmem hu ho' with ⟨u', hu', hn⟩ | ⟨rfl, rfl, rfl⟩
        · exact hc i j m n t' u' o o' x ht' hm hu' hn hx hx'
        · exact absurd hx' (hnew t' (List.mem_of_getElem? ht') o (List.mem_of_getElem? hm) x hx)
      · rcases hmem hu ho' with ⟨u', hu', hn⟩ | ⟨rfl, rfl, rfl⟩
        · exact absurd hx (hnew u' (List.mem_of_getElem? hu') o' (List.mem_of_getElem? hn) x hx')
        · exact ⟨rfl, rfl⟩
  · rintro c e ⟨hiss, hc⟩
    exact ⟨fun t ht o ho x hx => (hI x).env e c.state (hiss t ht o ho x hx), hc⟩

end Config

end Interaction
