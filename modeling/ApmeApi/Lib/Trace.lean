import ApmeApi.Lib.Pool
import Mathlib.Data.List.Induction

/-!
# The trace of a run

The calls of all tasks of a run, in the order in which they were made, each with the position of
its task. The history of a task is its projection of the trace (`trace_filter`), and what happens
between two calls of a trace is the effect of the calls in between and of the environment
(`trace_related`): the rule for reasoning about what others did between two calls of one task. The
calls that a task makes since some moment find the states of the run since then (`history_since`).
-/

namespace Interaction

namespace Config

variable {Y : System}

/-- The call that an action makes, with its task. -/
def called (c : Config Y) : Action Y → Option (ℕ × Obs Y.machine)
  | .start _ => none
  | .call i input =>
    match c.tasks[i]? with
    | none => none
    | some t =>
      match t.prog with
      | .pure _ => none
      | .call cl _ => some (i, ⟨input, c.state, cl⟩)
  | .env _ => none

/-- The calls of a run. -/
def trace (c : Config Y) : List (Action Y) → List (ℕ × Obs Y.machine)
  | [] => []
  | a :: as => (c.called a).toList ++ (c.step a).trace as

theorem trace_append (c : Config Y) (as bs : List (Action Y)) :
    c.trace (as ++ bs) = c.trace as ++ (c.run as).trace bs := by
  induction as generalizing c with
  | nil => rfl
  | cons a as ih =>
    change (c.called a).toList ++ (c.step a).trace (as ++ bs) = _
    rw [ih, ← List.append_assoc]
    rfl

/-- **Inversion of one action, with its call**: without a call it leaves the histories as they
are, and with one it extends the history of the caller. -/
theorem called_cases (c : Config Y) (a : Action Y) :
    (c.called a = none ∧ (c.step a = c ∨
      (∃ r, c.step a = ⟨c.state, c.tasks ++ [⟨r, [], Y.main r⟩]⟩) ∨
        ∃ e, c.step a = ⟨Y.env e c.state, c.tasks⟩)) ∨
    ∃ i t o q, c.called a = some (i, o) ∧ c.tasks[i]? = some t ∧ o.pre = c.state ∧
      c.step a = ⟨o.post, c.tasks.set i (t.advance o q)⟩ := by
  cases a with
  | start r => exact .inl ⟨rfl, .inr (.inl ⟨r, rfl⟩)⟩
  | env e => exact .inl ⟨rfl, .inr (.inr ⟨e, rfl⟩)⟩
  | call i input =>
    cases ht : c.tasks[i]? with
    | none => exact .inl ⟨by simp only [called, ht], .inl (by simp only [step, ht])⟩
    | some t =>
      cases hp : t.prog with
      | pure a => exact .inl ⟨by simp only [called, ht, hp], .inl (by simp only [step, ht, hp])⟩
      | call cl k =>
        exact .inr ⟨i, t, ⟨input, c.state, cl⟩, k (Obs.reply ⟨input, c.state, cl⟩),
          by simp only [called, ht, hp], ht, rfl, by simp only [step, ht, hp]⟩

/-- An action on a task that makes no call changes nothing. -/
theorem step_of_called_none {c : Config Y} {i : ℕ} {input : Y.machine.Input}
    (h : c.called (.call i input) = none) : c.step (.call i input) = c := by
  cases ht : c.tasks[i]? with
  | none => simp only [step, ht]
  | some t =>
    cases hp : t.prog with
    | pure a => simp only [step, ht, hp]
    | call cl k => simp [called, ht, hp] at h

/-- **The history of a task is its projection of the trace.** The induction is on the run, from
its last action. -/
theorem trace_filter (s : Y.machine.State) (as : List (Action Y)) {i : ℕ} {t : Task Y}
    (ht : ((initial s).run as).tasks[i]? = some t) :
    (((initial s).trace as).filter fun x => x.1 = i).map Prod.snd = t.history := by
  -- no call of the trace is of a task that has not started
  suffices h : (∀ x ∈ (initial s).trace as, x.1 < ((initial s).run as).tasks.length) ∧
      ∀ (i : ℕ) (t : Task Y), ((initial s).run as).tasks[i]? = some t →
        (((initial s).trace as).filter fun x => x.1 = i).map Prod.snd = t.history from h.2 i t ht
  clear ht
  induction as using List.reverseRecOn with
  | nil => exact ⟨by simp [trace], by simp [initial]⟩
  | append_singleton as a ih =>
    obtain ⟨hlt, hhistory⟩ := ih
    have htrace : (initial s).trace (as ++ [a]) =
        (initial s).trace as ++ (((initial s).run as).called a).toList := by
      rw [trace_append, trace, trace, List.append_nil]
    have hrun : (initial s).run (as ++ [a]) = ((initial s).run as).step a := by
      rw [run_append, run_cons, run_nil]
    rw [htrace, hrun]
    obtain ⟨hnone, hstep | ⟨r, hstep⟩ | ⟨e, hstep⟩⟩ | ⟨j, u, o, q, hcalled, hu, -, hstep⟩ :=
      ((initial s).run as).called_cases a
    · rw [hnone, hstep]
      simpa using And.intro hlt hhistory
    · rw [hnone, hstep]
      simp only [Option.toList_none, List.append_nil]
      refine ⟨fun x hx => ?_, fun i t ht => ?_⟩
      · have hx' := hlt x hx
        simp only [List.length_append, List.length_singleton]
        omega
      · rcases getElem?_concat_cases ht with ⟨rfl, rfl⟩ | ht
        · -- a task that has just started has made no call
          have hempty : ((initial s).trace as).filter
              (fun x => x.1 = ((initial s).run as).tasks.length) = [] := by
            refine List.filter_eq_nil_iff.mpr fun x hx => ?_
            have hx' := hlt x hx
            simpa using Nat.ne_of_lt hx'
          rw [hempty]
          rfl
        · exact hhistory i t ht
    · rw [hnone, hstep]
      simpa using And.intro hlt hhistory
    · rw [hcalled, hstep]
      simp only [Option.toList_some]
      have hj := (List.getElem?_eq_some_iff.mp hu).1
      refine ⟨fun x hx => ?_, fun i t ht => ?_⟩
      · rw [List.length_set]
        rcases List.mem_append.mp hx with hx | hx
        · exact hlt x hx
        · rw [List.mem_singleton.mp hx]
          exact hj
      · rw [List.filter_append, List.map_append]
        rcases getElem?_set_advance hu ht with ⟨rfl, rfl⟩ | ⟨hij, ht⟩
        · rw [hhistory j u hu]
          simp [Task.advance]
        · rw [hhistory i t ht]
          simp [hij]

/-- The first two elements of a projection, in the whole. -/
theorem exists_split_of_filter {α : Type} {i : ℕ} {a b : α} {rest : List α} :
    ∀ {l : List (ℕ × α)}, (l.filter fun x => x.1 = i).map Prod.snd = a :: b :: rest →
      ∃ l₁ l₂ l₃, l = l₁ ++ (i, a) :: (l₂ ++ (i, b) :: l₃) := by
  -- the first element of a projection, and what is left
  have hfirst : ∀ {l : List (ℕ × α)} {a : α} {rest : List α},
      (l.filter fun x => x.1 = i).map Prod.snd = a :: rest →
        ∃ l₁ l₂, l = l₁ ++ (i, a) :: l₂ ∧ (l₂.filter fun x => x.1 = i).map Prod.snd = rest := by
    intro l
    induction l with
    | nil => simp
    | cons x l ih =>
      intro a rest h
      by_cases hx : x.1 = i
      · rw [List.filter_cons_of_pos (by simpa using hx), List.map_cons] at h
        obtain ⟨rfl, hrest⟩ := List.cons.inj h
        exact ⟨[], l, by rw [← hx]; rfl, hrest⟩
      · rw [List.filter_cons_of_neg (by simpa using hx)] at h
        obtain ⟨l₁, l₂, rfl, hrest⟩ := ih h
        exact ⟨x :: l₁, l₂, rfl, hrest⟩
  intro l h
  obtain ⟨l₁, l', rfl, h'⟩ := hfirst h
  obtain ⟨l₂, l₃, rfl, -⟩ := hfirst h'
  exact ⟨l₁, l₂, l₃, rfl⟩

/-- Two elements of a list are one, or one of them is behind the other. -/
theorem eq_or_split_of_mem {α : Type} {l : List α} {a b : α} (ha : a ∈ l) (hb : b ∈ l) :
    a = b ∨ (∃ l₁ l₂ l₃, l = l₁ ++ a :: (l₂ ++ b :: l₃)) ∨
      ∃ l₁ l₂ l₃, l = l₁ ++ b :: (l₂ ++ a :: l₃) := by
  obtain ⟨l₁, l₂, rfl⟩ := List.append_of_mem ha
  rcases List.mem_append.mp hb with hb | hb
  · obtain ⟨m₁, m₂, rfl⟩ := List.append_of_mem hb
    exact .inr (.inr ⟨m₁, m₂, l₂, by simp⟩)
  · rcases List.mem_cons.mp hb with rfl | hb
    · exact .inl rfl
    · obtain ⟨m₁, m₂, rfl⟩ := List.append_of_mem hb
      exact .inr (.inl ⟨l₁, m₁, m₂, rfl⟩)

/-! ### Between two calls -/

/-- The rest of a trace after one of its calls is a trace from the state that the call left. -/
theorem trace_split {c : Config Y} {as : List (Action Y)} {l₁ l₂ : List (ℕ × Obs Y.machine)}
    {x : ℕ × Obs Y.machine} (h : c.trace as = l₁ ++ x :: l₂) :
    ∃ (c' : Config Y) (as' : List (Action Y)), c'.state = x.2.post ∧ c'.trace as' = l₂ := by
  induction as generalizing c l₁ with
  | nil => simp [trace] at h
  | cons a as ih =>
    rw [trace] at h
    rcases c.called_cases a with ⟨hnone, -⟩ | ⟨i, t, o, q, hcalled, -, -, hstep⟩
    · rw [hnone] at h
      exact ih h
    · rw [hcalled] at h
      replace h : (i, o) :: (c.step a).trace as = l₁ ++ x :: l₂ := h
      cases l₁ with
      | nil =>
        obtain ⟨rfl, rfl⟩ := List.cons.inj h
        exact ⟨c.step a, as, by rw [hstep], rfl⟩
      | cons y l₁ => exact ih (List.cons.inj h).2

/-- The state in which a call of a trace is made, from that in which the trace starts. -/
theorem trace_related_initial {R : Y.machine.State → Y.machine.State → Prop}
    (hrefl : ∀ s, R s s) (htrans : ∀ s s' s'', R s s' → R s' s'' → R s s'')
    (henv : ∀ e s, R s (Y.env e s)) {C : Obs Y.machine → Prop} (hC : ∀ o, C o → R o.pre o.post)
    {c : Config Y} {as : List (Action Y)} {l₁ l₂ : List (ℕ × Obs Y.machine)}
    {x : ℕ × Obs Y.machine} (h : c.trace as = l₁ ++ x :: l₂) (hl : ∀ y ∈ l₁, C y.2) :
    R c.state x.2.pre := by
  induction as generalizing c l₁ with
  | nil => simp [trace] at h
  | cons a as ih =>
    rw [trace] at h
    obtain ⟨hnone, hstep | ⟨r, hstep⟩ | ⟨e, hstep⟩⟩ | ⟨i, t, o, q, hcalled, -, hpre, hstep⟩ :=
      c.called_cases a
    · rw [hnone] at h
      have hnext := ih h hl
      rwa [hstep] at hnext
    · rw [hnone] at h
      have hnext := ih h hl
      rwa [hstep] at hnext
    · rw [hnone] at h
      have hnext := ih h hl
      rw [hstep] at hnext
      exact htrans _ _ _ (henv e c.state) hnext
    · -- a call: the one asked for, or one of those before it
      rw [hcalled] at h
      replace h : (i, o) :: (c.step a).trace as = l₁ ++ x :: l₂ := h
      cases l₁ with
      | nil =>
        obtain ⟨rfl, -⟩ := List.cons.inj h
        rw [hpre]
        exact hrefl _
      | cons y l₁ =>
        obtain ⟨rfl, htail⟩ := List.cons.inj h
        have hnext := ih htail fun z hz => hl z (List.mem_cons_of_mem _ hz)
        rw [hstep] at hnext
        rw [← hpre]
        exact htrans _ _ _ (hC o (hl _ List.mem_cons_self)) hnext

/-- **Interference.** A preorder on states that the environment respects, and that the calls
between two calls of a trace respect, relates the state that the first left to the one that the
second found. -/
theorem trace_related {R : Y.machine.State → Y.machine.State → Prop}
    (hrefl : ∀ s, R s s) (htrans : ∀ s s' s'', R s s' → R s' s'' → R s s'')
    (henv : ∀ e s, R s (Y.env e s)) {C : Obs Y.machine → Prop} (hC : ∀ o, C o → R o.pre o.post)
    {c : Config Y} {as : List (Action Y)} {l₁ l₂ l₃ : List (ℕ × Obs Y.machine)}
    {x y : ℕ × Obs Y.machine} (h : c.trace as = l₁ ++ x :: (l₂ ++ y :: l₃))
    (hl : ∀ z ∈ l₂, C z.2) : R x.2.post y.2.pre := by
  obtain ⟨c', as', hstate, htrace⟩ := trace_split h
  rw [← hstate]
  exact trace_related_initial hrefl htrans henv hC htrace hl

/-! ### The moment of a call -/

/-- A call of a trace is made by an action of the run. -/
theorem trace_at {c : Config Y} {as : List (Action Y)} {l₁ l₂ : List (ℕ × Obs Y.machine)}
    {x : ℕ × Obs Y.machine} (h : c.trace as = l₁ ++ x :: l₂) :
    ∃ bs a cs, as = bs ++ a :: cs ∧ c.trace bs = l₁ ∧ x.2.pre = (c.run bs).state := by
  induction as generalizing c l₁ with
  | nil => simp [trace] at h
  | cons a as ih =>
    rw [trace] at h
    rcases c.called_cases a with ⟨hnone, -⟩ | ⟨i, t, o, q, hcalled, -, hpre, -⟩
    · rw [hnone] at h
      obtain ⟨bs, b, cs, rfl, hbs, hx⟩ := ih h
      refine ⟨a :: bs, b, cs, rfl, ?_, hx⟩
      rw [trace, hnone]
      exact hbs
    · rw [hcalled] at h
      replace h : (i, o) :: (c.step a).trace as = l₁ ++ x :: l₂ := h
      cases l₁ with
      | nil =>
        obtain ⟨rfl, rfl⟩ := List.cons.inj h
        exact ⟨[], a, as, rfl, rfl, hpre⟩
      | cons y l₁ =>
        obtain ⟨rfl, htail⟩ := List.cons.inj h
        obtain ⟨bs, b, cs, rfl, hbs, hx⟩ := ih htail
        refine ⟨a :: bs, b, cs, rfl, ?_, hx⟩
        rw [trace, hcalled, hbs]
        rfl

/-- A call of a task is in the trace, behind the earlier calls of the task. -/
theorem exists_trace_split (s : Y.machine.State) (as : List (Action Y)) {i : ℕ} {t : Task Y}
    (ht : ((initial s).run as).tasks[i]? = some t) {o : Obs Y.machine} (ho : o ∈ t.history) :
    ∃ l₁ l₂, (initial s).trace as = l₁ ++ (i, o) :: l₂ := by
  rw [← trace_filter s as ht] at ho
  obtain ⟨⟨j, o'⟩, hfilter, rfl⟩ := List.mem_map.mp ho
  obtain ⟨hmem, hj⟩ := List.mem_filter.mp hfilter
  obtain rfl : j = i := by simpa using hj
  exact List.append_of_mem hmem

/-- A call of a task is in the trace. -/
theorem mem_trace (s : Y.machine.State) (as : List (Action Y)) {i : ℕ} {t : Task Y}
    (ht : ((initial s).run as).tasks[i]? = some t) {o : Obs Y.machine} (ho : o ∈ t.history) :
    (i, o) ∈ (initial s).trace as := by
  obtain ⟨l₁, l₂, hsplit⟩ := exists_trace_split s as ht ho
  rw [hsplit]
  simp

/-- A call of a trace is one of its task. -/
theorem exists_task_of_mem_trace (s : Y.machine.State) (as : List (Action Y))
    {x : ℕ × Obs Y.machine} (hx : x ∈ (initial s).trace as) :
    ∃ u, ((initial s).run as).tasks[x.1]? = some u ∧ x.2 ∈ u.history := by
  induction as using List.reverseRecOn with
  | nil => cases hx
  | append_singleton as a ih =>
    rw [trace_append, List.mem_append, trace, trace, List.append_nil] at hx
    rw [run_append]
    rcases hx with hx | hx
    · obtain ⟨u, hu, ho⟩ := ih hx
      obtain ⟨u', h, hu', -, hh, -⟩ := run_extends Stable.true trivial [a] hu
      exact ⟨u', hu', by rw [hh]; exact List.mem_append_left _ ho⟩
    · rcases ((initial s).run as).called_cases a with
        ⟨hnone, -⟩ | ⟨i, t, o, q, hcalled, ht, -, hstep⟩
      · rw [hnone] at hx
        cases hx
      · rw [hcalled, Option.toList_some, List.mem_singleton] at hx
        subst hx
        rw [run_cons, run_nil, hstep]
        refine ⟨t.advance o q, List.getElem?_set_self (List.getElem?_eq_some_iff.mp ht).1, ?_⟩
        exact List.mem_append_right _ (List.mem_singleton_self o)

/-- The calls of a task that had not started at some moment are in the trace since that moment. -/
theorem mem_trace_since (s : Y.machine.State) (as bs : List (Action Y)) {j : ℕ} {u : Task Y}
    (hj : ((initial s).run as).tasks.length ≤ j)
    (hu : ((initial s).run (as ++ bs)).tasks[j]? = some u) {o : Obs Y.machine}
    (ho : o ∈ u.history) : (j, o) ∈ ((initial s).run as).trace bs := by
  have hmem := mem_trace s (as ++ bs) hu ho
  rw [trace_append] at hmem
  refine (List.mem_append.mp hmem).resolve_left fun hearly => ?_
  obtain ⟨t, ht, -⟩ := exists_task_of_mem_trace s as hearly
  exact absurd (List.getElem?_eq_some_iff.mp ht).1 (Nat.not_lt.mpr hj)

/-- **Real time**: the calls that a task has made by some moment precede those of a task that starts
after it. -/
theorem exists_trace_later (s : Y.machine.State) (as bs : List (Action Y)) {i j : ℕ}
    {t u : Task Y} (ht : ((initial s).run as).tasks[i]? = some t)
    (hj : ((initial s).run as).tasks.length ≤ j)
    (hu : ((initial s).run (as ++ bs)).tasks[j]? = some u) {o o' : Obs Y.machine}
    (ho : o ∈ t.history) (ho' : o' ∈ u.history) :
    ∃ l₁ l₂ l₃, (initial s).trace (as ++ bs) = l₁ ++ (i, o) :: (l₂ ++ (j, o') :: l₃) := by
  obtain ⟨l₁, l₂, hearly⟩ := exists_trace_split s as ht ho
  obtain ⟨m₁, m₂, hlate⟩ := List.append_of_mem (mem_trace_since s as bs hj hu ho')
  exact ⟨l₁, l₂ ++ m₁, m₂, by rw [trace_append, hearly, hlate]; simp⟩

/-- **A call of a run is made under the guarantee of its program**, by the task whose history it
extends. -/
theorem called_guarantee {G : List (Obs Y.machine) → Obs Y.machine → Prop}
    {Q : Y.Request → List (Obs Y.machine) → Y.Response → Prop}
    (hmain : ∀ q, wp G (Q q) (Y.main q) []) {s : Y.machine.State} {as : List (Action Y)}
    {a : Action Y} {i : ℕ} {o : Obs Y.machine}
    (hcalled : ((initial s).run as).called a = some (i, o)) :
    ∃ t t', ((initial s).run as).tasks[i]? = some t ∧ o.pre = ((initial s).run as).state ∧
      G t.history o ∧ ((initial s).run (as ++ [a])).tasks[i]? = some t' ∧
      t'.history = t.history ++ [o] ∧ ((initial s).run (as ++ [a])).state = o.post := by
  rcases ((initial s).run as).called_cases a with ⟨hnone, -⟩ | ⟨j, t, o', q, hsome, ht, hpre, hstep⟩
  · cases hnone.symm.trans hcalled
  · obtain ⟨rfl, rfl⟩ := Prod.ext_iff.mp (Option.some.inj (hsome.symm.trans hcalled))
    have hrun : (initial s).run (as ++ [a]) =
        ⟨o'.post, ((initial s).run as).tasks.set j (t.advance o' q)⟩ := by
      rw [run_append, run_cons, run_nil, hstep]
    have ht' : ((initial s).run (as ++ [a])).tasks[j]? = some (t.advance o' q) := by
      rw [hrun]
      exact List.getElem?_set_self (List.getElem?_eq_some_iff.mp ht).1
    refine ⟨t, _, ht, hpre, ?_, ht', rfl, by rw [hrun]⟩
    exact (run_follows s _ ht').guarantee (hmain t.request) rfl

/-- The number of calls that a task has made. -/
def made (c : Config Y) (i : ℕ) : ℕ := (c.tasks[i]?.map fun t => t.history.length).getD 0

/-- **The calls of a task since a moment** are made in states of the run since that moment. -/
theorem history_since (s : Y.machine.State) (as bs : List (Action Y)) {i : ℕ} {t : Task Y}
    (ht : ((initial s).run (as ++ bs)).tasks[i]? = some t) {o : Obs Y.machine}
    (ho : o ∈ t.history.drop (((initial s).run as).made i)) :
    ∃ bs₁ a bs₂, bs = bs₁ ++ a :: bs₂ ∧ o.pre = ((initial s).run (as ++ bs₁)).state := by
  -- the calls until then are the projection of the trace until then
  have hbefore : (((initial s).trace as).filter fun x => x.1 = i).length =
      ((initial s).run as).made i := by
    rw [made]
    cases hu : ((initial s).run as).tasks[i]? with
    | none =>
      rw [List.length_eq_zero_iff.mpr (List.filter_eq_nil_iff.mpr fun x hx hi => ?_)]
      · rfl
      · obtain ⟨u, hsome, -⟩ := exists_task_of_mem_trace s as hx
        rw [of_decide_eq_true hi, hu] at hsome
        cases hsome
    | some u =>
      rw [Option.map_some, Option.getD_some, ← trace_filter s as hu, List.length_map]
  rw [← trace_filter s (as ++ bs) ht, trace_append, List.filter_append, List.map_append,
    ← hbefore, ← List.length_map (f := Prod.snd), List.drop_left] at ho
  obtain ⟨x, hx, rfl⟩ := List.mem_map.mp ho
  obtain ⟨l₁, l₂, hsplit⟩ := List.append_of_mem (List.mem_filter.mp hx).1
  obtain ⟨bs₁, a, bs₂, he, -, hpre⟩ := trace_at hsplit
  exact ⟨bs₁, a, bs₂, he, by rw [hpre, run_append]⟩

end Config

end Interaction
