import ApmeApi.Service.EventOrder
import ApmeApi.Service.Mutations
import ApmeApi.Store.Optimistic

/-!
# The history of a case

Every run over the store, seen from one case, is an execution of a versioned record: the commits of
the case, in the order in which they were made, are its writes, and every call that reads the case
shows the state that the commits before it lead to (`calls_linearized`). What holds of all
executions of the record holds of the calls of a run: versions count the commits (`call_versions`),
reads of one version agree and none goes back behind a key version (`views_agree`), and a case that
is not shown any more is gone for good (`views_retired`). Of the requests to the process that expect
one version of a case, one commits (`expected_version_won_once`).
-/

namespace ApmeApi

open Interaction CaseService Versioned

variable {sql : SqlFunctions}

/-! ### The writes of a case -/

/-- The mutation that a call committed, with its row. -/
def committed (o : Observed sql) : Option (SqlMutation × MutationRow) :=
  match o with
  | ⟨i, w, .mutate m⟩ =>
    match i.fault, sql.mutate m i.draw w.db with
    | .lost _, _ => none
    | _, .error _ => none
    | _, .ok (_, row) => if row.replayed then none else some (m, row)
  | _ => none

theorem committed_eq_some {o : Observed sql} {m : SqlMutation} {row : MutationRow} :
    committed o = some (m, row) ↔ Commits o m row := by
  constructor
  · intro h
    obtain ⟨i, w, c⟩ := o
    cases c with
    | mutate m' =>
      rw [committed] at h
      split at h
      · cases h
      · cases h
      · rename_i db row' hok hlost
        split_ifs at h with hrep
        obtain ⟨rfl, rfl⟩ := Prod.mk.inj (Option.some.inj h)
        refine ⟨i, w, db, rfl, ?_, hok, by simpa using hrep⟩
        cases hfault : i.fault with
        | none => exact .inl rfl
        | ackLost => exact .inr rfl
        | lost e => exact absurd hfault (hlost e)
    | _ => cases h
  · rintro ⟨i, w, db, rfl, hfault, hok, hfresh⟩
    rcases hfault with hf | hf <;> simp [committed, hf, hok, hfresh]

/-- The write that a call makes to a case. -/
def caseLabel (t c : Uuid) (o : Observed sql) : Option (Operation caseSpec) :=
  (committed o).bind fun x =>
    if x.1.tenantId = t ∧ x.2.caseId = c then some x.1.operation else none

theorem caseLabel_eq_some {t c : Uuid} {o : Observed sql} {l : Operation caseSpec} :
    caseLabel t c o = some l ↔ ∃ m row, Commits o m row ∧ m.tenantId = t ∧ row.caseId = c ∧
      l = m.operation := by
  rw [caseLabel, Option.bind_eq_some_iff]
  constructor
  · rintro ⟨⟨m, row⟩, hc, hl⟩
    split_ifs at hl with hcase
    exact ⟨m, row, committed_eq_some.mp hc, hcase.1, hcase.2, (Option.some.inj hl).symm⟩
  · rintro ⟨m, row, hc, ht, hcase, rfl⟩
    exact ⟨(m, row), committed_eq_some.mpr hc, if_pos ⟨ht, hcase⟩⟩

theorem caseLabel_eq_none {t c : Uuid} {o : Observed sql} (h : caseLabel t c o = none) :
    ¬ CommitsTo o t c := by
  rintro ⟨m, row, hc, ht, hcase⟩
  cases h.symm.trans (caseLabel_eq_some.mpr ⟨m, row, hc, ht, hcase, rfl⟩)

/-- The writes that calls make to a case, in the order of the calls. -/
def caseWrites (t c : Uuid) (calls : List (ℕ × Observed sql)) : List (Operation caseSpec) :=
  calls.filterMap fun x => caseLabel t c x.2

/-- Writes of one part of a history after those of another. -/
theorem caseWrites_append (t c : Uuid) (calls calls' : List (ℕ × Observed sql)) :
    caseWrites t c (calls ++ calls') = caseWrites t c calls ++ caseWrites t c calls' :=
  List.filterMap_append ..

/-- Two calls of different tasks that stand for updates of one case expect different versions, in
a trace whose updates expect increasing versions. -/
theorem expected_ne {t c : Uuid} {calls : List (ℕ × Observed sql)}
    (h : ((caseWrites t c calls).filterMap Operation.expected).Pairwise (· < ·)) {i j : ℕ}
    {o o' : Observed sql} (ho : (i, o) ∈ calls) (ho' : (j, o') ∈ calls) (hij : i ≠ j) {v v' : ℤ}
    (hv : (caseLabel t c o).bind Operation.expected = some v)
    (hv' : (caseLabel t c o').bind Operation.expected = some v') : v ≠ v' := by
  rw [caseWrites, List.filterMap_filterMap, List.pairwise_filterMap] at h
  have hne : calls.Pairwise fun x y =>
      ∀ a, (caseLabel t c x.2).bind Operation.expected = some a →
        ∀ b, (caseLabel t c y.2).bind Operation.expected = some b → a ≠ b :=
    h.imp fun hxy a ha b hb => (hxy a ha b hb).ne
  have hsymm : Std.Symm fun x y : ℕ × Observed sql =>
      ∀ a, (caseLabel t c x.2).bind Operation.expected = some a →
        ∀ b, (caseLabel t c y.2).bind Operation.expected = some b → a ≠ b :=
    ⟨fun _ _ hxy a ha b hb => (hxy b hb a ha).symm⟩
  exact List.Pairwise.forall hne ho ho' (fun heq => hij (Prod.mk.inj heq).1) v hv v' hv'

/-! ### One call -/

section Calls

variable (hsql : SqlContract sql) (hversioned : SqlVersioned sql) (hopt : SqlOptimistic sql)
include hopt

/-- **A commit is a write** of the record of its case. -/
theorem Commits.step {o : Observed sql} {m : SqlMutation} {row : MutationRow}
    (hc : Commits o m row) (hdb : o.pre.db.UniqueCases) :
    Step caseSpec (o.pre.db.caseState m.tenantId row.caseId) m.operation
      ((Obs.post o).db.caseState m.tenantId row.caseId) := by
  obtain ⟨i, w, rfl, hok, hfresh⟩ := hc.exec
  exact hopt.step hok hfresh hdb

include hsql hversioned

/-- A call that does not commit to a case leaves it as it is or retires it. -/
theorem post_internal {o : Observed sql} (hdb : o.pre.db.UniqueCases) {t c : Uuid}
    (ho : ¬ CommitsTo o t c) :
    Internal (o.pre.db.caseState t c) ((Obs.post o).db.caseState t c) := by
  refine (post_keepsCase hsql hversioned o hdb ho).internal ?_
  obtain ⟨i, w, cl⟩ := o
  refine exec_db (P := fun db => w.db.caseRow t c = none → db.caseRow t c = none) (fun h => h) ?_ ?_
    ?_
  · rintro m db row rfl hfault hok
    cases hrep : row.replayed with
    | true =>
      -- a replay changes nothing
      rcases hsql.mutate_cases hok with ⟨-, hfresh, -⟩ | ⟨rec, -, -, rfl, -⟩
      · cases hrep.symm.trans hfresh
      · exact fun h => h
    | false =>
      refine hopt.appears hok hrep hdb t c fun hcase => ho ?_
      exact ⟨m, row, ⟨i, w, db, rfl, hfault, hok, hrep⟩, hcase.1.symm, hcase.2.symm⟩
  · exact fun a db _ h => hopt.auditAppears h t c
  · exact fun now actor db n _ h => hopt.retentionAppears h t c

end Calls

/-! ### What a call shows -/

/-- **What a call shows of a case**: the answer to a query for it, or what a list holds under its
id. A call that looks at no case, or that fails, shows nothing. -/
def view (t c : Uuid) (o : Observed sql) : Option (Option (ℤ × CaseContent)) :=
  match o with
  | ⟨i, w, .selectCase t' c'⟩ =>
    if t' = t ∧ c' = c then
      match Obs.reply (M := apiMachine sql) ⟨i, w, .selectCase t' c'⟩ with
      | .ok found => some (found.map fun r => (r.version, r.content))
      | .error _ => none
    else none
  | ⟨i, w, .selectCases t'⟩ =>
    if t' = t then
      match Obs.reply (M := apiMachine sql) ⟨i, w, .selectCases t'⟩ with
      | .ok rows => some ((rows.find? fun r => r.id = c).map fun r => (r.version, r.content))
      | .error _ => none
    else none
  | _ => none

/-- A call that shows a case does not write to it. -/
theorem caseLabel_of_view {t c : Uuid} {o : Observed sql} {shown : Option (ℤ × CaseContent)}
    (h : view t c o = some shown) : caseLabel t c o = none := by
  obtain ⟨i, w, cl⟩ := o
  cases cl with
  | mutate => cases h
  | _ => rfl

/-- **A read shows the state of the case** that it finds. -/
theorem view_pre {t c : Uuid} {o : Observed sql} (hdb : o.pre.db.UniqueCases)
    {shown : Option (ℤ × CaseContent)} (h : view t c o = some shown) :
    (o.pre.db.caseState t c).visible = shown := by
  obtain ⟨i, w, cl⟩ := o
  cases cl with
  | selectCase t' c' =>
    rw [view] at h
    split_ifs at h with hcase
    obtain ⟨rfl, rfl⟩ := hcase
    split at h
    · rename_i found hr
      rw [← Option.some.inj h, selectCase_reply_ok hr]
      exact (hdb.selectCase_visible t' c').symm
    · cases h
  | selectCases t' =>
    rw [view] at h
    split_ifs at h with htenant
    subst htenant
    split at h
    · rename_i rows hr
      obtain rfl : rows = w.db.selectCases t' := (Fault.answer_ok hr).2
      rw [← Option.some.inj h]
      exact hdb.selectCases_find t' c
    · cases h
  | _ => cases h

/-- A call tells a version of a case: in the receipt of a commit, or as it shows the case. -/
def Told (t c : Uuid) (o : Observed sql) (v : ℤ) : Prop :=
  (∃ m row, Commits o m row ∧ m.tenantId = t ∧ row.caseId = c ∧ row.caseVersion = v) ∨
    ∃ k, view t c o = some (some (v, k))

/-- **A commit is a write** to the record of its case, and its receipt has the version that the
write produced. -/
theorem Commits.receipt (hversioned : SqlVersioned sql) (hopt : SqlOptimistic sql)
    {o : Observed sql} {m : SqlMutation} {row : MutationRow} (hc : Commits o m row)
    (hdb : o.pre.db.UniqueCases) :
    ∃ k, Step caseSpec (o.pre.db.caseState m.tenantId row.caseId) m.operation
      (.live row.caseVersion k) := by
  have hstep := hc.step hopt hdb
  obtain ⟨r', hr', hversion, -⟩ := (hc.raises hversioned hdb).produced
  rw [Db.caseState_some hr'] at hstep
  -- the write leaves a live record, so the row is live
  by_cases hlive : r'.tombstonedAt = none
  · rw [CaseRow.state_live hlive, hversion] at hstep
    exact ⟨_, hstep⟩
  · exact absurd (CaseRow.state_retired hlive) hstep.ne_retired

/-! ### Every run -/

section Runs

variable {Q A : Type} {main : Q → Prog apiSig A}
variable (hsql : SqlContract sql) (hversioned : SqlVersioned sql) (hopt : SqlOptimistic sql)
include hsql hversioned hopt

/-- **The process refines the record** of each case. -/
theorem case_refines (main : Q → Prog apiSig A) (t c : Uuid) :
    Refines (clients sql main) (machine caseSpec) (fun w : World => w.db.UniqueCases)
      (fun w : World => w.db.caseState t c) (caseLabel t c) where
  stable :=
    { exec := fun i cl w h => exec_unique hversioned i cl w h
      env := fun e w h => by cases e <;> exact h }
  internal o hdb hlabel := post_internal hsql hversioned hopt hdb (caseLabel_eq_none hlabel)
  step o l hdb hlabel := by
    obtain ⟨m, row, hc, rfl, rfl, rfl⟩ := caseLabel_eq_some.mp hlabel
    exact hc.step hopt hdb
  env e w _ := by
    cases e <;> exact .refl _

/-- **The calls in order.** In every run of whatever clients from a database with unique cases, for
every case: the commits of the case in the order in which they were made are an execution of a
versioned record, from the state of the case before the run to that after it; and every call is made
in a state of that execution, after the commits before it: a read shows that state, and a commit is
a write to it with the produced version in its receipt. -/
theorem calls_linearized {w : World} (hw : w.db.UniqueCases)
    (as : List (Action (clients sql main))) (t c : Uuid) :
    Execution (machine caseSpec) (w.db.caseState t c)
        (caseWrites t c ((Config.initial w).trace as))
        (((Config.initial w).run as).state.db.caseState t c) ∧
      ∀ l₁ i o l₂, (Config.initial w).trace as = l₁ ++ (i, o) :: l₂ →
        ∃ s, Execution (machine caseSpec) (w.db.caseState t c) (caseWrites t c l₁) s ∧
          (∀ shown, view t c o = some shown → s.visible = shown) ∧
          ∀ m row, Commits o m row → m.tenantId = t → row.caseId = c →
            ∃ k, Step caseSpec s m.operation (.live row.caseVersion k) := by
  have hrefines := case_refines hsql hversioned hopt main t c
  refine ⟨hrefines.run (c := Config.initial w) hw as, fun l₁ i o l₂ hsplit => ?_⟩
  obtain ⟨hdb, hexec⟩ := hrefines.before (c := Config.initial w) hw hsplit
  refine ⟨_, hexec, fun shown => view_pre hdb, fun m row hc ht hcase => ?_⟩
  subst ht hcase
  exact hc.receipt hversioned hopt hdb

/-- **Every version that a call tells of a case counts its commits.** In every run of whatever
clients from a database with unique cases: the version in a receipt, in a case or in a list is the
version that the case had before the run plus the number of its commits up to this call. -/
theorem call_versions {w : World} (hw : w.db.UniqueCases)
    {as : List (Action (clients sql main))} {l₁ l₂ : List (ℕ × Observed sql)}
    {x : ℕ × Observed sql} (hsplit : (Config.initial w).trace as = l₁ ++ x :: l₂) {t c : Uuid}
    {v : ℤ} (hx : Told t c x.2 v) :
    v = (w.db.caseState t c).version + (caseWrites t c (l₁ ++ [x])).length := by
  obtain ⟨hdb, hexec⟩ := (case_refines hsql hversioned hopt main t c).before
    (c := Config.initial w) hw hsplit
  rw [caseWrites_append]
  rcases hx with ⟨m, row, hc, rfl, rfl, rfl⟩ | ⟨k, hx⟩
  · -- the commit itself is the last write
    obtain ⟨k, hstep⟩ := hc.receipt hversioned hopt hdb
    have hlabel := caseLabel_eq_some.mpr ⟨m, row, hc, rfl, rfl, rfl⟩
    have hlast : caseWrites m.tenantId row.caseId [x] = [m.operation] :=
      List.filterMap_cons_some hlabel
    rw [hlast]
    have hlive := hexec.step hstep
    exact Execution.version_eq hlive
  · have hlast : caseWrites t c [x] = [] := List.filterMap_cons_none (caseLabel_of_view hx)
    have hstate := Record.visible_eq_some (view_pre hdb hx)
    rw [hstate] at hexec
    rw [hlast, List.append_nil]
    exact Execution.version_eq hexec

/-- **Views of one version agree, and keys do not go back.** In every run of whatever clients from
a database with unique cases: two calls that show one case show the same status and the same
document when they show the same version, and the later one shows neither an older version nor an
older key version, whatever was committed in between. -/
theorem views_agree {w : World} (hw : w.db.UniqueCases)
    {as : List (Action (clients sql main))} {l₁ l₂ l₃ : List (ℕ × Observed sql)}
    {x y : ℕ × Observed sql} (hsplit : (Config.initial w).trace as = l₁ ++ x :: (l₂ ++ y :: l₃))
    {t c : Uuid} {v v' : ℤ} {k k' : CaseContent} (hx : view t c x.2 = some (some (v, k)))
    (hy : view t c y.2 = some (some (v', k'))) :
    v ≤ v' ∧ (v = v' → k = k') ∧
      ∀ n, k.keyVersion = some n → ∃ n', k'.keyVersion = some n' ∧ n ≤ n' := by
  have hrefines := case_refines hsql hversioned hopt main t c
  have hdb := (hrefines.before (c := Config.initial w) hw hsplit).1
  have hdb' := (hrefines.before (c := Config.initial w) hw
    ((hsplit.trans (List.append_assoc l₁ (x :: l₂) _).symm))).1
  have hexec := hrefines.onwards (c := Config.initial w) hw hsplit
  rw [Record.visible_eq_some (view_pre hdb hx), Record.visible_eq_some (view_pre hdb' hy)] at hexec
  obtain ⟨hle, hsame⟩ := (Execution.advances hexec).visible rfl rfl
  refine ⟨hle, hsame, Execution.content_related (R := CaseContent.KeyNotBehind) ?_ ?_ ?_ hexec⟩
  · exact fun k n hn => ⟨n, hn, le_rfl⟩
  · intro k₁ k₂ k₃ h h' n hn
    obtain ⟨n₂, hn₂, hle₂⟩ := h n hn
    obtain ⟨n₃, hn₃, hle₃⟩ := h' n₂ hn₂
    exact ⟨n₃, hn₃, hle₂.trans hle₃⟩
  · exact fun u k k' h => h.key

/-- **Views are consistent in whatever order.** Of two calls of one run that show one case, with one
version both show the same status and the same document, and the one with the later version shows
no older key version. -/
theorem views_consistent {w : World} (hw : w.db.UniqueCases)
    {as : List (Action (clients sql main))} {x y : ℕ × Observed sql}
    (hx : x ∈ (Config.initial w).trace as) (hy : y ∈ (Config.initial w).trace as) {t c : Uuid}
    {v v' : ℤ} {k k' : CaseContent} (hview : view t c x.2 = some (some (v, k)))
    (hview' : view t c y.2 = some (some (v', k'))) :
    (v = v' → k = k') ∧
      (v ≤ v' → ∀ n, k.keyVersion = some n → ∃ n', k'.keyVersion = some n' ∧ n ≤ n') := by
  rcases Config.eq_or_split_of_mem hx hy with rfl | ⟨l₁, l₂, l₃, hsplit⟩ | ⟨l₁, l₂, l₃, hsplit⟩
  · obtain ⟨rfl, rfl⟩ := Prod.mk.inj (Option.some.inj (Option.some.inj (hview.symm.trans hview')))
    exact ⟨fun _ => rfl, fun _ n hn => ⟨n, hn, le_rfl⟩⟩
  · exact (views_agree hsql hversioned hopt hw hsplit hview hview').2.imp_right fun h _ => h
  · -- the call behind has no older version, so that a later one is the same
    obtain ⟨hle, hsame, -⟩ := views_agree hsql hversioned hopt hw hsplit hview' hview
    refine ⟨fun hv => (hsame hv.symm).symm, fun hle' n hn => ⟨n, ?_, le_rfl⟩⟩
    rwa [hsame (le_antisymm hle hle')]

/-- **A case that no call shows any more is gone for good.** In every run of whatever clients from a
database with unique cases: once a call has shown a case and a later one has not, no call after
that shows the case, and none commits to it. -/
theorem views_retired {w : World} (hw : w.db.UniqueCases)
    {as : List (Action (clients sql main))} {l₁ l₂ l₃ : List (ℕ × Observed sql)}
    {x y : ℕ × Observed sql} (hsplit : (Config.initial w).trace as = l₁ ++ x :: (l₂ ++ y :: l₃))
    {t c : Uuid} {v : ℤ} {k : CaseContent} (hx : view t c x.2 = some (some (v, k)))
    (hy : view t c y.2 = some none) :
    ∀ z ∈ l₃, (∀ shown, view t c z.2 = some shown → shown = none) ∧ ¬ CommitsTo z.2 t c := by
  have hrefines := case_refines hsql hversioned hopt main t c
  have hsplit' := hsplit.trans (List.append_assoc l₁ (x :: l₂) _).symm
  have hdb := (hrefines.before (c := Config.initial w) hw hsplit).1
  have hdb' := (hrefines.before (c := Config.initial w) hw hsplit').1
  have hgone := Execution.advances (hrefines.onwards (c := Config.initial w) hw hsplit)
  intro z hz
  obtain ⟨l, l', rfl⟩ := List.append_of_mem hz
  have hdb'' := (hrefines.before (c := Config.initial w) hw
    (hsplit'.trans (List.append_assoc _ (y :: l) _).symm)).1
  have hafter := Execution.advances (hrefines.onwards (c := Config.initial w) hw hsplit')
  have hretired := hgone.not_visible hafter (by rw [view_pre hdb hx]; rfl) (view_pre hdb' hy)
  refine ⟨fun shown hshown => ?_, ?_⟩
  · rw [← view_pre hdb'' hshown, hretired]
    rfl
  · -- there is no write to a retired record
    rintro ⟨m, row, hc, rfl, rfl⟩
    obtain ⟨k, hstep⟩ := hc.receipt hversioned hopt hdb''
    rw [hretired] at hstep
    cases hstep

end Runs

/-! ### Expected versions -/

/-- The case of a tenant that a request means to change, and the version that it expects. -/
def ApiRequest.expects : ApiRequest → Option (Uuid × Uuid × ℤ)
  | .transitionCase id headers command =>
    (tenantId headers).toOption.map fun t => (t, id, command.expectedVersion)
  | .rotateEncryptedObject id headers command =>
    (tenantId headers).toOption.map fun t => (t, id, command.expectedVersion)
  | _ => none

section Process

variable [SharedAuth] [ApmeInterfaces] [Sha2] {state : AppState}
variable (hsql : SqlContract sql) (hversioned : SqlVersioned sql) (hopt : SqlOptimistic sql)
include hopt

/-- A commit of a request that expects a version is an update of its case in that version. -/
theorem commit_expects {w : World} {as : List (Action (apiSystem sql state))} {i : ℕ}
    {t : Task (apiSystem sql state)} (ht : ((Config.initial w).run as).tasks[i]? = some t)
    {tenant c : Uuid} {v : ℤ} (hq : t.request.expects = some (tenant, c, v)) {o : Observed sql}
    {m : SqlMutation} {row : MutationRow} (ho : o ∈ t.history) (hc : Commits o m row)
    (hdb : o.pre.db.UniqueCases) :
    (caseLabel tenant c o).bind Operation.expected = some v := by
  obtain ⟨i', w', rfl, hok, hfresh⟩ := hc.exec
  obtain ⟨headers, r, _, subject, context, key, now, hasks, -, hasked⟩ := mutation_asked ht ho rfl
  have hlabel : ∀ {id : Uuid}, row.caseId = id →
      caseLabel m.tenantId id (⟨i', w', .mutate m⟩ : Observed sql) = some m.operation :=
    fun hcase => caseLabel_eq_some.mpr ⟨m, row, hc, rfl, hcase, rfl⟩
  cases hrequest : t.request with
  | transitionCase id headers' command =>
    rw [hrequest] at hasks hq
    obtain ⟨rfl, rfl⟩ := Prod.mk.inj (Option.some.inj hasks)
    rw [ApiRequest.expects, hasked.tenant] at hq
    obtain ⟨rfl, rfl, rfl⟩ := Prod.mk.inj (Option.some.inj hq)
    obtain ⟨-, -, -, rfl⟩ := transitionMutation_eq_ok.mp hasked.checked
    exact congrArg (·.bind Operation.expected) (hlabel (hopt.transitions hok hfresh hdb).1)
  | rotateEncryptedObject id headers' command =>
    rw [hrequest] at hasks hq
    obtain ⟨rfl, rfl⟩ := Prod.mk.inj (Option.some.inj hasks)
    rw [ApiRequest.expects, hasked.tenant] at hq
    obtain ⟨rfl, rfl, rfl⟩ := Prod.mk.inj (Option.some.inj hq)
    obtain ⟨-, -, -, -, rfl⟩ := rotateMutation_eq_ok.mp hasked.checked
    exact congrArg (·.bind Operation.expected) (hlabel (hopt.rotations hok hfresh hdb).1)
  | _ =>
    rw [hrequest] at hq
    cases hq

include hsql hversioned

/-- **An expected version is won once.** In every run from a database with unique cases: of all
requests to transition or rotate one case of one tenant that expect the same version of it, by
whichever users and under whichever keys, at most one commits. -/
theorem expected_version_won_once {w : World} (hw : w.db.UniqueCases)
    (as : List (Action (apiSystem sql state))) {i j : ℕ} {t u : Task (apiSystem sql state)}
    (ht : ((Config.initial w).run as).tasks[i]? = some t)
    (hu : ((Config.initial w).run as).tasks[j]? = some u) {tenant c : Uuid} {v : ℤ}
    (hq : t.request.expects = some (tenant, c, v)) (hq' : u.request.expects = some (tenant, c, v))
    {o o' : Observed sql} {m m' : SqlMutation} {row row' : MutationRow} (ho : o ∈ t.history)
    (ho' : o' ∈ u.history) (hc : Commits o m row) (hc' : Commits o' m' row') : i = j := by
  by_contra hij
  have hexec := (case_refines hsql hversioned hopt (ApiRequest.run state) tenant c).run
    (c := Config.initial w) hw as
  have hv := commit_expects hopt ht hq ho hc (unique_pre hversioned hw ht ho)
  have hv' := commit_expects hopt hu hq' ho' hc' (unique_pre hversioned hw hu ho')
  exact expected_ne (Execution.expected_increasing hexec) (Config.mem_trace w as ht ho)
    (Config.mem_trace w as hu ho') hij hv hv' rfl

end Process

/-! ### Two transitions of one version -/

section Raced

open Reference

/-- A case is created, and two transitions expect its first version. -/
def racedRun : List (Action (apiSystem Reference.sql Reference.state)) :=
  .start (.createCase (headers "create") briefCommand) ::
    List.replicate 9 (.call 0 (drawing 0)) ++
    [.start (.transitionCase Uuid.nil (headers "first") ⟨1, .collectingDocuments⟩),
      .start (.transitionCase Uuid.nil (headers "second") ⟨1, .review⟩)] ++
    List.replicate 9 (.call 1 (drawing 1)) ++ List.replicate 6 (.call 2 (drawing 2))

/-- Both expect the first version, and the first of them commits. -/
theorem racedRun_commit :
    ((((Config.initial (World.initial office 1)).run racedRun).tasks[1]?).map fun t =>
        (t.request.expects, ((t.history : History Reference.sql).findSome? committed).map
          fun x => x.2.caseVersion),
      (((Config.initial (World.initial office 1)).run racedRun).tasks[2]?).map fun t =>
        t.request.expects) =
      (some (some (Uuid.nil, Uuid.nil, 1), some 2), some (some (Uuid.nil, Uuid.nil, 1))) := by
  decide +kernel

/-- The second of the two does not commit. -/
theorem expected_version_won_once_raced :
    ∃ u, ((Config.initial (World.initial office 1)).run racedRun).tasks[2]? = some u ∧
      ∀ o ∈ u.history, ∀ m row, ¬ Commits o m row := by
  obtain ⟨hwon, hlost⟩ := Prod.mk.inj racedRun_commit
  obtain ⟨t, ht, htask⟩ := Option.map_eq_some_iff.mp hwon
  obtain ⟨u, hu, hq'⟩ := Option.map_eq_some_iff.mp hlost
  obtain ⟨hq, hcommit⟩ := Prod.mk.inj htask
  obtain ⟨⟨m, row⟩, hfound, -⟩ := Option.map_eq_some_iff.mp hcommit
  obtain ⟨o, ho, hc⟩ := List.exists_of_findSome?_eq_some hfound
  refine ⟨u, hu, fun o' ho' m' row' hc' => ?_⟩
  have hsame := expected_version_won_once Reference.contract Reference.versioned
    Reference.optimistic office_unique racedRun ht hu hq hq' ho ho' (committed_eq_some.mp hc) hc'
  exact absurd hsame (by decide)

end Raced

end ApmeApi
