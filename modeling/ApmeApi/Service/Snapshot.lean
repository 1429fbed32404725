import ApmeApi.Lib.Trace
import ApmeApi.Service.CaseVersions

/-!
# The snapshot in the answer to a mutation

The answer to a mutation has the receipt of its commit and a snapshot of its case, which a later
query reads. In between other clients may mutate the case. Then the snapshot is not the state that
the mutation created: `not_answers_created` has the run, and `answers_created_iff` the exact
condition, over the trace of the run. Retention does not matter: a case that it tombstones is not
read at all.
-/

namespace ApmeApi

open Interaction CaseService

variable {sql : SqlFunctions}

/-- **The answer shows the state that the mutation created**: the snapshot is of the case and the
version of the receipt, with the status or the document that was asked for. -/
structure AnswersCreated (q : CaseRequest) (result : CaseMutationResult) : Prop where
  id : result.case.id = result.event.caseId
  version : result.case.version = result.event.caseVersion
  status : ∀ context subject caseId key command now,
    q = .transitionCase context subject caseId key command now →
      result.case.status = command.toStatus
  document : ∀ context subject caseId key command now,
    q = .rotateEncryptedObject context subject caseId key command now →
      result.case.encryptedDocument = some command.encryptedDocument

/-- **The task was overtaken**: between its commit and its query for the case, another mutation of
the case commits. -/
def Overtaken (trace : List (ℕ × Observed sql)) (i : ℕ) : Prop :=
  ∃ l₁ o l₂ o' l₃ m row, trace = l₁ ++ (i, o) :: (l₂ ++ (i, o') :: l₃) ∧ Commits o m row ∧
    o'.call = .selectCase m.tenantId row.caseId ∧
    ∃ x ∈ l₂, CommitsTo x.2 m.tenantId row.caseId

/-! ### The row that was read -/

section Rows

variable [ApmeInterfaces] [Sha2]

/-- A case read from a row that the mutation produced is in the state asked for. -/
theorem answers_of_produces {q : CaseRequest} {context : TenantContext} {m : SqlMutation}
    (hq : q.mutation = some (context, .ok m)) {row : CaseRow} (hp : m.Produces row)
    {result : CaseMutationResult} (hdecode : caseFromRow row = .ok result.case)
    (hid : row.id = result.event.caseId) (hversion : row.version = result.event.caseVersion) :
    AnswersCreated q result := by
  obtain ⟨hstatus, hdocument, hcid, -, hcversion, -⟩ := caseFromRow_eq_ok hdecode
  refine ⟨hcid.trans hid, hcversion.trans hversion, ?_, ?_⟩
  · rintro context' subject caseId key command now rfl
    obtain ⟨-, -, -, rfl⟩ := transitionMutation_eq_ok.mp (Prod.mk.inj (Option.some.inj hq)).2
    replace hp : row.status = statusName command.toStatus := hp
    rw [hp, parseStatus_statusName] at hstatus
    exact (Except.ok.inj hstatus).symm
  · rintro context' subject caseId key command now rfl
    obtain ⟨-, -, -, -, rfl⟩ := rotateMutation_eq_ok.mp (Prod.mk.inj (Option.some.inj hq)).2
    obtain ⟨href, hsha, hkey⟩ := hp
    rw [documentFromRow, href, hsha, hkey] at hdocument
    exact (Except.ok.inj hdocument).symm

end Rows

/-- A row in the same state is one that the mutation produced. -/
theorem produces_of_sameState {m : SqlMutation} {r r' : CaseRow} (hs : CaseRow.SameState r r')
    (hp : m.Produces r) : m.Produces r' := by
  cases m with
  | createCase a => trivial
  | transitionCase a => exact hs.status.trans hp
  | rotateCaseObject a =>
    obtain ⟨href, hsha, hkey⟩ := hp
    exact ⟨hs.objectReference.trans href, hs.ciphertextSha256.trans hsha, hs.keyVersion.trans hkey⟩

/-! ### Between the commit and the query -/

section Between

variable [ApmeInterfaces] [Sha2] (hsql : SqlContract sql) (hversioned : SqlVersioned sql)
include hsql hversioned

/-- Without a commit of the case in between, the query finds it as the commit left it. -/
theorem keepsCase_between {c : Config (serviceSystem sql)} {as : List (Action (serviceSystem sql))}
    {l₁ l₂ l₃ : List (ℕ × Observed sql)} {x y : ℕ × Observed sql}
    (h : c.trace as = l₁ ++ x :: (l₂ ++ y :: l₃)) (hdb : (Obs.post x.2).db.UniqueCases)
    {t id : Uuid} (hl : ∀ z ∈ l₂, ¬ CommitsTo z.2 t id) :
    y.2.pre.db.UniqueCases ∧ Db.KeepsCase (Obs.post x.2).db y.2.pre.db t id := by
  refine Config.trace_related (Y := serviceSystem sql) (R := fun s s' : World =>
    s.db.UniqueCases → s'.db.UniqueCases ∧ Db.KeepsCase s.db s'.db t id)
    (C := fun o => ¬ CommitsTo o t id) ?_ ?_ ?_ ?_ h hl hdb
  · exact fun s hs => ⟨hs, Db.KeepsCase.of_eq rfl t id⟩
  · intro s s' s'' h h' hs
    obtain ⟨hs', hk⟩ := h hs
    obtain ⟨hs'', hk'⟩ := h' hs'
    refine ⟨hs'', fun r hr => ?_⟩
    obtain ⟨r', hr', hkept⟩ := hk r hr
    obtain ⟨r'', hr'', hkept'⟩ := hk' r' hr'
    exact ⟨r'', hr'', hkept.trans hkept'⟩
  · intro e s hs
    cases e <;> exact ⟨hs, Db.KeepsCase.of_eq rfl t id⟩
  · exact fun o ho hs => ⟨exec_unique hversioned o.input o.call o.pre hs,
      post_keepsCase hsql hversioned o hs ho⟩

/-- Whatever is called in between, the case does not go back behind a version. -/
theorem reached_between {c : Config (serviceSystem sql)} {as : List (Action (serviceSystem sql))}
    {l₁ l₂ l₃ : List (ℕ × Observed sql)} {x y : ℕ × Observed sql}
    (h : c.trace as = l₁ ++ x :: (l₂ ++ y :: l₃)) (hdb : (Obs.post x.2).db.UniqueCases)
    {t id : Uuid} {version : ℤ} (hr : (Obs.post x.2).db.Reached t id version) :
    y.2.pre.db.UniqueCases ∧ y.2.pre.db.Reached t id version := by
  refine Config.trace_related (Y := serviceSystem sql) (R := fun s s' : World =>
    s.db.UniqueCases ∧ s.db.Reached t id version → s'.db.UniqueCases ∧ s'.db.Reached t id version)
    (C := fun _ => True) ?_ ?_ ?_ ?_ h (fun _ _ => trivial) ⟨hdb, hr⟩
  · exact fun s hs => hs
  · exact fun s s' s'' h h' hs => h' (h hs)
  · intro e s hs
    cases e <;> exact hs
  · exact fun o _ hs => ⟨exec_unique hversioned o.input o.call o.pre hs.1,
      exec_reached hsql hversioned o.input o.call o.pre hs.1 hs.2⟩

/-- **Overtaken, the case is past its version**: the query finds a later one. -/
theorem reached_overtaken {c : Config (serviceSystem sql)} {as : List (Action (serviceSystem sql))}
    {l₁ l₂ l₃ : List (ℕ × Observed sql)} {x y z : ℕ × Observed sql}
    (h : c.trace as = l₁ ++ x :: (l₂ ++ y :: l₃)) {m : SqlMutation} {row : MutationRow}
    (hc : Commits x.2 m row) (hdb : x.2.pre.db.UniqueCases) (hz : z ∈ l₂)
    (hcommits : CommitsTo z.2 m.tenantId row.caseId) :
    y.2.pre.db.Reached m.tenantId row.caseId (row.caseVersion + 1) := by
  have hpost := exec_unique hversioned x.2.input x.2.call x.2.pre hdb
  obtain ⟨k₁, k₂, rfl⟩ := List.append_of_mem hz
  obtain ⟨m', row', hc', htenant, hcase⟩ := hcommits
  have hfirst : c.trace as = l₁ ++ x :: (k₁ ++ z :: (k₂ ++ y :: l₃)) := by
    rw [h]
    simp
  obtain ⟨hdb', r, hrow, hle⟩ :=
    reached_between hsql hversioned hfirst hpost (hc.reached hversioned hdb)
  rw [← htenant, ← hcase] at hrow
  have hraised := (hc'.raises hversioned hdb').raised r hrow
  have hsecond : c.trace as = (l₁ ++ x :: k₁) ++ z :: (k₂ ++ y :: l₃) := by
    rw [hfirst]
    simp
  obtain ⟨-, r', hrow', hle'⟩ := reached_between hsql hversioned hsecond
    (exec_unique hversioned z.2.input z.2.call z.2.pre hdb') (hc'.reached hversioned hdb')
  rw [htenant, hcase] at hrow'
  exact ⟨r', hrow', by omega⟩

end Between

/-! ### Every run -/

section Runs

variable [ApmeInterfaces] [Sha2] (hsql : SqlContract sql) (hversioned : SqlVersioned sql)
include hsql hversioned

omit hsql hversioned in
/-- The two calls of a split, when the task made one mutation and one query of a case. -/
theorem overtaken_calls {c : Config (serviceSystem sql)} {as : List (Action (serviceSystem sql))}
    {i : ℕ} {l₁ l₂ l₃ : List (ℕ × Observed sql)} {a b o o' o'' : Observed sql}
    {m m' : SqlMutation} {t case t' case' t'' event : Uuid}
    (hsplit : c.trace as = l₁ ++ (i, a) :: (l₂ ++ (i, b) :: l₃))
    (hfilter : ((c.trace as).filter fun x => x.1 = i).map Prod.snd = [o, o', o''])
    (ha : a.call = .mutate m) (hb : b.call = .selectCase t case) (ho : o.call = .mutate m')
    (ho' : o'.call = .selectCase t' case') (ho'' : o''.call = .selectEvent t'' event) :
    a = o ∧ b = o' := by
  have hmem : ∀ x ∈ [a, b], x = o ∨ x = o' ∨ x = o'' := by
    intro x hx
    have hin : x ∈ ((c.trace as).filter fun x => x.1 = i).map Prod.snd := by
      refine List.mem_map.mpr ⟨(i, x), List.mem_filter.mpr ⟨?_, by simp⟩, rfl⟩
      rw [hsplit]
      obtain rfl | rfl : x = a ∨ x = b := by simpa using hx
      all_goals simp
    rw [hfilter] at hin
    simpa using hin
  constructor
  · obtain rfl | rfl | rfl := hmem a (by simp)
    · rfl
    · cases ha.symm.trans ho'
    · cases ha.symm.trans ho''
  · obtain rfl | rfl | rfl := hmem b (by simp)
    · cases hb.symm.trans ho
    · rfl
    · cases hb.symm.trans ho''

/-- **The snapshot, exactly.** In every run of the clients of the case service, with retention,
from a database with unique cases: a mutation that answers `replayed = false` answers the state it
created if and only if it was not overtaken. -/
theorem answers_created_iff {w : World} (hw : w.db.UniqueCases)
    (as : List (Action (serviceSystem sql))) {i : ℕ} {t : Task (serviceSystem sql)}
    (ht : ((Config.initial w).run as).tasks[i]? = some t) {result : CaseMutationResult}
    (hr : t.result = some (.mutation (.ok result))) (hfresh : result.replayed = false) :
    AnswersCreated t.request result ↔ ¬ Overtaken ((Config.initial w).trace as) i := by
  have hf := Config.run_follows (Y := serviceSystem sql) w as ht
  rw [Task.result_eq_some.mp hr] at hf
  obtain ⟨context, checked, hq, ⟨e, -, -, he⟩ | ⟨m, rfl, hrun⟩⟩ :=
    CaseRequest.ended (h := (t.history : History sql)) hf
  · cases he
  obtain ⟨o, o', o'', row, caseRow, hh, ⟨i₁, w₁, rfl, hreply⟩, hcall, ⟨t'', e'', hcall''⟩, hread,
    hdecode, hreplayed⟩ := hrun.ok
  have hc := commits_of_reply hreply (hreplayed.symm.trans hfresh)
  have ho : (⟨i₁, w₁, .mutate m⟩ : Observed sql) ∈ t.history := by rw [hh]; simp
  have htenant := mutation_tenant hq
  -- the receipt is that of the commit
  obtain ⟨event, hid, hversion, hpost⟩ := committed_post hsql hc
  have hreceipt := original_answer hsql ht ho hc hpost hr
  rw [← htenant] at hread hcall
  have hdb : w₁.db.UniqueCases := Config.run_later (Y := serviceSystem sql)
    (F := fun w : World => w.db.UniqueCases) ⟨fun i c w h => exec_unique hversioned i c w h,
      fun e w h => by cases e <;> exact h⟩ (c := Config.initial w) hw as (Nat.zero_le i) ht ho
  have hfilter := Config.trace_filter w as ht
  rw [hh] at hfilter
  constructor
  · rintro ⟨-, hsame, -, -⟩ ⟨l₁, a, l₂, b, l₃, m', row', hsplit, hca, hcb, z, hz, hcommits⟩
    obtain ⟨ia, wa, dba, rfl, -, hoka, -⟩ := id hca
    obtain ⟨ha, hb⟩ := overtaken_calls hsplit hfilter rfl hcb rfl hcall hcall''
    obtain ⟨rfl, rfl, hm⟩ := Obs.mk.inj ha
    obtain rfl := Call.mutate.inj hm
    obtain ⟨dbo, hoko, -⟩ := mutate_reply_ok hreply
    rw [hoka] at hoko
    obtain rfl := (Prod.mk.inj (Except.ok.inj hoko)).2
    subst hb
    obtain ⟨r, hrow, hle⟩ :=
      reached_overtaken hsql hversioned hsplit hca hdb hz hcommits
    have hunique := (reached_between hsql hversioned hsplit
      (exec_unique hversioned ia (.mutate m') wa hdb) (hca.reached hversioned hdb)).1
    obtain rfl := Option.some.inj (hrow.symm.trans (hunique.caseRow_of_selectCase hread))
    obtain ⟨-, -, -, -, hcversion, -⟩ := caseFromRow_eq_ok hdecode
    rw [hcversion, hreceipt] at hsame
    have hevent : r.version = row'.caseVersion := hsame.trans hversion
    omega
  · intro hnot
    obtain ⟨l₁, l₂, l₃, hsplit⟩ := Config.exists_split_of_filter hfilter
    have hquiet : ∀ z ∈ l₂, ¬ CommitsTo z.2 m.tenantId row.caseId := fun z hz hcommits =>
      hnot ⟨l₁, _, l₂, o', l₃, m, row, hsplit, hc, hcall, z, hz, hcommits⟩
    obtain ⟨hunique, hkeeps⟩ := keepsCase_between hsql hversioned hsplit
      (exec_unique hversioned i₁ (.mutate m) w₁ hdb) hquiet
    obtain ⟨r, hrow, hrversion, hproduces⟩ := (hc.raises hversioned hdb).produced
    obtain ⟨r', hrow', hkept⟩ := hkeeps r hrow
    obtain rfl := Option.some.inj (hrow'.symm.trans (hunique.caseRow_of_selectCase hread))
    obtain ⟨-, -, hrid, hlive⟩ := Db.selectCase_eq_some hread
    have hstate := (hkept.live hlive).2
    refine answers_of_produces hq (produces_of_sameState hstate hproduces) hdecode ?_ ?_
    · rw [hreceipt]
      exact hrid.trans hid.symm
    · rw [hreceipt]
      exact hstate.version.trans (hrversion.trans hversion.symm)

end Runs

/-! ### A transition between a creation and its query -/

section Overtaken

open Reference

/-- A creation commits; before its query for the case, a transition of the case commits. -/
def snapshotRun : List (Action (serviceSystem Reference.sql)) :=
  [.start (briefCreation (instant 1)), .call 0 {}, .start (briefTransition (instant 2)),
    .call 1 { draw := fun _ => ⟨1⟩ }, .call 0 {}, .call 0 {}]

/-- The creation answers the receipt of the first version with a snapshot of the second. -/
theorem snapshotRun_result :
    (((Config.initial opened).run snapshotRun).tasks[0]?).bind
      (fun t => t.result.bind CaseResponse.versions) = some (2, 1, false) := by
  decide +kernel

/-- The creation, as a task of the run. -/
theorem exists_overtaken : ∃ (t : Task (serviceSystem Reference.sql))
    (result : CaseMutationResult),
    ((Config.initial opened).run snapshotRun).tasks[0]? = some t ∧
      t.result = some (.mutation (.ok result)) ∧ result.replayed = false ∧
      result.case.version = 2 ∧ result.event.caseVersion = 1 := by
  obtain ⟨t, ht, hrest⟩ := Option.bind_eq_some_iff.mp snapshotRun_result
  obtain ⟨r, hr, hvalues⟩ := Option.bind_eq_some_iff.mp hrest
  obtain ⟨result, rfl, hcase, hevent, hfresh⟩ := CaseResponse.versions_eq_some hvalues
  exact ⟨t, result, ht, hr, hfresh, hcase, hevent⟩

/-- No rows, no two rows of one case. -/
theorem opened_unique : opened.db.UniqueCases := List.Pairwise.nil

/-- **A fresh answer that is not the state it created.** -/
theorem not_answers_created : ¬ ∀ (w : World) (as : List (Action (serviceSystem Reference.sql)))
    (i : ℕ) (t : Task (serviceSystem Reference.sql)) (result : CaseMutationResult),
    w.db.UniqueCases → ((Config.initial w).run as).tasks[i]? = some t →
      t.result = some (.mutation (.ok result)) → result.replayed = false →
        AnswersCreated t.request result := by
  intro hall
  obtain ⟨t, result, ht, hr, hfresh, hcase, hevent⟩ := exists_overtaken
  have hsame := (hall _ snapshotRun 0 t result opened_unique ht hr hfresh).version
  rw [hcase, hevent] at hsame
  cases hsame

/-- The exact condition on that run. -/
theorem answers_created_iff_overtaken : ∃ (t : Task (serviceSystem Reference.sql))
    (result : CaseMutationResult),
    ((Config.initial opened).run snapshotRun).tasks[0]? = some t ∧
      (AnswersCreated t.request result ↔
        ¬ Overtaken ((Config.initial opened).trace snapshotRun) 0) := by
  obtain ⟨t, result, ht, hr, hfresh, -⟩ := exists_overtaken
  exact ⟨t, result, ht, answers_created_iff Reference.contract Reference.versioned
    opened_unique snapshotRun ht hr hfresh⟩

end Overtaken

end ApmeApi
