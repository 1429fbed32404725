import ApmeApi.Service.Publication

/-!
# Where a published event comes from

The parts of a published event come from three calls: its key from the SQL call of the mutation,
the tenant and the case of its envelope from the query for the case, its receipt from the query
for the event. They fit together (`Announces`): in every run, every published event comes from a
commit of the task that publishes it, carries its ids and its version, and both the envelope and
the receipt name the tenant of the mutation and its case (`published_provenance`).
-/

namespace ApmeApi

open Interaction CaseService

variable {sql : SqlFunctions}

/-- **The event announces the mutation**: envelope and receipt name its tenant and its case, the
receipt has its event id and its version. -/
structure Announces (m : SqlMutation) (row : MutationRow) (e : TenantEvent) : Prop where
  tenantId : e.tenantId = m.tenantId
  caseId : e.caseId = row.caseId
  receiptTenantId : e.event.tenantId = m.tenantId
  receiptCaseId : e.event.caseId = row.caseId
  eventId : e.event.eventId = row.eventId
  caseVersion : e.event.caseVersion = row.caseVersion

/-- The event is made of the answer to a first use of a key. -/
def Composed (h : History sql) (e : TenantEvent) : Prop :=
  ∃ context m result row, m.tenantId = context.tenantId ∧
    Answered context m h result row ∧ row.replayed = false ∧
    e = ⟨result.case.tenantId, result.case.id, result.event⟩

/-! ### The requests -/

section

variable [SharedAuth]

/-- **A mutation handler** publishes what the answer to its mutation is made of. -/
theorem mutationHandler_composed {α : Type} (state : AppState) (headers : HeaderMap)
    {checked : TenantContext → VerifiedSubject → String → DateTime →
      Except CaseServiceError SqlMutation} (answer : CaseMutationResult → α)
    (hchecked : ∀ context subject key now m, checked context subject key now = .ok m →
      m.tenantId = context.tenantId) :
    wp (fun (h : History sql) o => ∀ e, o.call = .publish e → Composed h e) (fun _ _ => True)
      (Http.mutationHandler state headers checked answer).run [] := by
  refine mutationHandler_wp state headers checked answer (fun h o _ ho e he => ?_)
    (fun _ _ _ => trivial) ?_
  · rw [he] at ho
    cases ho
  intro h subject context key now m _ _ _ _ hm
  have htenant := hchecked context subject key now m hm
  refine wp_post (commit_wp context m h (fun _ _ _ he => by cases he)
    (fun _ _ _ _ _ _ he => by cases he) (fun _ _ _ _ _ _ he => by cases he)) ?_
  rintro h' r ⟨-, hok, -⟩
  rcases r with e | result
  · trivial
  · obtain ⟨row, hanswered⟩ := hok result rfl
    dsimp only
    cases hrep : result.replayed with
    | true => exact trivial
    | false =>
      refine fun i w => ⟨fun e he => ?_, trivial⟩
      obtain rfl := Call.publish.inj he
      exact ⟨context, m, result, row, htenant, hanswered, by rw [← hanswered.replayed, hrep], rfl⟩

variable [ApmeInterfaces] [Sha2]

/-- **Every request** publishes what the answer to its mutation is made of. -/
theorem run_composed (state : AppState) (q : ApiRequest) :
    wp (fun (h : History sql) o => ∀ e, o.call = .publish e → Composed h e) (fun _ _ => True)
      (q.run state) [] := by
  by_cases hq : q.isMutation = true
  · obtain ⟨α, headers, checked, answer, f, hrun, -, -, hchecked⟩ :=
      ApiRequest.run_mutation state hq
    rw [hrun, wp_bind]
    refine wp_post (mutationHandler_composed state headers answer
      fun context subject key now m hm => ?_) fun _ _ _ => trivial
    exact (hchecked context subject key now m hm).2.2.1
  · refine wp_mono (run_quiet state (Bool.eq_false_iff.mpr hq)) (fun t o ho e he => ?_)
      fun _ _ _ => trivial
    rw [he] at ho
    cases ho

end

/-! ### Every run -/

section Runs

variable {Q A : Type} {main : Q → Prog apiSig A} (hsql : SqlContract sql)
include hsql

/-- An event that was stored when a call was made is stored from then on. -/
theorem event_kept {w : World} {as : List (Action (clients sql main))} {i : ℕ}
    {t : Task (clients sql main)} (ht : ((Config.initial w).run as).tasks[i]? = some t)
    {o : Observed sql} (ho : o ∈ t.history) {tenant id : Uuid} {event : EventRow}
    (he : (Obs.post o).db.selectEvent tenant id = some event) :
    ((Config.initial w).run as).state.db.selectEvent tenant id = some event := by
  refine Config.run_recorded (Y := clients sql main) (R := fun o s =>
    ∀ event, (Obs.post o).db.selectEvent tenant id = some event →
      s.db.selectEvent tenant id = some event) Config.Stable.true (fun o => ⟨?_, ?_⟩)
    (fun _ _ _ h => h) trivial as (List.mem_of_getElem? ht) ho event he
  · exact fun input c s h event he => (exec_keeps hsql input c s).event (h event he)
  · exact fun e s h event he => (env_keeps e s).event (h event he)

/-- **The answer to a first use of a key announces the commit** of its task. -/
theorem CaseService.Answered.commit {w : World} {as : List (Action (clients sql main))} {i : ℕ}
    {t : Task (clients sql main)} (ht : ((Config.initial w).run as).tasks[i]? = some t)
    {h : History sql} (hh : h ⊆ t.history) {context : TenantContext} {m : SqlMutation}
    {result : CaseMutationResult} {row : MutationRow} (hanswered : Answered context m h result row)
    (htenant : m.tenantId = context.tenantId) (hfresh : row.replayed = false) :
    ∃ o ∈ t.history, Commits o m row ∧ FollowedUp (t.history : History sql) m row ∧
      Announces m row ⟨result.case.tenantId, result.case.id, result.event⟩ := by
  have hfollowed := (isEventOf_answered hanswered htenant).1
  obtain ⟨⟨i₁, w₁, hmem, hreply⟩, ⟨caseRow, ⟨i₂, w₂, -, hcase⟩, hdecode⟩,
    ⟨event, ⟨i₃, w₃, hmem₃, hevent⟩, hreceipt⟩, -⟩ := hanswered
  have hc := commits_of_reply hreply hfresh
  refine ⟨_, hh hmem, hc, hfollowed.mono hh, ?_⟩
  -- the row that was read for the event is the one that the commit stored
  obtain ⟨stored, hid, hversion, hpost⟩ := committed_post hsql hc
  have hread : (Obs.post (M := apiMachine sql)
      ⟨i₃, w₃, .selectEvent context.tenantId row.eventId⟩).db.selectEvent context.tenantId
        row.eventId = some event := (selectEvent_reply_ok hevent).symm
  have hstored := event_kept hsql ht (hh hmem) hpost.event
  rw [htenant] at hstored
  obtain rfl := Option.some.inj (hstored.symm.trans (event_kept hsql ht (hh hmem₃) hread))
  obtain ⟨hreceipted, -⟩ := Db.selectEvent_eq_some hstored
  obtain ⟨-, hrowTenant, hrowId, -⟩ := Db.selectCase_eq_some (selectCase_reply_ok hcase).symm
  rcases caseFromRow_cases caseRow with ⟨c, hok, hcid, hctenant, -⟩ | ⟨message, herror⟩
  · obtain rfl := Except.ok.inj (hdecode.symm.trans hok)
    rw [hreceipt]
    exact ⟨hctenant.trans (hrowTenant.trans htenant.symm), hcid.trans hrowId,
      hreceipted.trans htenant.symm, hid, rfl, hversion⟩
  · cases hdecode.symm.trans herror

/-- **A composed event announces a commit** of its task. -/
theorem Composed.commit {w : World} {as : List (Action (clients sql main))} {i : ℕ}
    {t : Task (clients sql main)} (ht : ((Config.initial w).run as).tasks[i]? = some t)
    {h : History sql} (hh : h ⊆ t.history) {e : TenantEvent} (he : Composed h e) :
    ∃ o ∈ t.history, ∃ m row, Commits o m row ∧ FollowedUp (t.history : History sql) m row ∧
      Announces m row e := by
  obtain ⟨context, m, result, row, htenant, hanswered, hfresh, rfl⟩ := he
  obtain ⟨o, ho, hcommit⟩ := hanswered.commit hsql ht hh htenant hfresh
  exact ⟨o, ho, m, row, hcommit⟩

variable [SharedAuth] [ApmeInterfaces] [Sha2] {state : AppState}

/-- **A task publishes what it committed.** -/
theorem published_announces {w : World} {as : List (Action (apiSystem sql state))} {i : ℕ}
    {t : Task (apiSystem sql state)} (ht : ((Config.initial w).run as).tasks[i]? = some t)
    {e : TenantEvent} (he : e ∈ published (t.history : History sql)) :
    ∃ o ∈ t.history, ∃ m row, Commits o m row ∧ FollowedUp (t.history : History sql) m row ∧
      Announces m row e := by
  obtain ⟨o, ho, hpublished⟩ := List.mem_flatMap.mp he
  obtain ⟨h₁, h₂, hh⟩ := List.append_of_mem ho
  have hcall : o.call = .publish e := by
    cases hc : o.call with
    | publish e' =>
      rw [hc] at hpublished
      rw [List.mem_singleton.mp hpublished]
    | _ =>
      rw [hc] at hpublished
      cases hpublished
  have hcomposed := (Config.run_follows (Y := apiSystem sql state) w as ht).guarantee
    (run_composed state t.request) hh e hcall
  refine hcomposed.commit hsql ht ?_
  rw [hh]
  exact List.subset_append_left _ _

/-- **Provenance.** In every run, every published event announces a commit of some task, which has
read the case and the event of that commit. -/
theorem published_provenance {db : Db} {clock : DateTime}
    (as : List (Action (apiSystem sql state))) {e : TenantEvent}
    (he : e ∈ ((Config.initial (World.initial db clock)).run as).state.published) :
    ∃ (i : ℕ) (t : Task (apiSystem sql state)),
      ((Config.initial (World.initial db clock)).run as).tasks[i]? = some t ∧
        ∃ o ∈ t.history, ∃ m row, Commits o m row ∧ FollowedUp (t.history : History sql) m row ∧
          Announces m row e := by
  obtain ⟨t, ht, he'⟩ := List.mem_flatMap.mp ((published_perm db clock as).mem_iff.mp he)
  obtain ⟨i, hi⟩ := List.mem_iff_getElem?.mp ht
  exact ⟨i, t, hi, published_announces hsql hi he'⟩

end Runs

end ApmeApi
