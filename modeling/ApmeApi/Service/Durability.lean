import ApmeApi.Service.CaseVersions
import ApmeApi.Service.Mutations
import ApmeApi.Service.Provenance

/-!
# What was acknowledged stays

A client that was told the success of its mutation may forget about it: its key is on record, the
event of the receipt is stored as the receipt says, and the case has not gone back behind the
version of the answer, in every state that the process reaches afterwards, whatever other requests,
failures of the storage and retention do (`acknowledged_durable`).
-/

namespace ApmeApi

open Interaction CaseService

variable {sql : SqlFunctions}

/-- **The answer to a mutation holds in a world**: its key is on record with the ids that were
answered, its event is stored as the receipt says, and its case is in the version of the answer or
a later one. -/
structure Durable (w : World) (m : SqlMutation) (row : MutationRow) (result : CaseMutationResult) :
    Prop where
  key : KeyRecorded m row w
  event : ∃ event, w.db.selectEvent m.tenantId row.eventId = some event ∧
    result.event = receipt row event
  case : w.db.Reached m.tenantId result.case.id result.case.version

/-- Errors are answered with the status of an error. -/
theorem ApiError.le_status (e : ApiError) : 400 ≤ e.intoResponse.status := by
  have hparts : e.intoResponse.status = e.parts.1 := by
    rw [intoResponse]
    split <;> simp [*]
  rw [hparts]
  cases e with
  | authentication f => cases f <;> simp [parts]
  | cases e => cases e <;> simp [parts]
  | validation message => simp [parts]

theorem CaseService.Answered.mono {context : TenantContext} {m : SqlMutation} {h h' : History sql}
    {result : CaseMutationResult} {row : MutationRow} (ha : Answered context m h result row)
    (hsub : h ⊆ h') : Answered context m h' result row := by
  obtain ⟨hmutated, ⟨caseRow, hcase, hdecode⟩, ⟨event, hevent, hreceipt⟩, hreplayed⟩ := ha
  exact ⟨hmutated.mono hsub, ⟨caseRow, hcase.mono hsub, hdecode⟩,
    ⟨event, hevent.mono hsub, hreceipt⟩, hreplayed⟩

section

variable [SharedAuth] [ApmeInterfaces] [Sha2] {state : AppState}

/-- **A success is the answer to a mutation** of the tenant that the headers name, whose parts the
request has read. -/
theorem mutation_answered {q : ApiRequest} {headers : HeaderMap} {asked : MutationRequest}
    (hasks : q.asks = some (headers, asked)) :
    wp (fun (_ : History sql) _ => True)
      (fun h r => ∀ response, r = .http response → response.status < 400 →
        ∃ context m row result, tenantId headers = .ok context.tenantId ∧
          m.tenantId = context.tenantId ∧ Answered context m h result row ∧
          response.body = .json (ApmeInterfaces.mutationResultJson result))
      (q.run state) [] := by
  obtain ⟨α, answer, f, hrun, hbody⟩ := q.run_asks state hasks
  rw [hrun, wp_bind]
  refine wp_post (mutationHandler_wp
    (Q := fun h r => ∀ a, r = .ok a → ∃ context m row result,
      tenantId headers = .ok context.tenantId ∧ m.tenantId = context.tenantId ∧
        Answered context m h result row ∧ a = answer result) state headers _ answer
    (fun _ _ _ _ => trivial) (fun _ _ _ _ ha => by cases ha) ?_) ?_
  · intro h subject context key now m _ htenant hkey hauth hchecked
    have hasked : AskedFor state headers asked h subject context key now m :=
      ⟨htenant, hkey, hauth, hchecked⟩
    have hm : m.tenantId = context.tenantId :=
      congrArg IdempotencyKey.tenantId hasked.mutation_key
    refine wp_post (commit_wp context m h (fun _ _ => trivial) (fun _ _ _ _ _ => trivial)
      (fun _ _ _ _ _ => trivial)) ?_
    rintro h' r ⟨-, hok, -⟩
    rcases r with e | result
    · exact fun _ ha => by cases ha
    · obtain ⟨row, hanswered⟩ := hok result rfl
      dsimp only
      split
      · rintro a ha
        exact ⟨context, m, row, result, htenant, hm, hanswered, (Except.ok.inj ha).symm⟩
      · refine fun i w => ⟨trivial, fun a ha => ?_⟩
        exact ⟨context, m, row, result, htenant, hm,
          hanswered.mono (List.subset_append_left _ _), (Except.ok.inj ha).symm⟩
  · rintro h r hr response hresponse hstatus
    rcases r with e | a
    · obtain rfl := ApiResponse.http.inj hresponse
      have hle := e.le_status
      omega
    · obtain rfl := ApiResponse.http.inj hresponse
      obtain ⟨context, m, row, result, htenant, hm, hanswered, rfl⟩ := hr a rfl
      exact ⟨context, m, row, result, htenant, hm, hanswered, hbody result⟩

/-! ### Every run -/

variable (hsql : SqlContract sql) (hversioned : SqlVersioned sql)
include hsql hversioned

/-- **A version that was read is reached** from then on. -/
theorem read_reached {w : World} (hw : w.db.UniqueCases)
    {as : List (Action (apiSystem sql state))} {i : ℕ} {t : Task (apiSystem sql state)}
    (ht : ((Config.initial w).run as).tasks[i]? = some t) {tenant id : Uuid} {row : CaseRow}
    (hgot : Got (t.history : History sql) (.selectCase tenant id) (.ok (some row))) :
    ((Config.initial w).run as).state.db.Reached tenant id row.version := by
  obtain ⟨i₁, w₁, hmem, hreply⟩ := hgot
  refine (Config.run_recorded (Y := apiSystem sql state) (F := fun s : World => s.db.UniqueCases)
    (R := fun o (s : World) => s.db.UniqueCases ∧
      (o = ⟨i₁, w₁, .selectCase tenant id⟩ → s.db.Reached tenant id row.version))
    ⟨fun i c s hs => exec_unique hversioned i c s hs, fun e s hs => ?_⟩
    (fun o => ⟨fun i c s hs => ?_, fun e s hs => ?_⟩) (fun o ho => ⟨?_, fun he => ?_⟩) hw as
    (List.mem_of_getElem? ht) hmem).2 rfl
  · cases e <;> exact hs
  · exact ⟨exec_unique hversioned i c s hs.1,
      fun he => exec_reached hsql hversioned i c s hs.1 (hs.2 he)⟩
  · cases e <;> exact hs
  · exact exec_unique hversioned o.input o.call o.pre ho
  · subst he
    exact ⟨row, ho.caseRow_of_selectCase (selectCase_reply_ok hreply).symm, le_rfl⟩

/-- **Durability.** In every run from a database with unique cases: a mutation request that was
answered with a success made the mutation that it asked for, for the caller that its own calls
authorized, and got a row for it; it was answered with the result of that mutation; and the answer
holds in every state that the process has reached since. -/
theorem acknowledged_durable {w : World} (hw : w.db.UniqueCases)
    (as : List (Action (apiSystem sql state))) {i : ℕ} {t : Task (apiSystem sql state)}
    (ht : ((Config.initial w).run as).tasks[i]? = some t) (hq : t.request.isMutation = true)
    {response : HttpResponse} (hresponse : t.result = some (.http response))
    (hstatus : response.status < 400) :
    ∃ m row result,
      (∃ (headers : HeaderMap) (r : MutationRequest) (h : History sql) (subject : VerifiedSubject)
        (context : TenantContext) (key : String) (now : DateTime),
        t.request.asks = some (headers, r) ∧ h ⊆ t.history ∧
          AskedFor state headers r h subject context key now m) ∧
      Got (t.history : History sql) (.mutate m) (.ok row) ∧
      response.body = .json (ApmeInterfaces.mutationResultJson result) ∧
        Durable ((Config.initial w).run as).state m row result := by
  have hf := Config.run_follows (Y := apiSystem sql state) w as ht
  rw [Task.result_eq_some.mp hresponse] at hf
  obtain ⟨headers, asked, hasks⟩ := ApiRequest.asks_of_isMutation hq
  obtain ⟨context, m, row, result, -, hm, hanswered, hbody⟩ :=
    hf.result (mutation_answered hasks) response rfl hstatus
  obtain ⟨hmutated, ⟨caseRow, hcase, hdecode⟩, ⟨event, hevent, hreceipt⟩, -⟩ := hanswered
  refine ⟨m, row, result, ?_, hmutated, hbody, key_recorded hsql ht hmutated,
    ⟨event, ?_, hreceipt⟩, ?_⟩
  · obtain ⟨i₁, w₁, hmem, -⟩ := hmutated
    exact mutation_asked ht hmem rfl
  · obtain ⟨i₁, w₁, hmem, hreply⟩ := hevent
    rw [hm]
    exact event_kept hsql ht hmem (selectEvent_reply_ok hreply).symm
  · have hreached := read_reached hsql hversioned hw ht hcase
    obtain ⟨i₁, w₁, -, hreply⟩ := hcase
    obtain ⟨-, -, hid, -⟩ := Db.selectCase_eq_some (selectCase_reply_ok hreply).symm
    rcases caseFromRow_cases caseRow with ⟨c, hok, hcid, -, hversion⟩ | ⟨message, herror⟩
    · obtain rfl := Except.ok.inj (hdecode.symm.trans hok)
      rw [hm, hcid, hid, hversion]
      exact hreached
    · cases hdecode.symm.trans herror

end

/-! ### A retried creation -/

section

open Reference

theorem lostReadRun_created : (((Config.initial (World.initial office 1)).run
    lostReadRun).tasks[1]?.map fun t =>
      (t.request.isMutation, t.result.bind ApiResponse.status)) = some (true, some 200) := by
  decide +kernel

/-- The retry of the creation that was lost is acknowledged, and its answer holds. -/
theorem acknowledged_durable_retry :
    ∃ (t : Task (apiSystem Reference.sql Reference.state)) (m : SqlMutation) (row : MutationRow)
      (result : CaseMutationResult),
      ((Config.initial (World.initial office 1)).run lostReadRun).tasks[1]? = some t ∧
        Got (t.history : History Reference.sql) (.mutate m) (.ok row) ∧
        Durable ((Config.initial (World.initial office 1)).run lostReadRun).state m row result := by
  obtain ⟨t, ht, hanswer⟩ := Option.map_eq_some_iff.mp lostReadRun_created
  obtain ⟨hq, hstatus⟩ := Prod.mk.inj hanswer
  obtain ⟨response, hresponse, hok⟩ := Option.bind_eq_some_iff.mp hstatus
  cases response with
  | connection r => cases hok
  | http response =>
    obtain ⟨m, row, result, -, hgot, -, hdurable⟩ := acknowledged_durable Reference.contract
      Reference.versioned (w := World.initial office 1) List.Pairwise.nil lostReadRun ht hq
      hresponse ((Option.some.inj hok).trans_lt (by decide))
    exact ⟨t, m, row, result, ht, hgot, hdurable⟩

end

end ApmeApi
