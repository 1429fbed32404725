import ApmeApi.Lib.Traversal
import ApmeApi.Service.CaseHistory
import ApmeApi.Service.Durability

/-!
# What the answers tell of a case

A client knows a case from the answers to its requests: the case of a get, or that there is none,
the cases of a list, and the case in the answer to a mutation (`Tells`), with the receipt of the
mutation beside it (`Receives`). Every answer is made of what one call of its request read
(`answer_view`), and the receipt of a first use is that of a call that committed
(`receipt_commit`). Calls are totally ordered, so what is known of them (`CaseHistory`) is
known of the answers of the process, whatever other programs use its store (`storeSystem`):

* the answers are those of a versioned record on which the commits take effect one after the other
  (`case_linearized`);
* every version that is answered counts the commits of the case (`versions_count`);
* answers with one version agree, and no answer to a later request goes back behind a version or a
  key version that was answered before (`reads_agree`);
* once a case was answered and later was not, it is never answered nor changed again
  (`retired_for_good`).
-/

namespace ApmeApi

open Interaction CaseService Traversal Versioned

variable {sql : SqlFunctions}

/-! ### Answers -/

/-- Status and document of a case in an answer. -/
def PersistedCase.content (c : PersistedCase) : CaseContent where
  status := statusName c.status
  objectReference := c.encryptedDocument.map EncryptedObjectReference.objectReference
  ciphertextSha256 := c.encryptedDocument.map EncryptedObjectReference.ciphertextSha256
  keyVersion := c.encryptedDocument.map EncryptedObjectReference.keyVersion

/-- What a case in an answer shows. -/
def PersistedCase.shown (c : PersistedCase) : ℤ × CaseContent := (c.version, c.content)

/-- **A decoded case shows its row.** -/
theorem caseFromRow_shown {row : CaseRow} {c : PersistedCase} (h : caseFromRow row = .ok c) :
    c.id = row.id ∧ c.shown = (row.version, row.content) := by
  obtain ⟨hstatus, hdocument, hid, -, hversion, -⟩ := caseFromRow_eq_ok h
  refine ⟨hid, Prod.ext hversion ?_⟩
  have hcolumns : row.encryptedObjectReference =
        c.encryptedDocument.map EncryptedObjectReference.objectReference ∧
      row.ciphertextSha256 = c.encryptedDocument.map EncryptedObjectReference.ciphertextSha256 ∧
        row.objectKeyVersion = c.encryptedDocument.map EncryptedObjectReference.keyVersion := by
    unfold documentFromRow at hdocument
    split at hdocument
    · rename_i h₁ h₂ h₃
      rw [← Except.ok.inj hdocument, h₁, h₂, h₃]
      exact ⟨rfl, rfl, rfl⟩
    · rename_i h₁ h₂ h₃
      rw [← Except.ok.inj hdocument, h₁, h₂, h₃]
      exact ⟨rfl, rfl, rfl⟩
    · cases hdocument
  obtain ⟨hobject, hdigest, hkey⟩ := hcolumns
  simp only [PersistedCase.shown, PersistedCase.content, CaseRow.content,
    statusName_of_parseStatus hstatus, hobject, hdigest, hkey]

/-- What a list of decoded rows shows of a case. -/
theorem find?_shown {rows : List CaseRow} {cases : List PersistedCase}
    (h : rows.mapM caseFromRow = .ok cases) (c : Uuid) :
    (rows.find? fun r => r.id = c).map (fun r => (r.version, r.content)) =
      (cases.find? fun x => x.id = c).map PersistedCase.shown := by
  induction mapM_eq_ok_iff.mp h with
  | nil => rfl
  | @cons row case rows cases hrow hrest ih =>
    obtain ⟨hid, hshown⟩ := caseFromRow_shown hrow
    rw [List.find?_cons, List.find?_cons, hid]
    cases decide (row.id = c) with
    | true => exact congrArg some hshown.symm
    | false => exact ih (mapM_eq_ok_iff.mpr hrest)

section

variable [ApmeInterfaces]

/-- **The receipt that a mutation of a tenant was answered with**, and the case beside it. -/
inductive Receives (tenant : Uuid) : ApiRequest → HttpResponse → CaseMutationResult → Prop
  | mk {q : ApiRequest} {headers : HeaderMap} {asked : MutationRequest} {status : ℕ}
      (result : CaseMutationResult) (hasks : q.asks = some (headers, asked))
      (ht : tenantId headers = .ok tenant) (hs : status < 400) :
      Receives tenant q ⟨status, .json (ApmeInterfaces.mutationResultJson result)⟩ result

/-- **What an answer tells of a case of a tenant**: its version and content, or that there is no
such case. -/
inductive Tells (tenant c : Uuid) :
    ApiRequest → HttpResponse → Option (ℤ × CaseContent) → Prop
  | found {headers : HeaderMap} (case : PersistedCase) (ht : tenantId headers = .ok tenant) :
      Tells tenant c (.getCase c headers)
        (jsonResponse 200 (ApmeInterfaces.persistedCaseJson case)) (some case.shown)
  | notFound {headers : HeaderMap} (ht : tenantId headers = .ok tenant) :
      Tells tenant c (.getCase c headers) (ApiError.cases .notFound).intoResponse none
  | listed {headers : HeaderMap} (cases : List PersistedCase)
      (ht : tenantId headers = .ok tenant) :
      Tells tenant c (.listCases headers)
        (jsonResponse 200 (.arr (cases.map ApmeInterfaces.persistedCaseJson)))
        ((cases.find? fun x => x.id = c).map PersistedCase.shown)
  | mutated {q : ApiRequest} {response : HttpResponse} {result : CaseMutationResult}
      (hr : Receives tenant q response result) (hid : result.case.id = c) :
      Tells tenant c q response (some result.case.shown)

end

/-! ### The calls behind an answer -/

section Calls

variable [SharedAuth]

/-- **A get** answers what its query showed. -/
theorem getCase_view (state : AppState) (id : Uuid) (headers : HeaderMap) :
    wp (fun (_ : History sql) _ => True)
      (fun h r => (∀ case, r = .ok case → ∃ t, tenantId headers = .ok t ∧
          ∃ o ∈ h, view t id o = some (some case.shown)) ∧
        (r = .error (.cases .notFound) → ∃ t, tenantId headers = .ok t ∧
          ∃ o ∈ h, view t id o = some none))
      (Http.getCase state id headers).run [] := by
  rw [Http.getCase, authorizedTenant, wp_run_bind]
  have hauth := wp_and (authorizedTenant_preliminary (G := fun (_ : History sql) _ => True) state
    headers [casesReadScope] fun _ _ _ _ => trivial)
    (authorizedTenant_errors state headers [casesReadScope] [])
  refine wp_mono hauth (fun _ _ _ => trivial) ?_
  rintro h r ⟨⟨-, hr⟩, herrors⟩
  rcases r with e | ⟨subject, context⟩
  · -- no error of the authorization is that of an absent case
    refine ⟨fun _ hc => (by cases hc), fun he => ?_⟩
    obtain rfl := Except.error.inj he
    rcases herrors _ rfl with hnot | ⟨s, hs⟩
    · cases hnot
    · cases hs
  · obtain ⟨htenant, -⟩ := hr subject context rfl
    simp only [ofCases, wp_run_bind, wp_run_adapt, CaseService.getCase_run_eq, wp_bind,
      wp_request]
    refine fun i w => ⟨trivial, ?_⟩
    have hview : ∀ found, Obs.reply (M := apiMachine sql)
        ⟨i, w, .selectCase context.tenantId id⟩ = .ok found →
          view context.tenantId id (⟨i, w, .selectCase context.tenantId id⟩ : Observed sql) =
            some (found.map fun r => (r.version, r.content)) := by
      intro found hreply
      simp only [view, and_self, if_true, hreply]
    cases hreply : Obs.reply (M := apiMachine sql) ⟨i, w, .selectCase context.tenantId id⟩ with
    | error e => exact ⟨fun _ hc => (by cases hc), fun he => by cases he⟩
    | ok found =>
      cases found with
      | none =>
        refine ⟨fun _ hc => (by cases hc), fun _ => ⟨_, htenant, _, ?_, hview _ hreply⟩⟩
        simp
      | some row =>
        rw [caseOfReply]
        cases hdecode : caseFromRow row with
        | error e =>
          refine ⟨fun _ hc => (by cases hc), fun he => ?_⟩
          -- a row that does not decode is refused as invalid
          rcases caseFromRow_cases row with ⟨c, hok, -⟩ | ⟨message, herror⟩
          · cases hdecode.symm.trans hok
          · obtain rfl := Except.error.inj (hdecode.symm.trans herror)
            cases he
        | ok case =>
          simp only [wp_pure, Except.mapError, recordAccess, wp_run_bind, wp_run_lift, wp_request,
            wp_run_ofExcept]
          -- the record of the access fails as storage does
          refine fun i' w' => ⟨trivial, fun i'' w'' => ⟨trivial, ?_⟩⟩
          generalize Obs.reply (M := apiMachine sql) ⟨i'', w'', .appendAudit _⟩ = done
          rcases done with e | u
          · exact ⟨fun _ hc => (by cases hc), fun he => (by cases he)⟩
          · refine ⟨fun c hc => ?_, fun he => by cases he⟩
            obtain rfl := Except.ok.inj hc
            refine ⟨_, htenant, ⟨i, w, .selectCase context.tenantId id⟩, by simp, ?_⟩
            rw [hview _ hreply, (caseFromRow_shown hdecode).2]
            rfl

/-- **A list** answers what its query showed, of all cases. -/
theorem listCases_view (state : AppState) (headers : HeaderMap) :
    wp (fun (_ : History sql) _ => True)
      (fun h r => ∀ cases, r = .ok cases → ∃ t, tenantId headers = .ok t ∧ ∃ o ∈ h, ∀ c,
        view t c o = some ((cases.find? fun x => x.id = c).map PersistedCase.shown))
      (Http.listCases state headers).run [] := by
  rw [Http.listCases, authorizedTenant, wp_run_bind]
  refine wp_post (authorizedTenant_preliminary (G := fun (_ : History sql) _ => True) state headers
    [casesReadScope] fun _ _ _ _ => trivial) ?_
  rintro h r ⟨-, hr⟩
  rcases r with e | ⟨subject, context⟩
  · exact fun _ hc => by cases hc
  · obtain ⟨htenant, -⟩ := hr subject context rfl
    simp only [ofCases, wp_run_adapt, CaseService.listCases_run_eq, wp_bind, wp_request, wp_pure]
    refine fun i w => ⟨trivial, ?_⟩
    cases hreply : Obs.reply (M := apiMachine sql) ⟨i, w, .selectCases context.tenantId⟩ with
    | error e => exact fun _ hc => by cases hc
    | ok rows =>
      intro cases hcases
      have hdecode : rows.mapM caseFromRow = .ok cases := by
        cases hmap : rows.mapM caseFromRow with
        | error e =>
          rw [CaseService.listOfReply, hmap] at hcases
          cases hcases
        | ok cases' =>
          rw [CaseService.listOfReply, hmap] at hcases
          rw [Except.ok.inj hcases]
      refine ⟨_, htenant, ⟨i, w, .selectCases context.tenantId⟩, by simp, fun c => ?_⟩
      simp only [view, if_true, hreply]
      rw [find?_shown hdecode c]

omit [SharedAuth] in
/-- **The answer to a mutation** has its case as the query for it showed it. -/
theorem answered_view {context : TenantContext} {m : SqlMutation} {h : History sql}
    {result : CaseMutationResult} {row : MutationRow} (ha : Answered context m h result row) :
    ∃ o ∈ h, view context.tenantId result.case.id o = some (some result.case.shown) := by
  obtain ⟨-, ⟨caseRow, ⟨i, w, hmem, hreply⟩, hdecode⟩, -, -⟩ := ha
  obtain ⟨hid, hshown⟩ := caseFromRow_shown hdecode
  obtain ⟨-, -, hrow, -⟩ := Db.selectCase_eq_some (selectCase_reply_ok hreply).symm
  refine ⟨_, hmem, ?_⟩
  rw [hid.trans hrow, hshown]
  simp only [view, and_self, if_true, hreply]
  rfl

end Calls

/-! ### The call behind an answer -/

/-- The result of a handler, from the response to it. -/
theorem respond_eq_http {α : Type} {f : α → HttpResponse} {r : Except ApiError α}
    {response : HttpResponse} (h : respond f r = .http response) :
    (∃ a, r = .ok a ∧ response = f a) ∨ ∃ e, r = .error e ∧ response = e.intoResponse := by
  rcases r with e | a
  · exact .inr ⟨e, rfl, (ApiResponse.http.inj h).symm⟩
  · exact .inl ⟨a, rfl, (ApiResponse.http.inj h).symm⟩

/-- No other error is answered as an absent case is. -/
theorem ApiError.eq_notFound {e : ApiError} (hstatus : e.intoResponse.status = 404) :
    e = .cases .notFound := by
  cases e with
  | authentication f => cases f <;> exact absurd hstatus (by decide)
  | cases e =>
    cases e with
    | notFound => rfl
    | _ => exact absurd hstatus (by simp [intoResponse, parts])
  | validation message => exact absurd hstatus (by simp [intoResponse, parts])

section Answers

variable [ApmeInterfaces]

/-- A receipt is the answer to a request for a mutation. -/
theorem Receives.asked {tenant : Uuid} {q : ApiRequest} {response : HttpResponse}
    {result : CaseMutationResult} (h : Receives tenant q response result) :
    q.asks ≠ none ∧ response.body = .json (ApmeInterfaces.mutationResultJson result) := by
  cases h with
  | mk result hasks ht hs =>
    rw [hasks]
    exact ⟨Option.some_ne_none _, rfl⟩

/-- **An error tells of a case** only that it is absent, in the answer to a get for it. -/
theorem Tells.of_error {tenant c : Uuid} {q : ApiRequest} {e : ApiError}
    {shown : Option (ℤ × CaseContent)} (h : Tells tenant c q e.intoResponse shown) :
    e = .cases .notFound ∧ shown = none ∧
      ∃ headers, q = .getCase c headers ∧ tenantId headers = .ok tenant := by
  have hle := e.le_status
  generalize hresponse : e.intoResponse = response at h
  rw [hresponse] at hle
  cases h with
  | found case ht => exact absurd hle (Nat.not_le.mpr (by simp [jsonResponse]))
  | notFound ht =>
    exact ⟨ApiError.eq_notFound (congrArg HttpResponse.status hresponse), rfl, _, rfl, ht⟩
  | listed cases ht => exact absurd hle (Nat.not_le.mpr (by simp [jsonResponse]))
  | mutated hr hid =>
    cases hr with
    | mk result hasks ht hs => exact absurd hle (Nat.not_le.mpr hs)

variable [SharedAuth] [Sha2] {state : AppState}
variable (hcase : Function.Injective ApmeInterfaces.persistedCaseJson)
  (hmutation : Function.Injective ApmeInterfaces.mutationResultJson)

include hcase in
/-- What the answer to a get tells, one of its calls showed. -/
theorem getCase_answer {id : Uuid} {headers : HeaderMap} {h : History sql}
    {response : HttpResponse}
    (hf : Follows ((ApiRequest.getCase id headers).run state) h (.pure (.http response)))
    {tenant c : Uuid} {shown : Option (ℤ × CaseContent)}
    (htells : Tells tenant c (.getCase id headers) response shown) :
    ∃ o ∈ h, ∀ c' shown', Tells tenant c' (.getCase id headers) response shown' →
      view tenant c' o = some shown' := by
  obtain ⟨h₁, h₂, r, rfl, hrun, hpure⟩ := Follows.of_bind hf
  obtain ⟨rfl, hr⟩ := Follows.of_pure hpure
  rw [List.append_nil]
  obtain ⟨hfound, habsent⟩ := hrun.result (getCase_view state id headers)
  rcases respond_eq_http hr.symm with ⟨case, rfl, rfl⟩ | ⟨e, rfl, rfl⟩
  · obtain ⟨t, ht, o, ho, hview⟩ := hfound case rfl
    refine ⟨o, ho, fun c' shown' htells' => ?_⟩
    generalize hresponse : jsonResponse 200 (ApmeInterfaces.persistedCaseJson case) = response
      at htells'
    cases htells' with
    | found case' ht' =>
      obtain rfl := Except.ok.inj (ht.symm.trans ht')
      obtain rfl := hcase (HttpBody.json.inj (HttpResponse.mk.inj hresponse).2)
      exact hview
    | notFound ht' => cases congrArg HttpResponse.status hresponse
    | mutated hr' => exact absurd rfl hr'.asked.1
  · obtain ⟨rfl, -⟩ := htells.of_error
    obtain ⟨t, ht, o, ho, hview⟩ := habsent rfl
    refine ⟨o, ho, fun c' shown' htells' => ?_⟩
    obtain ⟨-, rfl, headers', hq, ht'⟩ := htells'.of_error
    obtain ⟨rfl, rfl⟩ := ApiRequest.getCase.inj hq
    obtain rfl := Except.ok.inj (ht.symm.trans ht')
    exact hview

include hcase in
/-- What the answer to a list tells, one of its calls showed. -/
theorem listCases_answer {headers : HeaderMap} {h : History sql} {response : HttpResponse}
    (hf : Follows ((ApiRequest.listCases headers).run state) h (.pure (.http response)))
    {tenant c : Uuid} {shown : Option (ℤ × CaseContent)}
    (htells : Tells tenant c (.listCases headers) response shown) :
    ∃ o ∈ h, ∀ c' shown', Tells tenant c' (.listCases headers) response shown' →
      view tenant c' o = some shown' := by
  obtain ⟨h₁, h₂, r, rfl, hrun, hpure⟩ := Follows.of_bind hf
  obtain ⟨rfl, hr⟩ := Follows.of_pure hpure
  rw [List.append_nil]
  rcases respond_eq_http hr.symm with ⟨cases, rfl, rfl⟩ | ⟨e, rfl, rfl⟩
  · obtain ⟨t, ht, o, ho, hview⟩ := hrun.result (listCases_view state headers) cases rfl
    refine ⟨o, ho, fun c' shown' htells' => ?_⟩
    generalize hresponse :
      jsonResponse 200 (.arr (cases.map ApmeInterfaces.persistedCaseJson)) = response at htells'
    cases htells' with
    | listed cases' ht' =>
      obtain rfl := Except.ok.inj (ht.symm.trans ht')
      obtain rfl := hcase.list_map
        (Json.arr.inj (HttpBody.json.inj (HttpResponse.mk.inj hresponse).2))
      exact hview c'
    | mutated hr' => exact absurd rfl hr'.asked.1
  · obtain ⟨-, -, headers', hq, -⟩ := htells.of_error
    cases hq

include hmutation in
/-- **The receipt that a client has** is that of a mutation of its tenant, whose parts the request
has read. -/
theorem Receives.answered {tenant : Uuid} {q : ApiRequest} {h : History sql}
    {response : HttpResponse} {result : CaseMutationResult}
    (hr : Receives tenant q response result)
    (hf : Follows (q.run state) h (.pure (.http response))) :
    ∃ context m row, context.tenantId = tenant ∧ m.tenantId = tenant ∧
      Answered context m h result row := by
  cases hr with
  | mk result hasks ht hs =>
    obtain ⟨context, m, row, result', htenant, hm, hanswered, hbody⟩ :=
      hf.result (mutation_answered hasks) _ rfl hs
    obtain rfl := Except.ok.inj (htenant.symm.trans ht)
    obtain rfl := hmutation (HttpBody.json.inj hbody)
    exact ⟨context, m, row, rfl, hm, hanswered⟩

include hcase hmutation in
/-- **What an answer tells** of cases, one call of its request showed. -/
theorem answer_view {q : ApiRequest} {h : History sql} {response : HttpResponse}
    (hf : Follows (q.run state) h (.pure (.http response))) {tenant c : Uuid}
    {shown : Option (ℤ × CaseContent)} (htells : Tells tenant c q response shown) :
    ∃ o ∈ h, ∀ c' shown', Tells tenant c' q response shown' → view tenant c' o = some shown' := by
  cases htells with
  | found case ht => exact getCase_answer hcase hf (.found case ht)
  | notFound ht => exact getCase_answer hcase hf (.notFound ht)
  | listed cases ht => exact listCases_answer (c := c) hcase hf (.listed cases ht)
  | @mutated _ _ result hr hid =>
    obtain ⟨context, m, row, rfl, -, hanswered⟩ := hr.answered hmutation hf
    obtain ⟨o, ho, hview⟩ := answered_view hanswered
    refine ⟨o, ho, fun c' shown' htells' => ?_⟩
    cases htells' with
    | found => exact absurd rfl hr.asked.1
    | notFound => exact absurd rfl hr.asked.1
    | listed => exact absurd rfl hr.asked.1
    | @mutated _ _ result' hr' hid' =>
      obtain rfl := hmutation (HttpBody.json.inj (hr'.asked.2.symm.trans hr.asked.2))
      rw [← hid']
      exact hview

/-- A get that is answered 200 or 404 tells of its case. -/
theorem getCase_tells {id : Uuid} {headers : HeaderMap} {h : History sql} {response : HttpResponse}
    (hf : Follows ((ApiRequest.getCase id headers).run state) h (.pure (.http response)))
    {tenant : Uuid} (ht : tenantId headers = .ok tenant)
    (hs : response.status = 200 ∨ response.status = 404) :
    ∃ shown, Tells tenant id (.getCase id headers) response shown := by
  obtain ⟨h₁, h₂, r, rfl, -, hpure⟩ := Follows.of_bind hf
  rcases respond_eq_http (Follows.of_pure hpure).2.symm with ⟨case, rfl, rfl⟩ | ⟨e, rfl, rfl⟩
  · exact ⟨_, .found case ht⟩
  · rcases hs with hs | hs
    · exact absurd e.le_status (by omega)
    · rw [ApiError.eq_notFound hs]
      exact ⟨_, .notFound ht⟩

/-- An answer has a version of a case: in the case, in a list, or in the receipt of a first use. -/
def TellsVersion (tenant c : Uuid) (q : ApiRequest) (response : HttpResponse) (v : ℤ) : Prop :=
  (∃ k, Tells tenant c q response (some (v, k))) ∨
    ∃ result, Receives tenant q response result ∧ result.replayed = false ∧
      result.event.caseId = c ∧ result.event.caseVersion = v

end Answers

/-! ### Every run -/

section Runs

variable [SharedAuth] [ApmeInterfaces] [Sha2]

/-- The program of a request to the process, or of a call of the case service by another program
over the same store, such as a job that applies retention. -/
def storeMain (state : AppState) :
    ApiRequest ⊕ CaseRequest → Prog apiSig (ApiResponse ⊕ CaseResponse)
  | .inl q => q.run state >>= fun r => pure (.inl r)
  | .inr q => q.run >>= fun r => pure (.inr r)

/-- The process and the other programs over its store. -/
abbrev storeSystem (sql : SqlFunctions) (state : AppState) : System := clients sql (storeMain state)

variable {state : AppState}

/-- The task is a request to the process, and was answered. -/
structure AnsweredWith (t : Task (storeSystem sql state)) (q : ApiRequest)
    (response : HttpResponse) : Prop where
  request : t.request = .inl q
  result : t.result = some (.inl (.http response))

/-- The calls of an answered request are an execution of its program. -/
theorem AnsweredWith.follows {w : World} {as : List (Action (storeSystem sql state))} {i : ℕ}
    {t : Task (storeSystem sql state)} (ht : ((Config.initial w).run as).tasks[i]? = some t)
    {q : ApiRequest} {response : HttpResponse} (ha : AnsweredWith t q response) :
    Follows (M := apiMachine sql) (q.run state) t.history (.pure (.http response)) := by
  have hf := Config.run_follows (Y := storeSystem sql state) w as ht
  rw [Task.result_eq_some.mp ha.result, ha.request] at hf
  obtain ⟨h₁, h₂, r, hh, hrun, hpure⟩ := Follows.of_bind hf
  obtain ⟨rfl, hr⟩ := Follows.of_pure hpure
  rw [List.append_nil] at hh
  rw [hh, Sum.inl.inj hr]
  exact hrun

variable (hcase : Function.Injective ApmeInterfaces.persistedCaseJson)
  (hmutation : Function.Injective ApmeInterfaces.mutationResultJson)
variable (hsql : SqlContract sql) (hversioned : SqlVersioned sql) (hopt : SqlOptimistic sql)

include hmutation hsql in
/-- **The receipt of a first use** is that of a call of its request that committed. -/
theorem receipt_commit {w : World} {as : List (Action (storeSystem sql state))} {i : ℕ}
    {t : Task (storeSystem sql state)} (ht : ((Config.initial w).run as).tasks[i]? = some t)
    {q : ApiRequest} {response : HttpResponse} (ha : AnsweredWith t q response) {tenant : Uuid}
    {result : CaseMutationResult} (hr : Receives tenant q response result)
    (hfresh : result.replayed = false) :
    ∃ o ∈ t.history, ∃ m row, Commits o m row ∧ m.tenantId = tenant ∧
      row.caseId = result.event.caseId ∧ row.caseVersion = result.event.caseVersion := by
  obtain ⟨context, m, row, rfl, hm, hanswered⟩ := hr.answered hmutation (ha.follows ht)
  obtain ⟨o, ho, hcommit, -, hannounces⟩ := hanswered.commit hsql ht (fun _ ho => ho) hm
    (hanswered.replayed.symm.trans hfresh)
  exact ⟨o, ho, m, row, hcommit, hm, hannounces.receiptCaseId.symm, hannounces.caseVersion.symm⟩

include hcase hmutation hsql hversioned hopt

/-- **Linearizability of the answers.** In every run of the process and of other programs over its
store, from a database with unique cases, for every tenant: the commits of a case, in their order,
are an execution of a versioned record, from the state of the case before the run to that after it.
Whatever the process answers, one call of the request was made in the states of these executions
that the answer tells, for all the cases that it tells of; and one was the write whose version the
receipt of a first use has. -/
theorem case_linearized {w : World} (hw : w.db.UniqueCases)
    (as : List (Action (storeSystem sql state))) (tenant : Uuid) :
    (∀ c, Execution (machine caseSpec) (w.db.caseState tenant c)
      (caseWrites tenant c ((Config.initial w).trace as))
      (((Config.initial w).run as).state.db.caseState tenant c)) ∧
    ∀ i t q response, ((Config.initial w).run as).tasks[i]? = some t →
      AnsweredWith t q response →
      (∀ c shown, Tells tenant c q response shown →
        ∃ l₁ o l₂, (Config.initial w).trace as = l₁ ++ (i, o) :: l₂ ∧
          ∀ c' shown', Tells tenant c' q response shown' →
            ∃ s, Execution (machine caseSpec) (w.db.caseState tenant c')
              (caseWrites tenant c' l₁) s ∧ s.visible = shown') ∧
      ∀ result, Receives tenant q response result → result.replayed = false →
        ∃ l₁ o l₂, (Config.initial w).trace as = l₁ ++ (i, o) :: l₂ ∧
          ∃ s write k, Execution (machine caseSpec) (w.db.caseState tenant result.event.caseId)
              (caseWrites tenant result.event.caseId l₁) s ∧
            caseLabel tenant result.event.caseId o = some write ∧
            Step caseSpec s write (.live result.event.caseVersion k) := by
  have hcalls := @calls_linearized sql _ _ (storeMain state) hsql hversioned hopt w hw as tenant
  refine ⟨fun c => (hcalls c).1, fun i t q response ht ha => ⟨fun c shown htells => ?_,
    fun result hr hfresh => ?_⟩⟩
  · obtain ⟨o, ho, hview⟩ := answer_view hcase hmutation (ha.follows ht) htells
    obtain ⟨l₁, l₂, hsplit⟩ := Config.exists_trace_split w as ht ho
    refine ⟨l₁, o, l₂, hsplit, fun c' shown' htells' => ?_⟩
    obtain ⟨s, hexec, hvisible, -⟩ := (hcalls c').2 l₁ i o l₂ hsplit
    exact ⟨s, hexec, hvisible shown' (hview c' shown' htells')⟩
  · obtain ⟨o, ho, m, row, hc, hm, hid, hversion⟩ := receipt_commit hmutation hsql ht ha hr hfresh
    obtain ⟨l₁, l₂, hsplit⟩ := Config.exists_trace_split w as ht ho
    obtain ⟨s, hexec, -, hwrite⟩ := (hcalls result.event.caseId).2 l₁ i o l₂ hsplit
    obtain ⟨k, hstep⟩ := hwrite m row hc hm hid
    rw [hversion] at hstep
    exact ⟨l₁, o, l₂, hsplit, s, m.operation, k, hexec,
      caseLabel_eq_some.mpr ⟨m, row, hc, hm, hid, rfl⟩, hstep⟩

/-- **Every version that is answered counts the commits.** In every run of the process and of other
programs over its store, from a database with unique cases: a version that an answer has of a case,
in the case itself, in a list or in the receipt of a first use, is the version that the case had
before the run plus the number of its commits up to some call of the request. -/
theorem versions_count {w : World} (hw : w.db.UniqueCases)
    {as : List (Action (storeSystem sql state))} {i : ℕ} {t : Task (storeSystem sql state)}
    (ht : ((Config.initial w).run as).tasks[i]? = some t) {q : ApiRequest}
    {response : HttpResponse} (ha : AnsweredWith t q response) {tenant c : Uuid} {v : ℤ}
    (hv : TellsVersion tenant c q response v) :
    ∃ l₁ o l₂, (Config.initial w).trace as = l₁ ++ (i, o) :: l₂ ∧
      v = (w.db.caseState tenant c).version + (caseWrites tenant c (l₁ ++ [(i, o)])).length := by
  obtain ⟨o, ho, htold⟩ : ∃ o ∈ t.history, Told tenant c o v := by
    rcases hv with ⟨k, htells⟩ | ⟨result, hr, hfresh, hid, hversion⟩
    · obtain ⟨o, ho, hview⟩ := answer_view hcase hmutation (ha.follows ht) htells
      exact ⟨o, ho, .inr ⟨k, hview c _ htells⟩⟩
    · obtain ⟨o, ho, m, row, hc, hm, hid', hversion'⟩ :=
        receipt_commit hmutation hsql ht ha hr hfresh
      exact ⟨o, ho, .inl ⟨m, row, hc, hm, hid'.trans hid, hversion'.trans hversion⟩⟩
  obtain ⟨l₁, l₂, hsplit⟩ := Config.exists_trace_split w as ht ho
  exact ⟨l₁, o, l₂, hsplit, call_versions hsql hversioned hopt hw hsplit htold⟩

/-- **Answers with one version agree, and keys do not go back.** In every run of the process and of
other programs over its store, from a database with unique cases: two answers that show one case, in
whatever order, show the same status and the same document when they show the same version, and
the one with the later version shows no older key version. When the second request started after
the first was answered, it shows no older version. -/
theorem reads_agree {w : World} (hw : w.db.UniqueCases)
    {as bs : List (Action (storeSystem sql state))} {i j : ℕ} {t u : Task (storeSystem sql state)}
    (ht : ((Config.initial w).run as).tasks[i]? = some t)
    (hu : ((Config.initial w).run (as ++ bs)).tasks[j]? = some u) {q q' : ApiRequest}
    {response response' : HttpResponse} (ha : AnsweredWith t q response)
    (ha' : AnsweredWith u q' response') {tenant c : Uuid} {v v' : ℤ} {k k' : CaseContent}
    (htells : Tells tenant c q response (some (v, k)))
    (htells' : Tells tenant c q' response' (some (v', k'))) :
    (v = v' → k = k') ∧
      (v ≤ v' → ∀ n, k.keyVersion = some n → ∃ n', k'.keyVersion = some n' ∧ n ≤ n') ∧
      (((Config.initial w).run as).tasks.length ≤ j → v ≤ v') := by
  obtain ⟨o, ho, hview⟩ := answer_view hcase hmutation (ha.follows ht) htells
  obtain ⟨o', ho', hview'⟩ := answer_view hcase hmutation (ha'.follows hu) htells'
  replace hview := hview c _ htells
  replace hview' := hview' c _ htells'
  obtain ⟨t', h, ht', -, hh, -⟩ := Config.run_extends Config.Stable.true trivial bs ht
  rw [← Config.run_append] at ht'
  have ho₁ : o ∈ t'.history := by
    rw [hh]
    exact List.mem_append_left _ ho
  obtain ⟨hsame, hkeys⟩ := views_consistent hsql hversioned hopt hw
    (Config.mem_trace w (as ++ bs) ht' ho₁) (Config.mem_trace w (as ++ bs) hu ho') hview hview'
  refine ⟨hsame, hkeys, fun hj => ?_⟩
  obtain ⟨l₁, l₂, l₃, hsplit⟩ := Config.exists_trace_later w as bs ht hj hu ho ho'
  exact (views_agree hsql hversioned hopt hw hsplit hview hview').1

/-- **A case that is not answered any more is gone for good.** In every run of the process and of
other programs over its store, from a database with unique cases: when an answer has shown a case,
and that to a later request has said that there is none, then no answer to a request that starts
after it shows the case, and no such request changes it. -/
theorem retired_for_good {w : World} (hw : w.db.UniqueCases)
    {as bs cs : List (Action (storeSystem sql state))} {i j k : ℕ}
    {t u z : Task (storeSystem sql state)} (ht : ((Config.initial w).run as).tasks[i]? = some t)
    (hu : ((Config.initial w).run (as ++ bs)).tasks[j]? = some u)
    (hz : ((Config.initial w).run (as ++ bs ++ cs)).tasks[k]? = some z)
    (hj : ((Config.initial w).run as).tasks.length ≤ j)
    (hk : ((Config.initial w).run (as ++ bs)).tasks.length ≤ k) {q q' : ApiRequest}
    {response response' : HttpResponse} (ha : AnsweredWith t q response)
    (ha' : AnsweredWith u q' response') {tenant c : Uuid} {x : ℤ × CaseContent}
    (htells : Tells tenant c q response (some x)) (hnone : Tells tenant c q' response' none) :
    (∀ o ∈ z.history, ¬ CommitsTo (o : Observed sql) tenant c) ∧
      ∀ q'' response'' shown, AnsweredWith z q'' response'' →
        Tells tenant c q'' response'' shown → shown = none := by
  obtain ⟨o, ho, hview⟩ := answer_view hcase hmutation (ha.follows ht) htells
  obtain ⟨o', ho', hview'⟩ := answer_view hcase hmutation (ha'.follows hu) hnone
  obtain ⟨l₁, l₂, l₃, hsplit⟩ := Config.exists_trace_later w as bs ht hj hu ho ho'
  -- whatever the last request calls is behind the two
  have hgone : ∀ o'' ∈ z.history, (∀ shown, view tenant c (o'' : Observed sql) = some shown →
      shown = none) ∧ ¬ CommitsTo (o'' : Observed sql) tenant c := by
    intro o'' ho''
    have hlate := Config.mem_trace_since w (as ++ bs) cs hk hz ho''
    have htrace : (Config.initial w).trace (as ++ bs ++ cs) = l₁ ++ (i, o) :: (l₂ ++ (j, o') ::
        (l₃ ++ ((Config.initial w).run (as ++ bs)).trace cs)) := by
      rw [Config.trace_append, hsplit]
      simp
    exact views_retired hsql hversioned hopt hw htrace (hview c _ htells) (hview' c _ hnone)
      (k, o'') (List.mem_append_right _ hlate)
  refine ⟨fun o'' ho'' => (hgone o'' ho'').2, fun q'' response'' shown ha'' htells'' => ?_⟩
  obtain ⟨o'', ho'', hview''⟩ := answer_view hcase hmutation (ha''.follows hz) htells''
  exact (hgone o'' ho'').1 shown (hview'' c _ htells'')

end Runs

/-! ### The answers of a case's life -/

section Life

open Reference

theorem Reference.persistedCaseJson_injective : Function.Injective Reference.persistedCaseJson := by
  intro c c' h
  have hdate : Function.Injective (optionJson fun t => .str (Reference.dateTimeJson t)) :=
    optionJson_injective (fun _ _ h => Reference.dateTimeJson_injective (Json.str.inj h))
      fun _ => nofun
  have hdocument : Function.Injective (optionJson Reference.documentJson) :=
    optionJson_injective EncryptedObjectReference.toJson_injective fun _ => nofun
  cases c
  cases c'
  simpa [Reference.persistedCaseJson, hdate.eq_iff, hdocument.eq_iff,
    Uuid.toString_injective.eq_iff, Reference.dateTimeJson_injective.eq_iff,
    Reference.statusJson_injective.eq_iff, Reference.retentionJson_injective.eq_iff] using h

theorem Reference.eventJson_injective : Function.Injective Reference.eventJson := by
  intro e e' h
  cases e
  cases e'
  simpa [Reference.eventJson, Uuid.toString_injective.eq_iff,
    Reference.dateTimeJson_injective.eq_iff] using h

theorem Reference.mutationResultJson_injective :
    Function.Injective Reference.interfaces.mutationResultJson := by
  rintro ⟨c, e, replayed⟩ ⟨c', e', replayed'⟩ h
  replace h : Json.obj [("case", Reference.persistedCaseJson c), ("event", Reference.eventJson e),
      ("replayed", .bool replayed)] = Json.obj [("case", Reference.persistedCaseJson c'),
        ("event", Reference.eventJson e'), ("replayed", .bool replayed')] := h
  simpa [Reference.eventJson_injective.eq_iff, Reference.persistedCaseJson_injective.eq_iff] using h

/-- The case is created, and read. -/
def shownRun : List (Action (storeSystem Reference.sql Reference.state)) :=
  .start (.inl (.createCase (headers "create") briefCommand)) ::
    List.replicate 9 (.call 0 (drawing 0)) ++
    .start (.inl (.getCase Uuid.nil (headers ""))) :: List.replicate 7 (.call 1 (drawing 1))

/-- A transition is started before the case is read once more, and commits after that. -/
def changedRun : List (Action (storeSystem Reference.sql Reference.state)) :=
  [.start (.inl (.transitionCase Uuid.nil (headers "next") ⟨1, .collectingDocuments⟩)),
    .start (.inl (.getCase Uuid.nil (headers "")))] ++
    List.replicate 6 (.call 2 (drawing 2)) ++ List.replicate 7 (.call 3 (drawing 3)) ++
    List.replicate 3 (.call 2 (drawing 2))

/-- Retention tombstones the case, which is read again. -/
def retiredRun : List (Action (storeSystem Reference.sql Reference.state)) :=
  [.start (.inr (.applyRetention (instant 61) "retention")), .call 4 (drawing 4),
    .start (.inl (.getCase Uuid.nil (headers "")))] ++ List.replicate 5 (.call 5 (drawing 5))

/-- The cases are listed. -/
def listedRun : List (Action (storeSystem Reference.sql Reference.state)) :=
  .start (.inl (.listCases (headers ""))) :: List.replicate 5 (.call 6 (drawing 6))

/-- Tenant and case of a get. -/
def gets : ApiRequest ⊕ CaseRequest → Option (Uuid × Uuid)
  | .inl (.getCase id headers) => (tenantId headers).toOption.map fun t => (t, id)
  | _ => none

theorem gets_eq_some {r : ApiRequest ⊕ CaseRequest} {t id : Uuid} (h : gets r = some (t, id)) :
    ∃ headers, r = .inl (.getCase id headers) ∧ tenantId headers = .ok t := by
  rcases r with q | q
  · cases q with
    | getCase id' headers =>
      obtain ⟨t', ht, heq⟩ := Option.map_eq_some_iff.mp h
      obtain ⟨rfl, rfl⟩ := Prod.mk.inj heq
      refine ⟨headers, rfl, ?_⟩
      cases htenant : tenantId headers with
      | error e =>
        rw [htenant] at ht
        cases ht
      | ok t'' =>
        rw [htenant] at ht
        exact congrArg Except.ok (Option.some.inj ht)
    | _ => cases h
  · cases h

/-- A task of a run by what it asks, the status that it was answered with, and what its calls showed
of the case. -/
def summary (as : List (Action (storeSystem Reference.sql Reference.state))) (i : ℕ) :
    Option (Option (Uuid × Uuid) × Option ℕ × List (Option (ℤ × CaseContent))) :=
  ((Config.initial opened).run as).tasks[i]?.map fun t =>
    (gets t.request, (t.result.bind Sum.getLeft?).bind ApiResponse.status,
      (t.history : History Reference.sql).filterMap (view Uuid.nil Uuid.nil))

/-- **A get that was answered tells** what its one query for the case showed. -/
theorem summary_tells {as : List (Action (storeSystem Reference.sql Reference.state))} {i n : ℕ}
    {shown : Option (ℤ × CaseContent)}
    (h : summary as i = some (some (Uuid.nil, Uuid.nil), some n, [shown]))
    (hn : n = 200 ∨ n = 404) :
    ∃ t q response, ((Config.initial opened).run as).tasks[i]? = some t ∧
      AnsweredWith t q response ∧ Tells Uuid.nil Uuid.nil q response shown := by
  obtain ⟨t, ht, hsummary⟩ := Option.map_eq_some_iff.mp h
  obtain ⟨hgets, hanswer⟩ := Prod.mk.inj hsummary
  obtain ⟨hstatus, hviews⟩ := Prod.mk.inj hanswer
  obtain ⟨r, hresult, hr⟩ := Option.bind_eq_some_iff.mp hstatus
  obtain ⟨r', hresult', hleft⟩ := Option.bind_eq_some_iff.mp hresult
  cases r with
  | connection r => cases hr
  | http response =>
    obtain rfl := Sum.getLeft?_eq_some_iff.mp hleft
    obtain ⟨headers, hrequest, htenant⟩ := gets_eq_some hgets
    have ha : AnsweredWith t (.getCase Uuid.nil headers) response := ⟨hrequest, hresult'⟩
    have hfollows := ha.follows ht
    obtain ⟨shown', htells⟩ := getCase_tells hfollows htenant
      (hn.imp (fun h => (Option.some.inj hr).trans h) fun h => (Option.some.inj hr).trans h)
    -- the call whose view was answered is the one that showed the case
    obtain ⟨o, ho, hview⟩ := answer_view Reference.persistedCaseJson_injective
      Reference.mutationResultJson_injective hfollows htells
    have hmem : shown' ∈ (t.history : History Reference.sql).filterMap (view Uuid.nil Uuid.nil) :=
      List.mem_filterMap.mpr ⟨o, ho, hview _ _ htells⟩
    rw [hviews, List.mem_singleton] at hmem
    exact ⟨t, _, response, ht, ha, hmem ▸ htells⟩

theorem shownRun_get : summary shownRun 1 = some (some (Uuid.nil, Uuid.nil), some 200,
    [some (1, ⟨"intake", none, none, none⟩)]) := by
  decide +kernel

theorem changedRun_get : summary (shownRun ++ changedRun) 3 =
    some (some (Uuid.nil, Uuid.nil), some 200,
      [some (2, ⟨"collecting_documents", none, none, none⟩)]) := by
  decide +kernel

theorem retiredRun_get : summary (shownRun ++ changedRun ++ retiredRun) 5 =
    some (some (Uuid.nil, Uuid.nil), some 404, [none]) := by
  decide +kernel

/-- The second get was answered in the state that the creation and the transition lead to. -/
theorem case_linearized_changed : ∃ l₁ o l₂,
    (Config.initial opened).trace (shownRun ++ changedRun) = l₁ ++ (3, o) :: l₂ ∧
      ∃ s, Execution (machine caseSpec) .absent (caseWrites Uuid.nil Uuid.nil l₁) s ∧
        s.visible = some (2, ⟨"collecting_documents", none, none, none⟩) := by
  obtain ⟨t, q, response, ht, ha, htells⟩ := summary_tells changedRun_get (.inl rfl)
  obtain ⟨l₁, o, l₂, hsplit, hanswer⟩ := ((case_linearized Reference.persistedCaseJson_injective
    Reference.mutationResultJson_injective Reference.contract Reference.versioned
    Reference.optimistic (w := opened) office_unique (shownRun ++ changedRun) Uuid.nil).2 3 t q
    response ht ha).1 Uuid.nil _ htells
  exact ⟨l₁, o, l₂, hsplit, hanswer Uuid.nil _ htells⟩

/-- The version of the second get counts the creation and the transition. -/
theorem versions_count_changed : ∃ l₁ o l₂,
    (Config.initial opened).trace (shownRun ++ changedRun) = l₁ ++ (3, o) :: l₂ ∧
      (caseWrites Uuid.nil Uuid.nil (l₁ ++ [(3, o)])).length = 2 := by
  obtain ⟨t, q, response, ht, ha, htells⟩ := summary_tells changedRun_get (.inl rfl)
  obtain ⟨l₁, o, l₂, hsplit, hcount⟩ := versions_count Reference.persistedCaseJson_injective
    Reference.mutationResultJson_injective Reference.contract Reference.versioned
    Reference.optimistic (w := opened) office_unique ht ha (.inl ⟨_, htells⟩)
  have habsent : (opened.db.caseState Uuid.nil Uuid.nil).version = 0 := rfl
  rw [habsent, zero_add] at hcount
  exact ⟨l₁, o, l₂, hsplit, Int.ofNat_inj.mp hcount.symm⟩

/-- The second get starts after the first was answered, and shows no older version. -/
theorem reads_agree_changed : ∃ v v' k k' t u q q' response response',
    ((Config.initial opened).run shownRun).tasks[1]? = some t ∧
      ((Config.initial opened).run (shownRun ++ changedRun)).tasks[3]? = some u ∧
      AnsweredWith t q response ∧ AnsweredWith u q' response' ∧
      Tells Uuid.nil Uuid.nil q response (some (v, k)) ∧
      Tells Uuid.nil Uuid.nil q' response' (some (v', k')) ∧ v ≤ v' := by
  obtain ⟨t, q, response, ht, ha, htells⟩ := summary_tells shownRun_get (.inl rfl)
  obtain ⟨u, q', response', hu, ha', htells'⟩ := summary_tells changedRun_get (.inl rfl)
  refine ⟨_, _, _, _, t, u, q, q', response, response', ht, hu, ha, ha', htells, htells', ?_⟩
  exact (reads_agree Reference.persistedCaseJson_injective Reference.mutationResultJson_injective
    Reference.contract Reference.versioned Reference.optimistic (w := opened) office_unique ht hu ha
    ha' htells htells').2.2 (by decide +kernel)

/-- The list that starts after the case is gone does not show it. -/
theorem retired_for_good_listed : ∃ z,
    ((Config.initial opened).run
      (shownRun ++ changedRun ++ retiredRun ++ listedRun)).tasks[6]? = some z ∧
      z.history.length = 5 ∧ ∀ q response shown, AnsweredWith z q response →
        Tells Uuid.nil Uuid.nil q response shown → shown = none := by
  obtain ⟨t, q, response, ht, ha, htells⟩ := summary_tells changedRun_get (.inl rfl)
  obtain ⟨u, q', response', hu, ha', hnone⟩ := summary_tells retiredRun_get (.inr rfl)
  have hlist : ((Config.initial opened).run
      (shownRun ++ changedRun ++ retiredRun ++ listedRun)).tasks[6]?.map
        (fun z => z.history.length) = some 5 := by decide +kernel
  obtain ⟨z, hz, hlength⟩ := Option.map_eq_some_iff.mp hlist
  exact ⟨z, hz, hlength, (retired_for_good Reference.persistedCaseJson_injective
    Reference.mutationResultJson_injective Reference.contract Reference.versioned
    Reference.optimistic (w := opened) office_unique ht hu hz (by decide +kernel)
    (by decide +kernel) ha ha' htells hnone).2⟩

end Life

end ApmeApi
