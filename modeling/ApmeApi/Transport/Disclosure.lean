import ApmeApi.Lib.JsonText
import ApmeApi.Service.Handlers
import ApmeApi.Service.Reference

/-!
# Disclosure and the access record

Cases are read on three avenues: the two HTTP reads and the framed list. A get appends an
`access` record after it has read the case and before it answers, so what it discloses is
recorded and a record that fails discloses nothing. The two lists append no record at all
(`disclosed_recorded_iff` says that they are the only exception: exactly the lists that hold a
case break the rule).

A framed list is what `execute` hands to the connection. The codec of the connection refuses
frames above `maxRequestBytes`, so of the lists up to `maxResponseBytes` the longer ones are
never delivered.

A request is followed through its history, whatever the other requests and the surroundings do
between its calls and whichever of its calls fail.
-/

namespace ApmeApi

open Interaction CaseService

/-- A request on a read avenue. -/
inductive ReadRequest where
  | getCase (id : Uuid) (headers : HeaderMap)
  | listCases (headers : HeaderMap)
  | frame (bytes : List UInt8)

/-- The answer on each avenue. -/
inductive ReadResponse where
  | case (r : Except ApiError PersistedCase)
  | list (r : Except ApiError (List PersistedCase))
  | frame (bytes : List UInt8)

/-- The program of a read. -/
def ReadRequest.run [SharedAuth] [ApmeInterfaces] (state : AppState) :
    ReadRequest → Prog apiSig ReadResponse
  | .getCase id headers => (Http.getCase state id headers).run >>= fun r => pure (.case r)
  | .listCases headers => (Http.listCases state headers).run >>= fun r => pure (.list r)
  | .frame bytes => Tcp.execute state bytes >>= fun r => pure (.frame r)

/-- Reads beside the requests of the process. -/
abbrev readSystem [SharedAuth] [ApmeInterfaces] [Sha2] (sql : SqlFunctions) (state : AppState) :
    System where
  sig := apiSig
  machine := apiMachine sql
  Request := ReadRequest ⊕ ApiRequest
  Response := ReadResponse ⊕ ApiResponse
  main
    | .inl q => q.run state >>= fun r => pure (.inl r)
    | .inr q => q.run state >>= fun r => pure (.inr r)
  EnvAction := EnvAction
  env := env

variable {sql : SqlFunctions}

/-! ### Disclosure and record -/

/-- **The cases that a successful answer contains.** -/
def ReadResponse.Discloses [ApmeInterfaces] : ReadResponse → PersistedCase → Prop
  | .case r, c => r = .ok c
  | .list r, c => ∃ cases, r = .ok cases ∧ c ∈ cases
  | .frame bytes, c => ∃ requestId cases, bytes = Tcp.encodeList requestId cases ∧ c ∈ cases

/-- The credentials of a read and the tenant that it names. -/
def ReadRequest.credentials : ReadRequest → Option (HeaderMap × Uuid)
  | .getCase _ headers => (tenantId headers).toOption.map fun t => (headers, t)
  | .listCases headers => (tenantId headers).toOption.map fun t => (headers, t)
  | .frame bytes => do
    let req ← Tcp.FrameRequest.decode bytes
    let headers ← tokenHeaders req.bearerToken
    return (headers, req.tenantId)

/-- **The access to a case is on record**: the request appended an `access` record for it, in the
name of its caller and in the tenant of its caller, and the append was committed. -/
def Recorded [SharedAuth] (state : AppState) (q : ReadRequest) (h : History sql)
    (c : PersistedCase) : Prop :=
  ∃ headers subject context now, q.credentials = some (headers, context.tenantId) ∧
    Authorized state headers [casesReadScope] h subject context ∧
    Got h (.appendAudit ⟨context.tenantId, "access", subject.sharedUserId, "case", c.id, now⟩)
      (.ok ())

/-- The record of an access failed. -/
def RecordFailed (h : History sql) : Prop := ∃ a e, Got h (.appendAudit a) (.error e)

/-- The store answers the list query of the request with cases. -/
def ListsCases (h : History sql) (cases : List PersistedCase) : Prop :=
  ∃ t rows, Got h (.selectCases t) (.ok rows) ∧ rows.mapM caseFromRow = .ok cases ∧ cases ≠ []

/-- **A bulk disclosure**: a list query is answered with cases, and the answer has room for
them. -/
def BulkDisclosure [ApmeInterfaces] (h : History sql) : ReadRequest → Prop
  | .getCase _ _ => False
  | .listCases _ => ∃ cases, ListsCases h cases
  | .frame bytes => ∃ req cases, Tcp.FrameRequest.decode bytes = some req ∧ ListsCases h cases ∧
      (Tcp.encodeList req.requestId cases).length ≤ Tcp.maxResponseBytes

/-! ### The framed answers -/

section Frames

variable [ApmeInterfaces]

/-- A list in a frame, as a JSON value. -/
theorem Tcp.listPayload_eq (cases : List PersistedCase) :
    Tcp.listPayload cases =
      .obj [("cases", .arr (Json.elementsToValue (cases.map ApmeInterfaces.persistedCaseJson))),
        ("mode", .str "stateful_mtls_tcp")] := by
  have hle : "cases" ≤ "mode" := by decide
  simp only [listPayload, Json.toValue, Json.membersToValue, List.insertionSort_cons,
    List.insertionSort_nil, List.orderedInsert, hle, if_true]

/-- A failure is no list. -/
theorem Tcp.encodeFailure_ne_encodeList (id id' : Uuid) (error : String)
    (cases : List PersistedCase) : encodeFailure id error ≠ encodeList id' cases := by
  intro h
  have hvalue := Json.render_injective h
  simp at hvalue

/-- The encoding of a list tells its length. -/
theorem Tcp.length_eq_of_encodeList {id id' : Uuid} {cases cases' : List PersistedCase}
    (h : encodeList id cases = encodeList id' cases') : cases.length = cases'.length := by
  have hlength : ∀ xs : List Json, (Json.elementsToValue xs).length = xs.length := by
    intro xs
    simpa using congrArg List.length (Json.map_length_elementsToValue xs)
  have hvalue := Json.render_injective h
  simp only [listPayload_eq, Option.map_some, Option.toList_some, List.cons_append,
    List.nil_append, Json.obj.injEq, List.cons.injEq, Prod.mk.injEq, Json.arr.injEq, true_and,
    and_true] at hvalue
  have helements := congrArg List.length hvalue.2
  rwa [hlength, hlength, List.length_map, List.length_map] at helements

end Frames

/-! ### What the histories hold -/

/-- Up to authorization neither cases are read nor records appended. -/
theorem Preliminary.not_got {tenant : Option Uuid} {h : History sql}
    (hpre : Preliminary tenant h) :
    (∀ a r, ¬ Got h (.appendAudit a) r) ∧ ∀ t r, ¬ Got h (.selectCases t) r := by
  constructor
  · rintro a r ⟨i, w, hmem, -⟩
    exact absurd (hpre _ hmem) (by simp [Call.isPreliminary, Call.isAuthentication])
  · rintro t r ⟨i, w, hmem, -⟩
    exact absurd (hpre _ hmem) (by simp [Call.isPreliminary, Call.isAuthentication])

/-- What a list shows in the history of its request: no record, and the cases that the store
answered are those that the case service returns. -/
structure Listed (h : History sql) (r : Except CaseServiceError (List PersistedCase)) : Prop where
  noRecord : ∀ a r, ¬ Got h (.appendAudit a) r
  cases : ∀ cases, ListsCases h cases ↔ r = .ok cases ∧ cases ≠ []

/-- Without authorization nothing is listed. -/
theorem Preliminary.listed_refused {tenant : Option Uuid} {h : History sql}
    (hpre : Preliminary tenant h) (e : CaseServiceError) : Listed h (.error e) := by
  obtain ⟨hrecord, hlist⟩ := hpre.not_got
  refine ⟨hrecord, fun cases => ⟨?_, fun h => nomatch h.1⟩⟩
  rintro ⟨t, rows, hgot, -⟩
  exact absurd hgot (hlist t _)

/-- The list query, after authorization. -/
theorem Preliminary.listed {tenant : Option Uuid} {h : History sql} (hpre : Preliminary tenant h)
    (i : Input) (w : World) (t : Uuid) :
    Listed (h ++ [⟨i, w, .selectCases t⟩])
      (listOfReply (Obs.reply (M := apiMachine sql) ⟨i, w, .selectCases t⟩)) := by
  obtain ⟨hrecord, hlist⟩ := hpre.not_got
  constructor
  · intro a r hgot
    rcases hgot.of_concat with hgot | ⟨i', w', ho, -⟩
    · exact hrecord a r hgot
    · cases ho
  · intro cases
    constructor
    · -- authorization made no list query, so the answer is that of the last call
      rintro ⟨t', rows, hgot, hrows, hne⟩
      rcases hgot.of_concat with hgot | ⟨i', w', ho, hreply⟩
      · exact absurd hgot (hlist t' _)
      · obtain ⟨rfl, rfl, hcall⟩ := Obs.mk.inj ho
        obtain rfl := Call.selectCases.inj hcall
        rw [hreply]
        exact ⟨hrows, hne⟩
    · rintro ⟨hr, hne⟩
      have hgot := Got.concat h i w (.selectCases t)
      cases hreply : Obs.reply (M := apiMachine sql) ⟨i, w, .selectCases t⟩ with
      | error e =>
        rw [hreply] at hr
        cases hr
      | ok rows =>
        rw [hreply] at hr hgot
        exact ⟨t, rows, hgot, hr, hne⟩

section Avenues

variable [SharedAuth]

/-- **A list over HTTP** returns what the case service does, or it is refused before its query. -/
theorem listCases_listed (state : AppState) (headers : HeaderMap) :
    wp (fun (_ : History sql) _ => True)
      (fun h r => ∃ r', Listed h r' ∧ ((∃ e, r = .error e ∧ ∃ e', r' = .error e') ∨
        ∃ cases, r = .ok cases ∧ r' = .ok cases))
      (Http.listCases state headers).run [] := by
  rw [Http.listCases, authorizedTenant, wp_run_bind]
  refine wp_post (authorizedTenant_preliminary state headers _ fun _ _ _ _ => trivial) ?_
  rintro h r ⟨hpre, hr⟩
  rcases r with e | ⟨subject, context⟩
  · exact ⟨.error .notAuthorized, hpre.listed_refused _, .inl ⟨e, rfl, _, rfl⟩⟩
  · simp only [ofCases, wp_run_adapt, listCases_run_eq, wp_bind, wp_request]
    refine fun i w => ⟨trivial, _, hpre.listed i w context.tenantId, ?_⟩
    cases listOfReply (Obs.reply (M := apiMachine sql) ⟨i, w, .selectCases context.tenantId⟩) with
    | error e => exact .inl ⟨_, rfl, e, rfl⟩
    | ok cases => exact .inr ⟨cases, rfl, rfl⟩

omit [SharedAuth] in
/-- The record of an access succeeds when its append is committed. -/
theorem recordAccess_wp (context : TenantContext) (subject : VerifiedSubject) (id : Uuid)
    (h : History sql) :
    wp (fun (_ : History sql) _ => True)
      (fun h' r => h ⊆ h' ∧ (r = .ok () → (RecordFailed h' → RecordFailed h) ∧ ∃ now,
        Got h' (.appendAudit ⟨context.tenantId, "access", subject.sharedUserId, "case", id, now⟩)
          (.ok ())))
      (recordAccess context subject id).run h := by
  simp only [recordAccess, wp_run_bind, wp_run_lift, wp_request, wp_run_ofExcept]
  refine fun i w => ⟨trivial, fun i' w' => ⟨trivial, by simp, fun hok => ?_⟩⟩
  -- the entry carries the time that was just asked for
  generalize hargs : AppendAuditArgs.mk context.tenantId "access" subject.sharedUserId "case" id
    (Obs.reply (M := apiMachine sql) ⟨i, w, .utcNow⟩) = args at hok ⊢
  have hgot := Got.concat (h ++ [⟨i, w, .utcNow⟩]) i' w' (.appendAudit args)
  cases hreply : Obs.reply (M := apiMachine sql) ⟨i', w', .appendAudit args⟩ with
  | error e =>
    rw [hreply] at hok
    cases hok
  | ok u =>
    rw [hreply] at hgot
    refine ⟨?_, Obs.reply (M := apiMachine sql) ⟨i, w, .utcNow⟩, by rwa [hargs]⟩
    rintro ⟨a, e, hfailed⟩
    rcases hfailed.of_concat with hfailed | ⟨i₁, w₁, ho, he⟩
    · rcases hfailed.of_concat with hfailed | ⟨i₂, w₂, ho, -⟩
      · exact ⟨a, e, hfailed⟩
      · cases ho
    · obtain ⟨rfl, rfl, hcall⟩ := Obs.mk.inj ho
      obtain rfl := Call.appendAudit.inj hcall
      rw [hreply] at he
      cases he

/-- **A get** discloses the case that it recorded the access to. -/
theorem getCase_recorded (state : AppState) (id : Uuid) (headers : HeaderMap) :
    wp (fun (_ : History sql) _ => True)
      (fun h r => ∀ c, r = .ok c → Recorded state (.getCase id headers) h c ∧ ¬ RecordFailed h)
      (Http.getCase state id headers).run [] := by
  rw [Http.getCase, authorizedTenant, wp_run_bind]
  refine wp_post (authorizedTenant_preliminary state headers _ fun _ _ _ _ => trivial) ?_
  rintro h r ⟨hpre, hr⟩
  rcases r with e | ⟨subject, context⟩
  · intro c hc
    cases hc
  · obtain ⟨htenant, hauth⟩ := hr subject context rfl
    simp only [ofCases, wp_run_bind, wp_run_adapt, CaseService.getCase_run_eq, wp_bind,
      wp_request]
    refine fun i w => ⟨trivial, ?_⟩
    cases caseOfReply (Obs.reply (M := apiMachine sql)
      ⟨i, w, .selectCase context.tenantId id⟩) with
    | error e =>
      intro c hc
      cases hc
    | ok case =>
      simp only [wp_pure, Except.mapError]
      refine wp_post (recordAccess_wp context subject case.id _) ?_
      rintro h' r ⟨hsub, hr⟩
      rcases r with e | u
      · intro c hc
        cases hc
      · intro c hc
        obtain rfl := Except.ok.inj hc
        obtain ⟨hfailed, now, hgot⟩ := hr rfl
        refine ⟨⟨headers, subject, context, now, named_of_tenantId htenant,
          hauth.mono (List.Subset.trans (by simp) hsub), hgot⟩, fun hf => ?_⟩
        obtain ⟨a, e, hf⟩ := hfailed hf
        rcases hf.of_concat with hf | ⟨i', w', ho, -⟩
        · exact hpre.not_got.1 a _ hf
        · cases ho

/-- **A list over the framed transport** is answered when the case service returns cases that
the answer has room for, and otherwise it fails. -/
theorem execute_listed [ApmeInterfaces] (state : AppState) (bytes : List UInt8) :
    wp (fun (_ : History sql) _ => True)
      (fun h b => ∃ r, Listed h r ∧
        ((∃ req cases, Tcp.FrameRequest.decode bytes = some req ∧ r = .ok cases ∧
            (Tcp.encodeList req.requestId cases).length ≤ Tcp.maxResponseBytes ∧
              b = Tcp.encodeList req.requestId cases) ∨
          (∃ id error, b = Tcp.encodeFailure id error) ∧
            ∀ req cases, Tcp.FrameRequest.decode bytes = some req → r = .ok cases →
              Tcp.maxResponseBytes < (Tcp.encodeList req.requestId cases).length))
      (Tcp.execute state bytes) [] := by
  rw [Tcp.execute]
  cases hreq : Tcp.FrameRequest.decode bytes with
  | none =>
    have hpre : Preliminary none ([] : History sql) := by
      intro o ho
      cases ho
    exact ⟨_, hpre.listed_refused .notAuthorized, .inr ⟨⟨_, _, rfl⟩, by simp⟩⟩
  | some req =>
    simp only [wp_bind]
    refine wp_post (authorizeToken_preliminary state req.bearerToken req.tenantId
      [casesReadScope] fun _ _ _ => trivial) ?_
    rintro h r ⟨hpre, -⟩
    rcases r with e | ⟨subject, context⟩
    · exact ⟨_, hpre.listed_refused .notAuthorized, .inr ⟨⟨_, _, rfl⟩, by simp⟩⟩
    · cases req.operation with
      | listCases =>
        simp only [CaseService.listCases_run_eq, wp_bind, wp_request]
        refine fun i w => ⟨trivial, ?_⟩
        have hlisted := hpre.listed i w context.tenantId
        cases hlist : listOfReply (Obs.reply (M := apiMachine sql)
          ⟨i, w, .selectCases context.tenantId⟩) with
        | error e =>
          rw [hlist] at hlisted
          exact ⟨_, hlisted, .inr ⟨⟨_, _, rfl⟩, by simp⟩⟩
        | ok cases =>
          rw [hlist] at hlisted
          simp only [wp_pure]
          refine ⟨_, hlisted, ?_⟩
          -- `execute` replaces a list above the bound by a failure
          split
          · next hle => exact .inl ⟨req, cases, rfl, rfl, hle, rfl⟩
          · next hlt =>
            refine .inr ⟨⟨_, _, rfl⟩, fun req' cases' hreq' hcases' => ?_⟩
            obtain rfl := Option.some.inj hreq'
            obtain rfl := Except.ok.inj hcases'
            omega

end Avenues

/-! ### The rule and its exception -/

/-- **Every case in the answer is on record**, and an answer after a failed record has none. -/
def DisclosesRecorded [SharedAuth] [ApmeInterfaces] (state : AppState) (q : ReadRequest)
    (h : History sql) (r : ReadResponse) : Prop :=
  (∀ c, r.Discloses c → Recorded state q h c) ∧ (RecordFailed h → ∀ c, ¬ r.Discloses c)

/-- Where nothing is recorded, the rule is to disclose nothing. -/
theorem Listed.disclosesRecorded_iff [SharedAuth] [ApmeInterfaces] {state : AppState}
    {q : ReadRequest} {h : History sql} {r : ReadResponse}
    {r' : Except CaseServiceError (List PersistedCase)} (hl : Listed h r') :
    DisclosesRecorded state q h r ↔ ∀ c, ¬ r.Discloses c := by
  constructor
  · rintro ⟨hrecorded, -⟩ c hc
    obtain ⟨headers, subject, context, now, -, -, hgot⟩ := hrecorded c hc
    exact hl.noRecord _ _ hgot
  · intro hnone
    exact ⟨fun c hc => absurd hc (hnone c), fun _ => hnone⟩

/-- **A failed record discloses nothing**, on every avenue: the lists have no record that could
fail. -/
theorem ReadRequest.not_discloses_of_recordFailed [SharedAuth] [ApmeInterfaces]
    {state : AppState} {q : ReadRequest} {h : History sql} {r : ReadResponse}
    (hf : Follows (q.run state) h (.pure r)) (hfailed : RecordFailed h) (c : PersistedCase) :
    ¬ r.Discloses c := by
  obtain ⟨a, e, hgot⟩ := id hfailed
  cases q with
  | getCase id headers =>
    obtain ⟨h₁, h₂, r', rfl, hf₁, hf₂⟩ := Follows.of_bind hf
    obtain ⟨rfl, rfl⟩ := Follows.of_pure hf₂
    rw [List.append_nil] at hfailed
    exact fun hc => (hf₁.result (getCase_recorded state id headers) c hc).2 hfailed
  | listCases headers =>
    obtain ⟨h₁, h₂, r', rfl, hf₁, hf₂⟩ := Follows.of_bind hf
    obtain ⟨rfl, rfl⟩ := Follows.of_pure hf₂
    rw [List.append_nil] at hgot
    obtain ⟨r₁, hl, -⟩ := hf₁.result (listCases_listed state headers)
    exact absurd hgot (hl.noRecord a _)
  | frame bytes =>
    obtain ⟨h₁, h₂, r', rfl, hf₁, hf₂⟩ := Follows.of_bind hf
    obtain ⟨rfl, rfl⟩ := Follows.of_pure hf₂
    rw [List.append_nil] at hgot
    obtain ⟨r₁, hl, -⟩ := hf₁.result (execute_listed state bytes)
    exact absurd hgot (hl.noRecord a _)

/-- **The exception, request by request.** -/
theorem ReadRequest.disclosesRecorded_iff [SharedAuth] [ApmeInterfaces] {state : AppState}
    {q : ReadRequest} {h : History sql} {r : ReadResponse}
    (hf : Follows (q.run state) h (.pure r)) :
    DisclosesRecorded state q h r ↔ ¬ BulkDisclosure h q := by
  have hnothing := ReadRequest.not_discloses_of_recordFailed hf
  cases q with
  | getCase id headers =>
    obtain ⟨h₁, h₂, r', rfl, hf₁, hf₂⟩ := Follows.of_bind hf
    obtain ⟨rfl, rfl⟩ := Follows.of_pure hf₂
    rw [List.append_nil] at hnothing ⊢
    have hget := hf₁.result (getCase_recorded state id headers)
    exact ⟨fun _ h => h, fun _ => ⟨fun c hc => (hget c hc).1, hnothing⟩⟩
  | listCases headers =>
    obtain ⟨h₁, h₂, r', rfl, hf₁, hf₂⟩ := Follows.of_bind hf
    obtain ⟨rfl, rfl⟩ := Follows.of_pure hf₂
    rw [List.append_nil]
    obtain ⟨r₁, hl, hr⟩ := hf₁.result (listCases_listed state headers)
    rw [hl.disclosesRecorded_iff, ← not_exists]
    -- HTTP: a list is disclosed when it was read and is not empty
    refine not_congr ⟨?_, ?_⟩
    · rintro ⟨c, cases, rfl, hc⟩
      rcases hr with ⟨e, he, -⟩ | ⟨cases', hcases, rfl⟩
      · cases he
      · obtain rfl := Except.ok.inj hcases
        exact ⟨cases, (hl.cases cases).mpr ⟨rfl, List.ne_nil_of_mem hc⟩⟩
    · rintro ⟨cases, hcases⟩
      obtain ⟨rfl, hne⟩ := (hl.cases cases).mp hcases
      rcases hr with ⟨e, -, e', he'⟩ | ⟨cases', rfl, hcases'⟩
      · cases he'
      · obtain rfl := Except.ok.inj hcases'
        obtain ⟨c, hc⟩ := List.exists_mem_of_ne_nil cases hne
        exact ⟨c, cases, rfl, hc⟩
  | frame bytes =>
    obtain ⟨h₁, h₂, r', rfl, hf₁, hf₂⟩ := Follows.of_bind hf
    obtain ⟨rfl, rfl⟩ := Follows.of_pure hf₂
    rw [List.append_nil]
    obtain ⟨r₁, hl, hr⟩ := hf₁.result (execute_listed state bytes)
    rw [hl.disclosesRecorded_iff, ← not_exists]
    -- TCP: besides, it must fit the bound of responses, or a failure is sent in its place
    refine not_congr ⟨?_, ?_⟩
    · rintro ⟨c, id, cases, hbytes, hc⟩
      rcases hr with ⟨req, cases', hreq, rfl, hle, he⟩ | ⟨⟨id', error, he⟩, -⟩
      · -- the answer that was sent has as many cases as the one that discloses
        have hlength := Tcp.length_eq_of_encodeList (he.symm.trans hbytes)
        have hne : cases' ≠ [] := by
          rintro rfl
          exact List.ne_nil_of_mem hc (List.length_eq_zero_iff.mp hlength.symm)
        exact ⟨req, cases', hreq, (hl.cases cases').mpr ⟨rfl, hne⟩, hle⟩
      · exact absurd (he.symm.trans hbytes) (Tcp.encodeFailure_ne_encodeList _ _ _ _)
    · rintro ⟨req, cases, hreq, hcases, hle⟩
      obtain ⟨rfl, hne⟩ := (hl.cases cases).mp hcases
      rcases hr with ⟨req', cases', hreq', hcases', -, rfl⟩ | ⟨-, hlarge⟩
      · obtain rfl := Except.ok.inj hcases'
        obtain ⟨c, hc⟩ := List.exists_mem_of_ne_nil cases hne
        exact ⟨c, req'.requestId, cases, rfl, hc⟩
      · have hlt := hlarge req cases hreq rfl
        omega

/-! ### Runs -/

section Runs

variable [SharedAuth] [ApmeInterfaces] [Sha2]

/-- The history of a read that ended is a complete execution of its program. -/
theorem follows_of_read {sql : SqlFunctions} {state : AppState} (w : World)
    (as : List (Action (readSystem sql state))) {i : ℕ} {t : Task (readSystem sql state)}
    {q : ReadRequest} {r : ReadResponse}
    (ht : ((Config.initial w).run as).tasks[i]? = some t) (hq : t.request = .inl q)
    (hr : t.result = some (.inl r)) :
    Follows (M := apiMachine sql) (q.run state) t.history (.pure r) := by
  have hf := Config.run_follows (Y := readSystem sql state) w as ht
  rw [hq, Task.result_eq_some.mp hr] at hf
  obtain ⟨h₁, h₂, a, hh, hf₁, hf₂⟩ := Follows.of_bind hf
  obtain ⟨rfl, ha⟩ := Follows.of_pure hf₂
  obtain rfl := Sum.inl.inj ha
  rw [List.append_nil] at hh
  rwa [hh]

/-- **Disclosures are on record, lists apart.** In every run, a read that ended discloses only
cases whose access it recorded, and none after a failed record, exactly when it made no bulk
disclosure. And a read whose record failed discloses nothing, whatever it is. -/
theorem disclosed_recorded_iff {sql : SqlFunctions} {state : AppState} (w : World)
    (as : List (Action (readSystem sql state))) {i : ℕ} {t : Task (readSystem sql state)}
    {q : ReadRequest} {r : ReadResponse}
    (ht : ((Config.initial w).run as).tasks[i]? = some t) (hq : t.request = .inl q)
    (hr : t.result = some (.inl r)) :
    (DisclosesRecorded state q (t.history : History sql) r ↔
        ¬ BulkDisclosure (t.history : History sql) q) ∧
      (RecordFailed (t.history : History sql) → ∀ c, ¬ r.Discloses c) := by
  have hf := follows_of_read w as ht hq hr
  exact ⟨ReadRequest.disclosesRecorded_iff hf, ReadRequest.not_discloses_of_recordFailed hf⟩

end Runs

/-- A list with cases is a bulk disclosure. -/
theorem bulkDisclosure_of_list [SharedAuth] [ApmeInterfaces] {state : AppState}
    {headers : HeaderMap} {h : History sql} {cases : List PersistedCase}
    (hf : Follows ((ReadRequest.listCases headers).run state) h (.pure (.list (.ok cases))))
    (hne : cases ≠ []) : BulkDisclosure h (.listCases headers) := by
  obtain ⟨h₁, h₂, r, rfl, hf₁, hf₂⟩ := Follows.of_bind hf
  obtain ⟨rfl, hr⟩ := Follows.of_pure hf₂
  obtain rfl := ReadResponse.list.inj hr
  rw [List.append_nil]
  obtain ⟨r₁, hl, ⟨e, he, -⟩ | ⟨cases', hcases, rfl⟩⟩ := hf₁.result (listCases_listed state headers)
  · cases he
  · obtain rfl := Except.ok.inj hcases
    exact ⟨cases, (hl.cases cases).mpr ⟨rfl, hne⟩⟩

/-! ### A list, and a get -/

section Samples

open Reference

/-- The office with one case. -/
def oneCase : World := World.initial (officeWith [storedCase ⟨1⟩ "intake" 1]) 0

/-- The user lists the cases of the office. -/
def oneCaseRun : List (Action (readSystem Reference.sql Reference.state)) :=
  .start (.inl (.listCases (headers "key"))) :: List.replicate 5 (.call 0 input)

/-- The user gets the case of the office. -/
def getRun : List (Action (readSystem Reference.sql Reference.state)) :=
  .start (.inl (.getCase ⟨1⟩ (headers "key"))) :: List.replicate 7 (.call 0 input)

/-- A read that ended, with the ids of the cases that an answer over HTTP discloses. -/
def readIds (t : Task (readSystem Reference.sql Reference.state)) : Option (Bool × List Uuid) :=
  match t.request, t.result with
  | .inl (.listCases _), some (.inl (.list (.ok cases))) => some (true, cases.map PersistedCase.id)
  | .inl (.getCase _ _), some (.inl (.case (.ok c))) => some (false, [c.id])
  | _, _ => none

theorem readIds_cases {t : Task (readSystem Reference.sql Reference.state)} {list : Bool}
    {ids : List Uuid} (h : readIds t = some (list, ids)) :
    (list = true ∧ ∃ headers cases, t.request = .inl (.listCases headers) ∧
      t.result = some (.inl (.list (.ok cases))) ∧ cases.map PersistedCase.id = ids) ∨
    list = false ∧ ∃ id headers c, t.request = .inl (.getCase id headers) ∧
      t.result = some (.inl (.case (.ok c))) ∧ [c.id] = ids := by
  unfold readIds at h
  split at h
  · next hq hr =>
    obtain ⟨rfl, hids⟩ := Prod.mk.inj (Option.some.inj h)
    exact .inl ⟨rfl, _, _, hq, hr, hids⟩
  · next hq hr =>
    obtain ⟨rfl, hids⟩ := Prod.mk.inj (Option.some.inj h)
    exact .inr ⟨rfl, _, _, _, hq, hr, hids⟩
  · cases h

theorem oneCaseRun_ids :
    (((Config.initial oneCase).run oneCaseRun).tasks[0]?).bind readIds = some (true, [⟨1⟩]) := by
  decide +kernel

theorem getRun_ids :
    (((Config.initial oneCase).run getRun).tasks[0]?).bind readIds = some (false, [⟨1⟩]) := by
  decide +kernel

/-- **A disclosure that is not on record.** -/
theorem not_disclosed_recorded : ¬ ∀ (w : World)
    (as : List (Action (readSystem Reference.sql Reference.state))) (i : ℕ)
    (t : Task (readSystem Reference.sql Reference.state)) (q : ReadRequest) (r : ReadResponse),
    ((Config.initial w).run as).tasks[i]? = some t → t.request = .inl q →
      t.result = some (.inl r) →
        DisclosesRecorded Reference.state q (t.history : History Reference.sql) r := by
  intro hall
  obtain ⟨t, ht, hids⟩ := Option.bind_eq_some_iff.mp oneCaseRun_ids
  rcases readIds_cases hids with ⟨-, headers, cases, hq, hr, hcases⟩ | ⟨hfalse, -⟩
  · have hrecorded := hall oneCase oneCaseRun 0 t _ _ ht hq hr
    have hf := follows_of_read oneCase oneCaseRun ht hq hr
    refine (ReadRequest.disclosesRecorded_iff hf).mp hrecorded (bulkDisclosure_of_list hf ?_)
    rintro rfl
    cases hcases
  · cases hfalse

/-- The case that the user gets is on record. -/
theorem disclosed_recorded_iff_get : ∃ (t : Task (readSystem Reference.sql Reference.state))
    (id : Uuid) (headers : HeaderMap) (c : PersistedCase),
    ((Config.initial oneCase).run getRun).tasks[0]? = some t ∧
      t.result = some (.inl (.case (.ok c))) ∧ c.id = ⟨1⟩ ∧
      Recorded Reference.state (.getCase id headers) (t.history : History Reference.sql) c := by
  obtain ⟨t, ht, hids⟩ := Option.bind_eq_some_iff.mp getRun_ids
  rcases readIds_cases hids with ⟨htrue, -⟩ | ⟨-, id, headers, c, hq, hr, hc⟩
  · cases htrue
  · have hrule := (disclosed_recorded_iff oneCase getRun ht hq hr).1.mpr fun h => h
    exact ⟨t, id, headers, c, ht, hr, (List.cons.inj hc).1, hrule.1 c rfl⟩

end Samples

end ApmeApi
