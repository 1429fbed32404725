import ApmeApi.Service.Authorization
import ApmeApi.Service.System

/-!
# The calls of the handlers

Every handler authorizes first and then acts for the caller it authorized. Up to there it makes
preliminary calls only (`Call.isPreliminary`): of authentication, of the clock, and the
membership query of the tenant that the request names. The lemmas of this module reduce the
weakest precondition of a handler to the calls that it makes after that, for any guarantee:
authorization, exactly-once publication and noninterference choose their own.

The three mutation handlers are one program, `mutationHandler`, applied to the checks of the
mutation.
-/

namespace ApmeApi

open Interaction CaseService

variable {sql : SqlFunctions}

/-- The calls before authorization is complete, in a request that names a tenant or none. -/
def Call.isPreliminary (tenant : Option Uuid) : Call → Bool
  | .utcNow => true
  | .selectMembership t _ => tenant = some t
  | c => c.isAuthentication

theorem Call.isPreliminary_of_isAuthentication (tenant : Option Uuid) {c : Call}
    (h : c.isAuthentication = true) : c.isPreliminary tenant = true := by
  cases c with
  | utcNow => rfl
  | selectMembership t u => cases h
  | _ => exact h

theorem Call.isPreliminary_of_isAuthorization {t : Uuid} {c : Call}
    (h : c.isAuthorization t = true) : c.isPreliminary (some t) = true := by
  cases c with
  | utcNow => rfl
  | selectMembership t' u =>
    have ht : t' = t := by simpa [isAuthorization] using h
    simp [isPreliminary, ht]
  | _ => exact h

/-- The history has preliminary calls only. -/
def Preliminary (tenant : Option Uuid) (h : History sql) : Prop :=
  ∀ o ∈ h, o.call.isPreliminary tenant = true

theorem Preliminary.concat {tenant : Option Uuid} {h : History sql} (hp : Preliminary tenant h)
    {o : Observed sql} (ho : o.call.isPreliminary tenant = true) :
    Preliminary tenant (h ++ [o]) := by
  intro o' ho'
  rcases List.mem_append.mp ho' with ho' | ho'
  · exact hp o' ho'
  · rwa [List.mem_singleton.mp ho']

variable {G : History sql → Observed sql → Prop}

section

variable [SharedAuth]

/-- **Authorization by headers** makes preliminary calls. -/
theorem authorizedTenant_preliminary (state : AppState) (headers : HeaderMap)
    (scopes : List String)
    (hG : ∀ h o, Preliminary (tenantId headers).toOption h →
      o.call.isPreliminary (tenantId headers).toOption = true → G h o) :
    wp G (fun h r => Preliminary (tenantId headers).toOption h ∧
        ∀ subject context, r = .ok (subject, context) → tenantId headers = .ok context.tenantId ∧
          Authorized state headers scopes h subject context)
      (authorizedTenantWithScopes state headers scopes).run [] := by
  have hauth := authorizedTenant_wp
    (G := fun (_ : History sql) o => o.call.isPreliminary (tenantId headers).toOption = true) state
    headers scopes (fun _ _ h => Call.isPreliminary_of_isAuthentication _ h)
    (fun t ht _ _ h => by
      rw [ht]
      exact Call.isPreliminary_of_isAuthorization h) []
  refine wp_mono (wp_track
    (C := fun o : Observed sql => o.call.isPreliminary (tenantId headers).toOption = true)
    (fun _ _ hc => hc) hauth) ?_ ?_
  · rintro t o ⟨⟨t', ht', hcalls⟩, ho⟩
    exact hG _ o (fun o' ho' => hcalls o' (by rwa [ht'] at ho')) ho
  · rintro t r ⟨⟨t', ht', hcalls⟩, -, hr⟩
    exact ⟨fun o' ho' => hcalls o' (by rwa [ht'] at ho'), hr⟩

/-- **Authorization by token** makes preliminary calls. -/
theorem authorizeToken_preliminary (state : AppState) (token : String) (tenantId : Uuid)
    (scopes : List String) (hG : ∀ h o, o.call.isPreliminary (some tenantId) = true → G h o) :
    wp G (fun h r => Preliminary (some tenantId) h ∧
        ∀ subject context, r = .ok (subject, context) → context.tenantId = tenantId ∧
          ∃ headers, tokenHeaders token = some headers ∧
            Authorized state headers scopes h subject context)
      (authorizeToken state token tenantId scopes).run [] := by
  have hauth := authorizeToken_wp
    (G := fun (_ : History sql) o => o.call.isPreliminary (some tenantId) = true) state token
    tenantId scopes (fun _ _ h => Call.isPreliminary_of_isAuthentication _ h)
    (fun _ _ h => Call.isPreliminary_of_isAuthorization h) []
  refine wp_mono (wp_calls_nil hauth) (fun t o ho => hG _ o ho) ?_
  rintro t r ⟨hcalls, -, hr⟩
  exact ⟨hcalls, hr⟩

/-- **Authorization of a handshake** makes preliminary calls. -/
theorem websocket_wp (state : AppState) (query : WebSocketQuery) (headers : HeaderMap)
    (hG : ∀ h o, o.call.isPreliminary (some query.tenantId) = true → G h o)
    (hUpgrade : ∀ h subject role i w, Preliminary (some query.tenantId) h →
      Authenticated state.auth headers [casesReadScope] h subject →
      Member h query.tenantId subject role →
        G h ⟨i, w, .onUpgrade ⟨query.tenantId, query.caseId⟩⟩) :
    wp G (fun _ _ => True) (Http.websocket state query headers).run [] := by
  rw [Http.websocket, AuthService.authenticate]
  simp only [ofAuth, ofCases, wp_run_bind, wp_run_adapt]
  have hauth := authenticate_wp
    (G := fun (_ : History sql) o => o.call.isPreliminary (some query.tenantId) = true)
    (fun _ _ h => Call.isPreliminary_of_isAuthentication _ h) state.auth headers
    [casesReadScope] []
  refine wp_mono (wp_calls_nil hauth) (fun t o ho => hG _ o ho) ?_
  rintro h r ⟨hpre, -, hr⟩
  rcases r with f | subject
  · trivial
  · have hsubject := hr subject rfl
    -- the tenant is taken from the query here, not from a header
    have hmember := tenantContext_wp
      (G := fun (_ : History sql) o => o.call.isPreliminary (some query.tenantId) = true) subject
      query.tenantId (fun _ _ _ => by simp [Call.isPreliminary]) h
    refine wp_mono (wp_calls hmember) (fun t o ho => hG _ o ho) ?_
    rintro t r ⟨⟨t', ht', hpre'⟩, hsub, hr⟩
    obtain rfl : t = t' := by simpa using ht'
    have hpreliminary : Preliminary (some query.tenantId) (h ++ t) := by
      intro o ho
      rcases List.mem_append.mp ho with ho | ho
      · exact hpre o ho
      · exact hpre' o ho
    rcases r with e | context
    · trivial
    · obtain ⟨-, hm⟩ := hr context rfl
      simp only [wp_run_lift]
      exact fun i w => ⟨hUpgrade _ subject context.role i w hpreliminary (hsubject.mono hsub) hm,
        trivial⟩

/-! ### Reads -/

/-- **The calls of a list**: authorization, then the list query of the tenant. -/
theorem listCases_wp (state : AppState) (headers : HeaderMap)
    (hG : ∀ h o, o.call.isPreliminary (tenantId headers).toOption = true → G h o)
    (hRead : ∀ h subject context i w, tenantId headers = .ok context.tenantId →
      Authorized state headers [casesReadScope] h subject context →
        G h ⟨i, w, .selectCases context.tenantId⟩) :
    wp G (fun _ _ => True) (Http.listCases state headers).run [] := by
  rw [Http.listCases, authorizedTenant, wp_run_bind]
  refine wp_post (authorizedTenant_preliminary state headers _ fun h o _ => hG h o) ?_
  rintro h r ⟨hpre, hr⟩
  rcases r with e | ⟨subject, context⟩
  · trivial
  · obtain ⟨htenant, hauth⟩ := hr subject context rfl
    simp only [ofCases, wp_run_adapt, CaseService.listCases_run_eq, wp_bind, wp_request]
    exact fun i w => ⟨hRead h subject context i w htenant hauth, trivial⟩

/-- **The calls of a read**: authorization, the query for the case, and the record of the
access, in the name of the caller. -/
theorem getCase_wp (state : AppState) (id : Uuid) (headers : HeaderMap)
    (hG : ∀ h o, o.call.isPreliminary (tenantId headers).toOption = true → G h o)
    (hRead : ∀ h subject context i w, tenantId headers = .ok context.tenantId →
      Authorized state headers [casesReadScope] h subject context →
        G h ⟨i, w, .selectCase context.tenantId id⟩ ∧
          ∀ a : AppendAuditArgs, a.tenantId = context.tenantId → a.actor = subject.sharedUserId →
            G h ⟨i, w, .appendAudit a⟩) :
    wp G (fun _ _ => True) (Http.getCase state id headers).run [] := by
  rw [Http.getCase, authorizedTenant, wp_run_bind]
  refine wp_post (authorizedTenant_preliminary state headers _ fun h o _ => hG h o) ?_
  rintro h r ⟨hpre, hr⟩
  rcases r with e | ⟨subject, context⟩
  · trivial
  · obtain ⟨htenant, hauth⟩ := hr subject context rfl
    simp only [ofCases, wp_run_bind, wp_run_adapt, CaseService.getCase_run_eq, wp_bind,
      wp_request]
    refine fun i w => ⟨(hRead h subject context i w htenant hauth).1, ?_⟩
    cases caseOfReply (Obs.reply (M := apiMachine sql)
      ⟨i, w, .selectCase context.tenantId id⟩) with
    | error e => trivial
    | ok case =>
      simp only [wp_pure, recordAccess, wp_run_bind, wp_run_lift, wp_request]
      intro i' w'
      -- the record of the access, after the clock
      refine ⟨hG _ _ rfl, fun i'' w'' => ⟨?_, ?_⟩⟩
      · have hauth' : Authorized state headers [casesReadScope]
            (h ++ [⟨i, w, .selectCase context.tenantId id⟩] ++ [⟨i', w', .utcNow⟩])
            subject context := hauth.mono (by simp)
        exact (hRead _ subject context i'' w'' htenant hauth').2 _ rfl rfl
      · simp only [wp_run_ofExcept]
        split <;> trivial

/-! ### Mutations -/

/-- The common program of the mutation handlers, with the checks of the mutation and the form of
the answer. -/
def Http.mutationHandler {α : Type} (state : AppState) (headers : HeaderMap)
    (checked : TenantContext → VerifiedSubject → String → DateTime →
      Except CaseServiceError SqlMutation) (answer : CaseMutationResult → α) : ApiM α := do
  let (subject, context) ← authorizedTenantWithScopes state headers [casesWriteScope]
  let key ← Prog.ofExcept (idempotencyKey headers)
  let now ← request .utcNow
  let mutation ← ofCases
    (Prog.ofExcept (checked context subject key now) >>= CaseService.commit context)
  if mutation.replayed then
    return answer mutation
  else
    publishMutation mutation
    return answer mutation

/-- **The calls of a mutation**: authorization with the write scope and the clock, then, with
checks that passed, those of `commit`, and the publication of a first use. -/
theorem mutationHandler_wp {α : Type} {Q : History sql → Except ApiError α → Prop}
    (state : AppState) (headers : HeaderMap)
    (checked : TenantContext → VerifiedSubject → String → DateTime →
      Except CaseServiceError SqlMutation) (answer : CaseMutationResult → α)
    (hG : ∀ h o, Preliminary (tenantId headers).toOption h →
      o.call.isPreliminary (tenantId headers).toOption = true → G h o)
    (hRefused : ∀ h e, Preliminary (tenantId headers).toOption h → Q h (.error e))
    (hCommit : ∀ h subject context key now m, Preliminary (tenantId headers).toOption h →
      tenantId headers = .ok context.tenantId → idempotencyKey headers = .ok key →
      Authorized state headers [casesWriteScope] h subject context →
      checked context subject key now = .ok m →
        wp G (fun h' r => match r with
          | .error e => Q h' (.error (.cases e))
          | .ok mutation => wp G (fun h'' _ => Q h'' (.ok (answer mutation)))
              (if mutation.replayed then pure () else publishMutation mutation) h')
          (CaseService.commit context m).run h) :
    wp G Q (Http.mutationHandler state headers checked answer).run [] := by
  rw [Http.mutationHandler, wp_run_bind]
  refine wp_post (authorizedTenant_preliminary state headers _ hG) ?_
  rintro h r ⟨hpre, hr⟩
  rcases r with e | ⟨subject, context⟩
  · exact hRefused h e hpre
  · obtain ⟨htenant, hauth⟩ := hr subject context rfl
    simp only [wp_run_bind, wp_run_ofExcept]
    cases hkey : idempotencyKey headers with
    | error e => exact hRefused h e hpre
    | ok key =>
      simp only [wp_run_lift, wp_request]
      refine fun i w => ⟨hG _ _ hpre rfl, ?_⟩
      have hpre' : Preliminary (tenantId headers).toOption (h ++ [⟨i, w, .utcNow⟩]) :=
        hpre.concat rfl
      have hauth' : Authorized state headers [casesWriteScope] (h ++ [⟨i, w, .utcNow⟩]) subject
          context := hauth.mono (by simp)
      simp only [ofCases, wp_run_adapt, wp_run_bind, wp_run_ofExcept]
      cases hm : checked context subject key (Obs.reply (M := apiMachine sql) ⟨i, w, .utcNow⟩) with
      | error e => exact hRefused _ _ hpre'
      | ok m =>
        refine wp_post (hCommit _ subject context key _ m hpre' htenant hkey hauth' hm) ?_
        intro h' r hr
        rcases r with e | mutation
        · exact hr
        · simp only [Except.mapError] at hr ⊢
          -- a replay is answered without a publication
          cases hrep : mutation.replayed with
          | true =>
            rw [hrep] at hr
            exact hr
          | false =>
            rw [hrep] at hr
            simp only [Bool.false_eq_true, if_false, wp_run_bind, wp_run_lift] at hr ⊢
            exact hr

/-! ### Frames -/

/-- **The calls of one frame**: those of the authorization of its token for its tenant, and the
list query of that tenant. -/
theorem Tcp.execute_calls [ApmeInterfaces] (state : AppState) (frame : List UInt8)
    (hG : ∀ req, FrameRequest.decode frame = some req → ∀ h o,
      o.call.isPreliminary (some req.tenantId) = true → G h o)
    (hList : ∀ req headers h subject context i w, FrameRequest.decode frame = some req →
      tokenHeaders req.bearerToken = some headers → context.tenantId = req.tenantId →
      Preliminary (some req.tenantId) h →
      Authorized state headers [casesReadScope] h subject context →
        G h ⟨i, w, .selectCases context.tenantId⟩) :
    wp G (fun _ _ => True) (execute state frame) [] := by
  rw [execute]
  cases hreq : FrameRequest.decode frame with
  | none => trivial
  | some req =>
    simp only [wp_bind]
    refine wp_post (authorizeToken_preliminary state req.bearerToken req.tenantId
      [casesReadScope] (hG req hreq)) ?_
    rintro h r ⟨hpre, hr⟩
    rcases r with e | ⟨subject, context⟩
    · trivial
    · obtain ⟨htenant, headers, hheaders, hauth⟩ := hr subject context rfl
      cases req.operation with
      | listCases =>
        simp only [CaseService.listCases_run_eq, wp_bind, wp_request]
        refine fun i w => ⟨hList req headers h subject context i w hreq hheaders htenant hpre
          hauth, ?_⟩
        cases CaseService.listOfReply (Obs.reply (M := apiMachine sql)
          ⟨i, w, .selectCases context.tenantId⟩) <;> trivial

/-- **The calls of a connection**: it reads and writes frames, and what it does with a frame that
it read is decided by `execute`. The induction is on the budget of requests. -/
theorem Tcp.serveRequests_wp [ApmeInterfaces] (state : AppState)
    (hRead : ∀ h i w, G h ⟨i, w, .readFrame codec⟩)
    (hWrite : ∀ h i w bytes, G h ⟨i, w, .writeFrame codec bytes⟩)
    (hExecute : ∀ h i w frame,
      Obs.reply (M := apiMachine sql) ⟨i, w, .readFrame codec⟩ = .frame frame →
        wp G (fun _ _ => True) (execute state frame) (h ++ [⟨i, w, .readFrame codec⟩]))
    (n : ℕ) (h : History sql) : wp G (fun _ _ => True) (serveRequests state n).run h := by
  induction n generalizing h with
  | zero => trivial
  | succ n ih =>
    rw [serveRequests_run_succ, wp_bind, wp_request]
    refine fun i w => ⟨hRead h i w, ?_⟩
    cases hread : Obs.reply (M := apiMachine sql) ⟨i, w, .readFrame codec⟩ with
    | timedOut => trivial
    | ended => trivial
    | failed => trivial
    | frame frame =>
      rw [wp_bind]
      refine wp_post (hExecute h i w frame hread) ?_
      intro h' response _
      split
      · trivial
      · rw [wp_bind, wp_request]
        refine fun i' w' => ⟨hWrite h' i' w' response, ?_⟩
        cases Obs.reply (M := apiMachine sql) ⟨i', w', .writeFrame codec response⟩ with
        | timedOut => trivial
        | failed message => trivial
        | written => exact ih _

/-! ### The mutation handlers -/

section

variable [ApmeInterfaces] [Sha2]

theorem Http.createCase_eq (state : AppState) (headers : HeaderMap) (command : CreateCaseCommand) :
    Http.createCase state headers command =
      mutationHandler state headers
        (fun context subject key now => createMutation context subject key command now)
        fun mutation => (if mutation.replayed then 200 else 201, mutation) := by
  simp only [Http.createCase, mutationHandler, CaseService.createCase_eq]
  congr! 8 with _ _ _ mutation
  cases mutation.replayed <;> rfl

theorem Http.transitionCase_eq (state : AppState) (id : Uuid) (headers : HeaderMap)
    (command : TransitionCaseCommand) :
    Http.transitionCase state id headers command =
      mutationHandler state headers
        (fun context subject key now => transitionMutation context subject id key command now)
        fun mutation => mutation := by
  simp only [Http.transitionCase, mutationHandler, CaseService.transitionCase_eq]

theorem Http.rotateEncryptedObject_eq (state : AppState) (id : Uuid) (headers : HeaderMap)
    (command : RotateEncryptedObjectCommand) :
    Http.rotateEncryptedObject state id headers command =
      mutationHandler state headers
        (fun context subject key now => rotateMutation context subject id key command now)
        fun mutation => mutation := by
  simp only [Http.rotateEncryptedObject, mutationHandler, CaseService.rotateEncryptedObject_eq]

end

end

/-! ### Requests -/

/-- The scopes that a request requires. -/
def ApiRequest.scopes : ApiRequest → List String
  | .createCase _ _ => [casesWriteScope]
  | .transitionCase _ _ _ => [casesWriteScope]
  | .rotateEncryptedObject _ _ _ => [casesWriteScope]
  | _ => [casesReadScope]

/-- Whether a role may make a request. -/
def ApiRequest.permits [ApmeInterfaces] (role : TenantRole) : ApiRequest → Prop
  | .createCase _ _ => ApmeInterfaces.canCreateOrTransition role = true
  | .transitionCase _ _ _ => ApmeInterfaces.canCreateOrTransition role = true
  | .rotateEncryptedObject _ _ _ => ApmeInterfaces.canExportOrDelete role = true
  | _ => True

/-- The mutation that a request stands for. -/
def ApiRequest.mutates : ApiRequest → SqlMutation → Prop
  | .createCase _ _, .createCase _ => True
  | .transitionCase id _ _, .transitionCase a => a.caseId = id
  | .rotateEncryptedObject id _ _, .rotateCaseObject a => a.caseId = id
  | _, _ => False

/-- The headers of a request on a route, and the tenant it names. -/
def ApiRequest.named : ApiRequest → Option (HeaderMap × Uuid)
  | .listCases headers => (tenantId headers).toOption.map fun t => (headers, t)
  | .getCase _ headers => (tenantId headers).toOption.map fun t => (headers, t)
  | .createCase headers _ => (tenantId headers).toOption.map fun t => (headers, t)
  | .transitionCase _ headers _ => (tenantId headers).toOption.map fun t => (headers, t)
  | .rotateEncryptedObject _ headers _ => (tenantId headers).toOption.map fun t => (headers, t)
  | .websocket query headers => some (headers, query.tenantId)
  | .metrics => none
  | .connection _ => none

/-- The requests of the mutation handlers. -/
def ApiRequest.isMutation : ApiRequest → Bool
  | .createCase _ _ => true
  | .transitionCase _ _ _ => true
  | .rotateEncryptedObject _ _ _ => true
  | _ => false

/-- A tenant named by the headers. -/
theorem named_of_tenantId {headers : HeaderMap} {t : Uuid} (ht : tenantId headers = .ok t) :
    ((tenantId headers).toOption.map fun t => (headers, t)) = some (headers, t) := by
  rw [ht]
  rfl

theorem tenantId_of_named {headers headers' : HeaderMap} {t : Uuid}
    (hq : ((tenantId headers).toOption.map fun t => (headers, t)) = some (headers', t)) :
    tenantId headers = .ok t := by
  cases ht : tenantId headers with
  | error e =>
    rw [ht] at hq
    cases hq
  | ok t' =>
    rw [ht] at hq
    rw [(Prod.mk.inj (Option.some.inj hq)).2]

/-- **A mutation request runs the common handler**, with checks that pass only in a permitted
role, and lead to the mutation of the request, of the tenant and the caller. -/
theorem ApiRequest.run_mutation [SharedAuth] [ApmeInterfaces] [Sha2] (state : AppState)
    {q : ApiRequest} (hq : q.isMutation = true) :
    ∃ (α : Type) (headers : HeaderMap) (checked : TenantContext → VerifiedSubject → String →
        DateTime → Except CaseServiceError SqlMutation) (answer : CaseMutationResult → α)
      (f : α → HttpResponse),
      q.run state = (Http.mutationHandler state headers checked answer).run >>=
        (fun r => pure (respond f r)) ∧
      q.named = ((tenantId headers).toOption.map fun t => (headers, t)) ∧
      q.scopes = [casesWriteScope] ∧
      ∀ context subject key now m, checked context subject key now = .ok m →
        q.permits context.role ∧ q.mutates m ∧ m.tenantId = context.tenantId ∧
          m.key.sharedUserId = subject.sharedUserId := by
  cases q with
  | createCase headers command =>
    refine ⟨_, headers, _, _, _, by rw [run, Http.createCase_eq], rfl, rfl, ?_⟩
    intro context subject key now m hm
    obtain ⟨hrole, -, -, rfl⟩ := createMutation_eq_ok.mp hm
    exact ⟨requireMutator_eq_ok.mp hrole, trivial, rfl, rfl⟩
  | transitionCase id headers command =>
    refine ⟨_, headers, _, _, _, by rw [run, Http.transitionCase_eq], rfl, rfl, ?_⟩
    intro context subject key now m hm
    obtain ⟨hrole, -, -, rfl⟩ := transitionMutation_eq_ok.mp hm
    exact ⟨requireMutator_eq_ok.mp hrole, rfl, rfl, rfl⟩
  | rotateEncryptedObject id headers command =>
    refine ⟨_, headers, _, _, _, by rw [run, Http.rotateEncryptedObject_eq], rfl, rfl, ?_⟩
    intro context subject key now m hm
    obtain ⟨hrole, -, -, -, rfl⟩ := rotateMutation_eq_ok.mp hm
    exact ⟨requireExporter_eq_ok.mp hrole, rfl, rfl, rfl⟩
  | _ => cases hq

end ApmeApi
