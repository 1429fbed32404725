import ApmeApi.Service.Http

/-!
# What the authorization helpers establish

`Authorized state headers scopes h subject context` says that in the history `h` the subject was
authenticated with the credentials of `headers` for the scopes, and that its active membership in
the tenant of the context, with the role of the context, was read. It is the postcondition of
both helpers; they differ in where headers and tenant come from.
-/

namespace ApmeApi

open Interaction

variable {sql : SqlFunctions}

/-- The calls of an authorization for a tenant. -/
def Call.isAuthorization (tenantId : Uuid) : Call → Bool
  | .selectMembership t _ => t = tenantId
  | c => c.isAuthentication

theorem Call.isAuthorization_of_isAuthentication (t : Uuid) {c : Call}
    (h : c.isAuthentication = true) : c.isAuthorization t = true := by
  cases c with
  | selectMembership t' u => cases h
  | _ => exact h

section

variable [SharedAuth]

/-- **The caller may act for the tenant**: authenticated and an active member, in this
history. -/
structure Authorized (state : AppState) (headers : HeaderMap) (scopes : List String)
    (h : History sql) (subject : VerifiedSubject) (context : TenantContext) : Prop where
  authenticated : Authenticated state.auth headers scopes h subject
  member : Member h context.tenantId subject context.role

theorem Authorized.mono {state : AppState} {headers : HeaderMap} {scopes : List String}
    {h h' : History sql} {subject : VerifiedSubject} {context : TenantContext} (hs : h ⊆ h')
    (ha : Authorized state headers scopes h subject context) :
    Authorized state headers scopes h' subject context :=
  ⟨ha.authenticated.mono hs, ha.member.mono hs⟩

variable {G : History sql → Observed sql → Prop}

/-- **Membership** of an authenticated caller makes it authorized. -/
theorem memberContext_wp {state : AppState} {headers : HeaderMap} {scopes : List String}
    {h : History sql} {subject : VerifiedSubject}
    (hauth : Authenticated state.auth headers scopes h subject) {tenant : Uuid}
    (hM : ∀ h o, o.call.isAuthorization tenant = true → G h o) :
    wp G (fun h' r => h ⊆ h' ∧ ∀ s context, r = .ok (s, context) →
        context.tenantId = tenant ∧ Authorized state headers scopes h' s context)
      (ofCases (CaseService.tenantContext subject tenant) >>= fun context =>
        return (subject, context) : ApiM (VerifiedSubject × TenantContext)).run h := by
  simp only [ofCases, wp_run_bind, wp_run_adapt]
  refine wp_post (tenantContext_wp subject tenant (fun h i w => hM h _ (by
    simp [Call.isAuthorization])) h) ?_
  rintro h' r ⟨hs, hr⟩
  rcases r with e | context
  · exact ⟨hs, by simp⟩
  · obtain ⟨htenant, hmember⟩ := hr context rfl
    refine ⟨hs, fun s c hsc => ?_⟩
    obtain ⟨rfl, rfl⟩ := Prod.mk.inj (Except.ok.inj hsc)
    exact ⟨htenant, hauth.mono hs, by rwa [htenant]⟩

/-- **Authorization by headers.** -/
theorem authorizedTenant_wp (state : AppState) (headers : HeaderMap) (scopes : List String)
    (hA : ∀ h o, o.call.isAuthentication = true → G h o)
    (hM : ∀ t, tenantId headers = .ok t → ∀ h o, o.call.isAuthorization t = true → G h o)
    (h : History sql) :
    wp G (fun h' r => h ⊆ h' ∧ ∀ subject context, r = .ok (subject, context) →
        tenantId headers = .ok context.tenantId ∧
          Authorized state headers scopes h' subject context)
      (authorizedTenantWithScopes state headers scopes).run h := by
  rw [authorizedTenantWithScopes, ofAuth, wp_run_bind, wp_run_adapt]
  refine wp_post (authenticate_wp hA state.auth headers scopes h) ?_
  rintro h₁ r ⟨hs₁, hr⟩
  rcases r with f | subject
  · exact ⟨hs₁, by simp⟩
  · have hauth := hr subject rfl
    cases ht : tenantId headers with
    | error e => exact ⟨hs₁, by simp⟩
    | ok t =>
      refine wp_post (memberContext_wp hauth (hM t ht)) ?_
      rintro h₂ r ⟨hs₂, hr⟩
      refine ⟨List.Subset.trans hs₁ hs₂, fun s context hsc => ?_⟩
      obtain ⟨htenant, hauthorized⟩ := hr s context hsc
      exact ⟨by rw [htenant], hauthorized⟩

omit [SharedAuth] in
/-- A role that is not known authorizes nothing. -/
theorem parseRole_eq_error {value : String} {e : CaseServiceError}
    (h : CaseService.parseRole value = .error e) : e = .notAuthorized := by
  rw [CaseService.parseRole] at h
  split_ifs at h
  exact (Except.error.inj h).symm

/-- **The errors of the case service in an authorization**: there is no such membership, or the
query for it failed. -/
theorem authorizedTenant_errors (state : AppState) (headers : HeaderMap) (scopes : List String)
    (h : History sql) :
    wp (fun (_ : History sql) _ => True)
      (fun _ r => ∀ e, r = .error (.cases e) → e = .notAuthorized ∨ ∃ s, e = .storage s)
      (authorizedTenantWithScopes state headers scopes).run h := by
  simp only [authorizedTenantWithScopes, ofAuth, ofCases, wp_run_bind, wp_run_adapt,
    wp_run_ofExcept]
  refine wp_post (authenticate_wp (fun _ _ _ => trivial) state.auth headers scopes h) ?_
  rintro h₁ r -
  rcases r with f | subject
  · rintro _ ⟨⟩
  · cases ht : tenantId headers with
    | error e =>
      intro e' he
      obtain rfl := Except.error.inj he
      rw [tenantId] at ht
      split at ht <;> cases ht
    | ok t =>
      simp only [CaseService.tenantContext, wp_run_bind, wp_run_lift, wp_request, wp_run_ofExcept]
      refine fun i w => ⟨trivial, ?_⟩
      cases Obs.reply (M := apiMachine sql)
        ⟨i, w, .selectMembership t subject.sharedUserId⟩ with
      | error s =>
        intro e he
        exact .inr ⟨s, (ApiError.cases.inj (Except.error.inj he)).symm⟩
      | ok row =>
        cases row with
        | none =>
          intro e he
          exact .inl (ApiError.cases.inj (Except.error.inj he)).symm
        | some row =>
          simp only [Except.mapError, wp_run_bind, wp_run_ofExcept]
          cases hrole : CaseService.parseRole row.2 with
          | ok role => rintro _ ⟨⟩
          | error e =>
            rw [parseRole_eq_error hrole]
            intro e' he
            exact .inl (ApiError.cases.inj (Except.error.inj he)).symm

/-- **Authorization by token.** -/
theorem authorizeToken_wp (state : AppState) (token : String) (tenantId : Uuid)
    (scopes : List String) (hA : ∀ h o, o.call.isAuthentication = true → G h o)
    (hM : ∀ h o, o.call.isAuthorization tenantId = true → G h o) (h : History sql) :
    wp G (fun h' r => h ⊆ h' ∧ ∀ subject context, r = .ok (subject, context) →
        context.tenantId = tenantId ∧ ∃ headers, tokenHeaders token = some headers ∧
          Authorized state headers scopes h' subject context)
      (authorizeToken state token tenantId scopes).run h := by
  rw [authorizeToken]
  cases hh : tokenHeaders token with
  | none => exact ⟨List.Subset.refl h, by simp⟩
  | some headers =>
    dsimp only
    rw [ofAuth, wp_run_bind, wp_run_adapt]
    refine wp_post (authenticate_wp hA state.auth headers scopes h) ?_
    rintro h₁ r ⟨hs₁, hr⟩
    rcases r with f | subject
    · exact ⟨hs₁, by simp⟩
    · refine wp_post (memberContext_wp (hr subject rfl) hM) ?_
      rintro h₂ r ⟨hs₂, hr⟩
      refine ⟨List.Subset.trans hs₁ hs₂, fun s context hsc => ?_⟩
      obtain ⟨htenant, hauthorized⟩ := hr s context hsc
      exact ⟨htenant, headers, rfl, hauthorized⟩

end

end ApmeApi
