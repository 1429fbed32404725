import ApmeApi.Service.Commit

/-!
# Authentication and tenant membership

`authenticateWithScopes` binds two independently obtained views of the caller to one user and
one session: the identity of the guard, and the introspection of the bearer in the request's
`Authorization` header.

`Authenticated service headers scopes h subject` says what a history of calls must contain for
`subject` to be the caller. It is monotone in the history, and it is the postcondition of
`authenticateWithScopes` (`authenticate_wp`). `Member h tenantId subject role` is the same for
the membership read by `tenantContext` (`tenantContext_wp`).
-/

namespace ApmeApi

open Interaction

variable {sql : SqlFunctions}

def casesReadScope : String := "apme:cases:read"
def casesWriteScope : String := "apme:cases:write"

/-- `AuthFailure`. -/
inductive AuthFailure where
  | unauthorized
  | forbidden
  | degraded
  deriving DecidableEq

/-- `AuthService`: the configured issuer and audience. Its guard and its introspection client
are reached by calls. -/
structure AuthService where
  issuer : String
  audience : String

/-- The bearer token of the request. -/
def bearer (headers : HeaderMap) : Option String :=
  (((headers.getStr "authorization").bind (Text.stripPrefix "Bearer ")).map Text.trim).filter
    fun token => !token.isEmpty

def validateActiveSession [SharedAuth] (identity : Identity) (introspection : Introspection)
    (issuer audience : String) (requiredScopes : List String) (now : ℕ) :
    Except AuthFailure VerifiedSubject :=
  match identity.sessionId.filter fun value => !value.isEmpty with
  | none => .error .unauthorized
  | some identitySession =>
    if !introspection.active
        || introspection.sub != some identity.sharedUserId
        || introspection.iss != some issuer
        || introspection.aud != some audience
        || introspection.sid != some identitySession
        || introspection.exp.all (fun expires => decide (expires ≤ now))
        || introspection.nbf.any (fun notBefore => decide (now < notBefore))
        || requiredScopes.any (fun required => !SharedAuth.hasScope introspection required) then
      .error .unauthorized
    else .ok ⟨identity.sharedUserId, identitySession⟩

namespace AuthService

variable [SharedAuth]

def authenticateWithScopes (service : AuthService) (headers : HeaderMap)
    (requiredScopes : List String) : ExceptT AuthFailure (Prog apiSig) VerifiedSubject := do
  match bearer headers with
  | none => throw .unauthorized
  | some token =>
    match ← request (.guardCheck headers) with
    | .authenticated identity authority =>
      if authority = .sharedAuth ∧ identity.isSandboxed = false then
        match ← request (.introspect token service.audience requiredScopes) with
        | none => throw .degraded
        | some introspection =>
          let now ← request .unixNow
          Prog.ofExcept (validateActiveSession identity introspection service.issuer
            service.audience requiredScopes now)
      else throw .forbidden
    | .anonymous => throw .unauthorized
    | .unauthenticated => throw .unauthorized
    | .degraded => throw .degraded

/-- Authentication of a WebSocket handshake and of HTTP reads. -/
def authenticate (service : AuthService) (headers : HeaderMap) :
    ExceptT AuthFailure (Prog apiSig) VerifiedSubject :=
  service.authenticateWithScopes headers [casesReadScope]

end AuthService

/-! ### What a history shows -/

/-- The introspection response of an active session of the subject, for the configured issuer
and audience, with the scopes required, within its lifetime. -/
structure ActiveSession [SharedAuth] (service : AuthService) (scopes : List String) (now : ℕ)
    (introspection : Introspection) (subject : VerifiedSubject) : Prop where
  active : introspection.active = true
  sub : introspection.sub = some subject.sharedUserId
  sid : introspection.sid = some subject.sessionId
  iss : introspection.iss = some service.issuer
  aud : introspection.aud = some service.audience
  exp : ∃ expires, introspection.exp = some expires ∧ now < expires
  nbf : ∀ notBefore, introspection.nbf = some notBefore → notBefore ≤ now
  scope : ∀ required ∈ scopes, SharedAuth.hasScope introspection required = true

/-- The identity of a user outside the sandbox, in a session. -/
structure GuardedIdentity (identity : Identity) (subject : VerifiedSubject) : Prop where
  notSandboxed : identity.isSandboxed = false
  user : identity.sharedUserId = subject.sharedUserId
  session : identity.sessionId = some subject.sessionId
  sessionNonempty : subject.sessionId ≠ ""

/-- **The caller is the subject**: in this history the guard vouched for it, and introspection
of the bearer of the same headers described its active session. -/
def Authenticated [SharedAuth] (service : AuthService) (headers : HeaderMap)
    (scopes : List String) (h : History sql) (subject : VerifiedSubject) : Prop :=
  ∃ identity token introspection now,
    Got h (.guardCheck headers) (.authenticated identity .sharedAuth) ∧
    GuardedIdentity identity subject ∧
    bearer headers = some token ∧
    Got h (.introspect token service.audience scopes) (some introspection) ∧
    Got h .unixNow now ∧
    ActiveSession service scopes now introspection subject

theorem Authenticated.mono [SharedAuth] {service : AuthService} {headers : HeaderMap}
    {scopes : List String} {h h' : History sql} {subject : VerifiedSubject} (hs : h ⊆ h') :
    Authenticated service headers scopes h subject →
      Authenticated service headers scopes h' subject := by
  rintro ⟨identity, token, introspection, now, hg, hid, hb, hi, hn, ha⟩
  exact ⟨identity, token, introspection, now, hg.mono hs, hid, hb, hi.mono hs, hn.mono hs, ha⟩

/-- **The subject is a member**: in this history an active membership row with the role was
read. -/
def Member (h : History sql) (tenantId : Uuid) (subject : VerifiedSubject) (role : TenantRole) :
    Prop :=
  ∃ organizationId roleName,
    Got h (.selectMembership tenantId subject.sharedUserId)
      (.ok (some (organizationId, roleName))) ∧
    CaseService.parseRole roleName = .ok role

theorem Member.mono {h h' : History sql} {tenantId : Uuid} {subject : VerifiedSubject}
    {role : TenantRole} (hs : h ⊆ h') : Member h tenantId subject role →
      Member h' tenantId subject role := by
  rintro ⟨organizationId, roleName, hg, hr⟩
  exact ⟨organizationId, roleName, hg.mono hs, hr⟩

/-! ### Postconditions -/

/-- A session that validates is active, and the subject is that of guard and introspection. -/
theorem validateActiveSession_ok [SharedAuth] {identity : Identity}
    {introspection : Introspection} {service : AuthService} {scopes : List String} {now : ℕ}
    {subject : VerifiedSubject} (hs : identity.isSandboxed = false)
    (h : validateActiveSession identity introspection service.issuer service.audience scopes now =
      .ok subject) :
    GuardedIdentity identity subject ∧ ActiveSession service scopes now introspection subject := by
  rw [validateActiveSession] at h
  split at h
  · cases h
  · rename_i session hsession
    split at h
    · cases h
    · rename_i hcond
      have hsubject := Except.ok.inj h
      subst hsubject
      obtain ⟨hsid, hne⟩ := Option.filter_eq_some_iff.mp hsession
      simp only [Bool.or_eq_true, not_or, Bool.not_eq_true, bne_eq_false_iff_eq,
        List.any_eq_false,
        Bool.not_eq_true', Bool.not_eq_false] at hcond
      obtain ⟨⟨⟨⟨⟨⟨⟨hactive, hsub⟩, hiss⟩, haud⟩, hsid'⟩, hexp⟩, hnbf⟩, hscope⟩ := hcond
      refine ⟨⟨hs, rfl, hsid, by simpa using hne⟩, hactive, hsub, hsid', hiss, haud, ?_, ?_, hscope⟩
      · cases he : introspection.exp with
        | none => simp [he] at hexp
        | some expires => exact ⟨expires, rfl, by simpa [he] using hexp⟩
      · intro notBefore hn
        simpa [hn] using hnbf

/-- The calls of an authentication. -/
def Call.isAuthentication : Call → Bool
  | .guardCheck _ => true
  | .introspect _ _ _ => true
  | .unixNow => true
  | _ => false

/-- **Authentication.** It makes no other call than those of the guard, of introspection and of
the clock, and a subject it returns is the caller. -/
theorem authenticate_wp [SharedAuth] {G : History sql → Observed sql → Prop}
    (hG : ∀ h o, o.call.isAuthentication = true → G h o) (service : AuthService)
    (headers : HeaderMap) (scopes : List String) (h : History sql) :
    wp G (fun h' r => h ⊆ h' ∧ ∀ subject, r = .ok subject →
        Authenticated service headers scopes h' subject)
      (service.authenticateWithScopes headers scopes).run h := by
  rw [AuthService.authenticateWithScopes]
  cases hb : bearer headers with
  | none => exact ⟨List.Subset.refl h, by simp⟩
  | some token =>
    simp only [wp_run_bind, wp_run_lift, wp_request]
    intro i w
    refine ⟨hG _ _ rfl, ?_⟩
    have hgot := @Got.concat sql h i w (.guardCheck headers)
    cases hg : Obs.reply (M := apiMachine sql) ⟨i, w, .guardCheck headers⟩ with
    | anonymous => exact ⟨by simp, by simp⟩
    | unauthenticated => exact ⟨by simp, by simp⟩
    | degraded => exact ⟨by simp, by simp⟩
    | authenticated identity authority =>
      rw [hg] at hgot
      -- only a full identity of the shared authority is introspected
      by_cases hid : authority = .sharedAuth ∧ identity.isSandboxed = false
      · obtain ⟨rfl, hsandbox⟩ := hid
        simp only [hsandbox, and_self, if_true, wp_run_bind, wp_run_lift, wp_request]
        intro i' w'
        refine ⟨hG _ _ rfl, ?_⟩
        have hgot' := @Got.concat sql (h ++ [⟨i, w, .guardCheck headers⟩]) i' w'
          (.introspect token service.audience scopes)
        cases hi : Obs.reply (M := apiMachine sql)
          ⟨i', w', .introspect token service.audience scopes⟩ with
        | none => exact ⟨by simp, by simp⟩
        | some introspection =>
          rw [hi] at hgot'
          simp only [wp_run_bind, wp_run_lift, wp_request, wp_run_ofExcept]
          intro i'' w''
          refine ⟨hG _ _ rfl, by simp, fun subject hok => ?_⟩
          obtain ⟨hguarded, hactive⟩ := validateActiveSession_ok hsandbox hok
          exact ⟨identity, token, introspection, _, hgot.mono (by simp), hguarded, hb,
            hgot'.mono (by simp), Got.concat _ i'' w'' _, hactive⟩
      · simp only [if_neg hid, wp_run_throw]
        exact ⟨by simp, by simp⟩

/-- **Membership.** It makes the membership query only, and a context it returns is that of an
active member with its role. -/
theorem tenantContext_wp {G : History sql → Observed sql → Prop} (subject : VerifiedSubject)
    (tenantId : Uuid)
    (hG : ∀ h i w, G h ⟨i, w, .selectMembership tenantId subject.sharedUserId⟩)
    (h : History sql) :
    wp G (fun h' r => h ⊆ h' ∧ ∀ context, r = .ok context →
        context.tenantId = tenantId ∧ Member h' tenantId subject context.role)
      (CaseService.tenantContext subject tenantId).run h := by
  rw [CaseService.tenantContext]
  simp only [wp_run_bind, wp_run_lift, wp_request, wp_run_ofExcept]
  intro i w
  refine ⟨hG h i w, ?_⟩
  have hgot := @Got.concat sql h i w (.selectMembership tenantId subject.sharedUserId)
  cases hr : Obs.reply (M := apiMachine sql)
    ⟨i, w, .selectMembership tenantId subject.sharedUserId⟩ with
  | error e => exact ⟨by simp, by simp⟩
  | ok row =>
    rw [hr] at hgot
    rcases row with _ | ⟨organizationId, roleName⟩
    · exact ⟨by simp, by simp⟩
    · simp only [Except.mapError, wp_run_bind, wp_run_ofExcept]
      cases hrole : CaseService.parseRole roleName with
      | error e => exact ⟨by simp, by simp⟩
      | ok role =>
        refine ⟨by simp, fun context hc => ?_⟩
        have hcontext := Except.ok.inj hc
        subst hcontext
        exact ⟨rfl, organizationId, roleName, hgot, hrole⟩

end ApmeApi
