import ApmeApi.Lib.Lockstep
import ApmeApi.Service.BearerToken
import ApmeApi.Service.Listing
import ApmeApi.Transport.Disclosure
import ApmeApi.Transport.Framing

/-!
# The two avenues of the list

The list is answered over HTTP and over the framed transport. The two build their credentials
and authorize separately, but for one caller and one tenant they run in lockstep
(`listCases_lockstep`): they make the same calls up to the headers that the guard is shown, and
the framed answer is a function of the HTTP result (`frameAnswer`).

That function writes the code of the error that HTTP answers, but for the errors of the list
itself, which it all calls `temporarily_unavailable`. Of those HTTP calls a storage error so, and
a row that does not decode `validation`: the avenues agree exactly when the list is not refused
for such a row (`avenues_agree_iff`).
-/

namespace ApmeApi

open Interaction CaseService Traversal

variable {sql : SqlFunctions}

/-! ### Answers alike -/

/-- The code in the body of an answer to an error. -/
def HttpResponse.errorCode (r : HttpResponse) : Option String :=
  match r.body with
  | .json (.obj members) => members.findSome? fun m => match m with
    | ("error", .str code) => some code
    | _ => none
  | _ => none

theorem errorCode_intoResponse (e : ApiError) : e.intoResponse.errorCode = some e.code := by
  cases e with
  | authentication f => cases f <;> rfl
  | cases e => cases e <;> rfl
  | validation m => rfl

/-- **One outcome**: the same list, but that the framed answer may have no room for it, or a
failure with the code that the HTTP body has. -/
def AnswersAlike [ApmeInterfaces] (requestId : Uuid) (bytes : List UInt8) :
    Except ApiError (List PersistedCase) → Prop
  | .ok cases => bytes = Tcp.encodeList requestId cases ∨
      Tcp.maxResponseBytes < (Tcp.encodeList requestId cases).length ∧
        bytes = Tcp.encodeFailure requestId "response_too_large"
  | .error e => ∃ code, e.intoResponse.errorCode = some code ∧
      bytes = Tcp.encodeFailure requestId code

/-- The framed answer, from the result of the list over HTTP. -/
def frameAnswer [ApmeInterfaces] (requestId : Uuid) :
    Except ApiError (List PersistedCase) → List UInt8
  | .ok cases =>
    if (Tcp.encodeList requestId cases).length ≤ Tcp.maxResponseBytes then
      Tcp.encodeList requestId cases
    else Tcp.encodeFailure requestId "response_too_large"
  | .error (.cases (.validation _)) => Tcp.encodeFailure requestId "temporarily_unavailable"
  | .error e => Tcp.encodeFailure requestId e.code

/-- The code in a failure can be read back. -/
theorem Tcp.encodeFailure_inj {id : Uuid} {error error' : String}
    (h : encodeFailure id error = encodeFailure id error') : error = error' := by
  have hvalue := Json.render_injective h
  simpa using hvalue

/-- **The only disagreement** is about a row that does not decode. -/
theorem answersAlike_frameAnswer_iff [ApmeInterfaces] (requestId : Uuid)
    (r : Except ApiError (List PersistedCase)) :
    AnswersAlike requestId (frameAnswer requestId r) r ↔
      ∀ message, r ≠ .error (.cases (.validation message)) := by
  have halike : ∀ e : ApiError, AnswersAlike requestId (Tcp.encodeFailure requestId e.code)
      (.error e) := fun e => ⟨e.code, errorCode_intoResponse e, rfl⟩
  cases r with
  | ok cases =>
    refine iff_of_true ?_ (by simp)
    rw [frameAnswer]
    split
    · exact .inl rfl
    · next hlt => exact .inr ⟨by omega, rfl⟩
  | error e =>
    cases e with
    | authentication f => exact iff_of_true (halike _) (by simp)
    | validation m => exact iff_of_true (halike _) (by simp)
    | cases e =>
      cases e with
      | validation m =>
        -- HTTP answers `validation`, the frame `temporarily_unavailable`
        refine iff_of_false ?_ fun h => h m rfl
        rintro ⟨code, hcode, hbytes⟩
        rw [errorCode_intoResponse] at hcode
        rw [← Option.some.inj hcode] at hbytes
        have hcodes := Tcp.encodeFailure_inj hbytes
        rw [ApiError.code] at hcodes
        exact absurd hcodes (by decide)
      | _ => exact iff_of_true (halike _) (by simp)

/-! ### Authorization in lockstep -/

section

variable [SharedAuth]

/-- Headers with one token are authenticated in lockstep: only the guard sees the difference. -/
theorem authenticate_lockstep (sql : SqlFunctions) (service : AuthService)
    {headers headers' : HeaderMap} (h : bearer headers = bearer headers') (scopes : List String) :
    Lockstep (apiMachine sql) (· = ·) (service.authenticateWithScopes headers scopes).run
      (service.authenticateWithScopes headers' scopes).run := by
  rw [AuthService.authenticateWithScopes, AuthService.authenticateWithScopes, h]
  cases bearer headers' with
  | none => exact .refl _
  | some token =>
    simp only [run_lift_bind]
    refine .perform_bind (fun _ _ => rfl) fun i w => ?_
    have hguard : ∀ headers, ((apiMachine sql).exec i (.guardCheck headers) w).1 = i.guard :=
      fun _ => rfl
    rw [hguard, hguard]
    cases i.guard <;> exact .refl _

/-- **The two helpers run in lockstep** for one token and one tenant. -/
theorem authorize_lockstep (sql : SqlFunctions) (state : AppState) {headers : HeaderMap}
    {token : String} {t : Uuid}
    (htoken : VisibleToken token)
    (hheaders : headers.get "authorization" = some (bearerValue token))
    (ht : tenantId headers = .ok t) (scopes : List String) :
    Lockstep (apiMachine sql) (· = ·) (authorizedTenantWithScopes state headers scopes).run
      (authorizeToken state token t scopes).run := by
  have hbearer : bearer headers = bearer ⟨[("authorization", bearerValue token)]⟩ :=
    (bearer_eq_some hheaders htoken.nonempty htoken.visible).trans
      (bearer_eq_some rfl htoken.nonempty htoken.visible).symm
  rw [authorizedTenantWithScopes, authorizeToken, htoken.tokenHeaders, ht]
  have hauth := (authenticate_lockstep sql state.auth hbearer scopes).run_adapt
    ApiError.authentication
  exact hauth.run_bind (fun _ => .refl _) fun _ => rfl

/-- Authorization is not refused as the read of a case is. -/
theorem authorizedTenant_not_validation (state : AppState) (headers : HeaderMap)
    (scopes : List String) (h : History sql) :
    wp (fun (_ : History sql) _ => True)
      (fun _ r => ∀ message, r ≠ .error (.cases (.validation message)))
      (authorizedTenantWithScopes state headers scopes).run h := by
  refine wp_post (authorizedTenant_errors state headers scopes h) fun h' r hr message he => ?_
  rcases hr _ he with hnot | ⟨s, hs⟩
  · cases hnot
  · cases hs

/-! ### The list in lockstep -/

/-- **One caller, one tenant**: a request for the list over HTTP and a frame for it, with the same
token for the same tenant. -/
structure SameRequest (headers : HeaderMap) (frame : List UInt8) (requestId tenant : Uuid)
    (token : String) : Prop where
  visible : VisibleToken token
  authorization : headers.get "authorization" = some (bearerValue token)
  named : tenantId headers = .ok tenant
  decoded : Tcp.FrameRequest.decode frame = some ⟨requestId, tenant, token, .listCases⟩

variable [ApmeInterfaces]

/-- **The two lists run in lockstep**, and the framed answer is made of the HTTP result. -/
theorem listCases_lockstep (sql : SqlFunctions) (state : AppState) {headers : HeaderMap}
    {frame : List UInt8} {requestId tenant : Uuid} {token : String}
    (hsame : SameRequest headers frame requestId tenant token) :
    Lockstep (apiMachine sql) (fun r bytes => bytes = frameAnswer requestId r)
      (Http.listCases state headers).run (Tcp.execute state frame) := by
  have hauth := (authorize_lockstep sql state hsame.visible hsame.authorization hsame.named
    [casesReadScope]).of_wp (authorizedTenant_not_validation state headers [casesReadScope] [])
  rw [Http.listCases, Tcp.execute, hsame.decoded, ExceptT.run_bind]
  refine hauth.bind ?_
  rintro r _ ⟨rfl, hr⟩
  rcases r with e | ⟨subject, context⟩
  · -- the error of the authorization, under its code
    have hanswer : frameAnswer requestId (.error e) = Tcp.encodeFailure requestId e.code := by
      rw [frameAnswer]
      exact fun message he => hr message (by rw [he])
    exact .pure hanswer.symm
  · change Lockstep _ _ (Except.mapError ApiError.cases <$> (listCases context).run) _
    simp only [listCases_run_eq, map_eq_pure_bind, bind_assoc, pure_bind]
    refine .perform_bind (fun _ _ => rfl) fun i w => ?_
    cases hlist : listOfReply ((apiMachine sql).exec i (.selectCases context.tenantId) w).1 with
    | ok cases => exact .pure rfl
    | error e =>
      -- the two errors that the list can have
      rcases listOfReply_eq_error hlist with ⟨s, -, rfl⟩ | ⟨rows, -, r, -, message, -, rfl⟩
      · exact .pure rfl
      · exact .pure rfl

/-! ### Agreement -/

/-- The store answers the list query with a row that does not decode. -/
def RefusesRow (h : History sql) : Prop :=
  ∃ t rows, Got h (.selectCases t) (.ok rows) ∧ ∃ r ∈ rows, ∃ e, caseFromRow r = .error e

omit [ApmeInterfaces] in
/-- **Invalid lists over HTTP** are those with such a row. -/
theorem listCases_refused (state : AppState) (headers : HeaderMap) :
    wp (fun (_ : History sql) _ => True)
      (fun h r => (∃ message, r = .error (.cases (.validation message))) ↔ RefusesRow h)
      (Http.listCases state headers).run [] := by
  rw [Http.listCases, authorizedTenant, wp_run_bind]
  have hauth := wp_and (authorizedTenant_preliminary (G := fun (_ : History sql) _ => True) state
    headers [casesReadScope] fun _ _ _ _ => trivial)
    (authorizedTenant_not_validation state headers [casesReadScope] [])
  refine wp_mono hauth (fun _ _ _ => trivial) ?_
  rintro h r ⟨⟨hpre, -⟩, hr⟩
  have hpre : Preliminary (tenantId headers).toOption h := hpre
  have hnone := hpre.not_got.2
  rcases r with e | ⟨subject, context⟩
  · -- a refusal of authorization is none of the list, which is not read
    refine iff_of_false ?_ ?_
    · rintro ⟨message, hm⟩
      exact hr message (by rw [Except.error.inj hm])
    · rintro ⟨t, rows, hgot, -⟩
      exact hnone t _ hgot
  · simp only [ofCases, wp_run_adapt, listCases_run_eq, wp_bind, wp_request]
    refine fun i w => ⟨trivial, ?_⟩
    have hgot := Got.concat h i w (.selectCases context.tenantId)
    constructor
    · rintro ⟨message, hm⟩
      cases hlist : listOfReply (Obs.reply (M := apiMachine sql)
        ⟨i, w, .selectCases context.tenantId⟩) with
      | ok cases =>
        rw [hlist] at hm
        cases hm
      | error e =>
        rw [hlist] at hm
        obtain rfl := ApiError.cases.inj (Except.error.inj hm)
        rcases listOfReply_eq_error hlist with ⟨s, -, he⟩ | ⟨rows, hreply, r, hmem, -, he, -⟩
        · cases he
        · rw [hreply] at hgot
          exact ⟨_, rows, hgot, r, hmem, _, he⟩
    · -- authorization asks for no cases, so the rows are those of the last call
      rintro ⟨t, rows, hgot, r, hmem, e, he⟩
      rcases hgot.of_concat with hgot | ⟨i', w', ho, hreply⟩
      · exact absurd hgot (hnone t _)
      · obtain ⟨rfl, rfl, hcall⟩ := Obs.mk.inj ho
        obtain rfl := Call.selectCases.inj hcall
        obtain ⟨e', hlist⟩ := mapM_eq_error_of_mem hmem he
        obtain ⟨r', -, he'⟩ := exists_of_mapM_eq_error hlist
        obtain ⟨message, rfl⟩ := caseFromRow_eq_error he'
        rw [hreply, listOfReply, hlist]
        exact ⟨message, rfl⟩

/-- **The avenues agree** on every state, whatever guard, introspection and store answer, exactly
when the list query is not answered with a row that does not decode. -/
theorem avenues_agree_iff (sql : SqlFunctions) (state : AppState) {headers : HeaderMap}
    {frame : List UInt8} {requestId tenant : Uuid} {token : String}
    (hsame : SameRequest headers frame requestId tenant token) (i : ℕ → Input) (w : World) :
    AnswersAlike requestId (Prog.run (apiMachine sql) (Tcp.execute state frame) i w).1
        (Prog.run (apiMachine sql) (Http.listCases state headers).run i w).1 ↔
      ¬ RefusesRow (Prog.trace (apiMachine sql) (Http.listCases state headers).run i w) := by
  rw [((listCases_lockstep sql state hsame).run i w).1, answersAlike_frameAnswer_iff]
  have hrefused := (Prog.follows_trace (M := apiMachine sql) (Http.listCases state headers).run i
    w).result (listCases_refused state headers)
  rw [← hrefused, not_exists]

end

/-! ### A list refused -/

section Refused

open Reference

/-- The office with a case whose status is not known. -/
def lostCase : World := World.initial (officeWith [storedCase ⟨1⟩ "lost" 1]) 0

/-- The user asks for the list on both avenues. -/
theorem sameRequest_sample :
    SameRequest (headers "key") Tcp.sampleFrame Uuid.nil Uuid.nil "token" where
  visible := visibleToken_sample
  authorization := rfl
  named := by decide +kernel
  decoded := Tcp.decode_sampleFrame

/-- The message of a list that is refused for a row. -/
def refusal : Except ApiError (List PersistedCase) → Option String
  | .error (.cases (.validation message)) => some message
  | _ => none

theorem refusal_eq_some {r : Except ApiError (List PersistedCase)} {message : String}
    (h : refusal r = some message) : r = .error (.cases (.validation message)) := by
  unfold refusal at h
  split at h
  · rw [Option.some.inj h]
  · cases h

theorem lostCase_refusal :
    refusal (Prog.run (apiMachine Reference.sql) (Http.listCases Reference.state
      (headers "key")).run (fun _ => input) lostCase).1 = some "unknown persisted case status" := by
  decide +kernel

/-- The framed answer to the user is another one. -/
theorem not_alike_sample :
    ¬ AnswersAlike Uuid.nil (Prog.run (apiMachine Reference.sql)
        (Tcp.execute Reference.state Tcp.sampleFrame) (fun _ => input) lostCase).1
      (Prog.run (apiMachine Reference.sql) (Http.listCases Reference.state (headers "key")).run
        (fun _ => input) lostCase).1 := by
  rw [((listCases_lockstep Reference.sql Reference.state sameRequest_sample).run
    (fun _ => input) lostCase).1, answersAlike_frameAnswer_iff]
  exact fun h => h _ (refusal_eq_some lostCase_refusal)

/-- **The avenues disagree.** -/
theorem not_avenues_agree : ¬ ∀ (state : AppState) (headers : HeaderMap) (frame : List UInt8)
    (requestId tenant : Uuid) (token : String), SameRequest headers frame requestId tenant token →
      ∀ (i : ℕ → Input) (w : World),
        AnswersAlike requestId
          (Prog.run (apiMachine Reference.sql) (Tcp.execute state frame) i w).1
          (Prog.run (apiMachine Reference.sql) (Http.listCases state headers).run i w).1 :=
  fun hall => not_alike_sample (hall _ _ _ _ _ _ sameRequest_sample _ _)

/-- The condition does not hold of that request: the row that does not decode was read. -/
theorem avenues_agree_iff_lost :
    RefusesRow (Prog.trace (apiMachine Reference.sql) (Http.listCases Reference.state
      (headers "key")).run (fun _ => input) lostCase) := by
  by_contra hnone
  exact not_alike_sample ((avenues_agree_iff Reference.sql Reference.state sameRequest_sample _
    _).mpr hnone)

end Refused

end ApmeApi
