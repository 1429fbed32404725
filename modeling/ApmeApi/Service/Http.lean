import ApmeApi.Service.Auth

/-!
# HTTP handlers

The handlers of the case routes, of the WebSocket handshake and of the metrics, with the two
authorization helpers they and the framed transport use, and the answers that errors turn into.
A handler receives what its extractors parsed; what they reject never reaches it.
-/

namespace ApmeApi

open Interaction

/-- `ApiError`. -/
inductive ApiError where
  | authentication (failure : AuthFailure)
  | cases (e : CaseServiceError)
  | validation (message : String)
  deriving DecidableEq

namespace ApiError

/-- `ApiError::code`. -/
def code : ApiError → String
  | authentication .unauthorized => "unauthorized"
  | authentication .forbidden => "forbidden"
  | cases .notAuthorized => "forbidden"
  | authentication .degraded => "temporarily_unavailable"
  | cases (.storage _) => "temporarily_unavailable"
  | cases .notFound => "not_found"
  | cases .idempotencyConflict => "idempotency_key_reused"
  | cases .staleVersion => "stale_version"
  | cases .invalidTransition => "invalid_transition"
  | cases .keyVersionRollback => "key_version_rollback"
  | cases (.validation _) => "validation"
  | validation _ => "validation"

/-- Status, code and message of the answer to an error. -/
def parts : ApiError → ℕ × String × Option String
  | authentication .unauthorized => (401, "unauthorized", none)
  | authentication .forbidden => (403, "forbidden", none)
  | cases .notAuthorized => (403, "forbidden", none)
  | authentication .degraded => (503, "temporarily_unavailable", none)
  | cases (.storage _) => (503, "temporarily_unavailable", none)
  | cases .notFound => (404, "not_found", none)
  | cases .idempotencyConflict => (409, "idempotency_key_reused", none)
  | cases .staleVersion => (409, "stale_version", none)
  | cases .invalidTransition => (409, "invalid_transition", none)
  | cases .keyVersionRollback => (409, "key_version_rollback", none)
  | cases (.validation message) => (422, "validation", some message)
  | validation message => (422, "validation", some message)

/-- The answer carries the code of the error. -/
theorem parts_code (e : ApiError) : e.parts.2.1 = e.code := by
  cases e with
  | authentication f => cases f <;> rfl
  | cases e => cases e <;> rfl
  | validation m => rfl

end ApiError

/-- The body of a response. -/
inductive HttpBody where
  | json (value : Json)
  | text (value : String)
  | upgrade

/-- A response: its status and its body. -/
structure HttpResponse where
  status : ℕ
  body : HttpBody

/-- `ApiError::into_response`. -/
def ApiError.intoResponse (e : ApiError) : HttpResponse :=
  match e.parts with
  | (status, code, some message) =>
    ⟨status, .json (.obj [("error", .str code), ("message", .str message)])⟩
  | (status, code, none) => ⟨status, .json (.obj [("error", .str code)])⟩

/-- Programs of the handlers. -/
abbrev ApiM := ExceptT ApiError (Prog apiSig)

/-- An operation of the case service in a handler: its error becomes an `ApiError`. -/
def ofCases {α : Type} (x : CaseM α) : ApiM α := ExceptT.adapt ApiError.cases x

/-- An authentication in a handler: its failure becomes an `ApiError`. -/
def ofAuth {α : Type} (x : ExceptT AuthFailure (Prog apiSig) α) : ApiM α :=
  ExceptT.adapt ApiError.authentication x

/-- The part of `AppState` that is not reached by calls. -/
structure AppState where
  auth : AuthService

/-! ### Extraction from headers -/

def tenantHeader : String := "x-apme-tenant-id"
def idempotencyHeader : String := "idempotency-key"

def tenantId (headers : HeaderMap) : Except ApiError Uuid :=
  match (headers.getStr tenantHeader).bind Uuid.parse with
  | some id => .ok id
  | none => .error (.validation "x-apme-tenant-id must be a UUID")

def idempotencyKey (headers : HeaderMap) : Except ApiError String :=
  match ((headers.getStr idempotencyHeader).map Text.trim).filter fun value => !value.isEmpty with
  | some key => .ok key
  | none => .error (.validation "Idempotency-Key is required")

/-! ### Authorization -/

section Authorization

variable [SharedAuth]

def authorizedTenantWithScopes (state : AppState) (headers : HeaderMap)
    (requiredScopes : List String) : ApiM (VerifiedSubject × TenantContext) := do
  let subject ← ofAuth (state.auth.authenticateWithScopes headers requiredScopes)
  let tenantId ← Prog.ofExcept (tenantId headers)
  let context ← ofCases (CaseService.tenantContext subject tenantId)
  return (subject, context)

def authorizedTenant (state : AppState) (headers : HeaderMap) :
    ApiM (VerifiedSubject × TenantContext) :=
  authorizedTenantWithScopes state headers [casesReadScope]

/-- The header map of a token that came without headers. -/
def tokenHeaders (token : String) : Option HeaderMap :=
  if token.isEmpty || 16 * 1024 < token.utf8ByteSize || token.toList.any Text.isWhitespace
      || token.toList.any Text.isControl then none
  else (HeaderMap.fromStr ("Bearer " ++ token)).map fun value => ⟨[("authorization", value)]⟩

def authorizeToken (state : AppState) (token : String) (tenantId : Uuid)
    (requiredScopes : List String) : ApiM (VerifiedSubject × TenantContext) := do
  match tokenHeaders token with
  | none => throw (.authentication .unauthorized)
  | some headers =>
    let subject ← ofAuth (state.auth.authenticateWithScopes headers requiredScopes)
    let context ← ofCases (CaseService.tenantContext subject tenantId)
    return (subject, context)

end Authorization

/-! ### Handlers -/

/-- `publish_mutation`. Sending to a channel without receivers is no error of the handler. -/
def publishMutation (mutation : CaseMutationResult) : Prog apiSig Unit :=
  request (.publish ⟨mutation.case.tenantId, mutation.case.id, mutation.event⟩)

/-- The query of a WebSocket handshake. -/
structure WebSocketQuery where
  tenantId : Uuid
  caseId : Option Uuid
  deriving DecidableEq

namespace Http

variable [SharedAuth]

def metrics : ApiM String := do
  let count ← request .countCases
  let caseCount ← Prog.ofExcept (count.mapError fun e => .cases (.storage e))
  return "# TYPE apme_records gauge\napme_records " ++ toString caseCount ++ "\n"

def listCases (state : AppState) (headers : HeaderMap) : ApiM (List PersistedCase) := do
  let (_, context) ← authorizedTenant state headers
  ofCases (CaseService.listCases context)

def getCase (state : AppState) (id : Uuid) (headers : HeaderMap) : ApiM PersistedCase := do
  let (subject, context) ← authorizedTenant state headers
  let case ← ofCases (CaseService.getCase context id)
  ofCases (CaseService.recordAccess context subject case.id)
  return case

/-- A handshake: the subject is used for authorization only, the loop gets the subscription.
Nothing is awaited between `subscribe` and `on_upgrade`, so they are one call. -/
def websocket (state : AppState) (query : WebSocketQuery) (headers : HeaderMap) : ApiM Unit := do
  let subject ← ofAuth (state.auth.authenticate headers)
  let _ ← ofCases (CaseService.tenantContext subject query.tenantId)
  request (.onUpgrade ⟨query.tenantId, query.caseId⟩)

variable [ApmeInterfaces] [Sha2]

def createCase (state : AppState) (headers : HeaderMap) (command : CreateCaseCommand) :
    ApiM (ℕ × CaseMutationResult) := do
  let (subject, context) ← authorizedTenantWithScopes state headers [casesWriteScope]
  let idempotencyKey ← Prog.ofExcept (idempotencyKey headers)
  let now ← request .utcNow
  let mutation ← ofCases (CaseService.createCase context subject idempotencyKey command now)
  if mutation.replayed then
    return (200, mutation)
  else
    publishMutation mutation
    return (201, mutation)

def transitionCase (state : AppState) (id : Uuid) (headers : HeaderMap)
    (command : TransitionCaseCommand) : ApiM CaseMutationResult := do
  let (subject, context) ← authorizedTenantWithScopes state headers [casesWriteScope]
  let idempotencyKey ← Prog.ofExcept (idempotencyKey headers)
  let now ← request .utcNow
  let mutation ← ofCases
    (CaseService.transitionCase context subject id idempotencyKey command now)
  if mutation.replayed then
    return mutation
  else
    publishMutation mutation
    return mutation

def rotateEncryptedObject (state : AppState) (id : Uuid) (headers : HeaderMap)
    (command : RotateEncryptedObjectCommand) : ApiM CaseMutationResult := do
  let (subject, context) ← authorizedTenantWithScopes state headers [casesWriteScope]
  let idempotencyKey ← Prog.ofExcept (idempotencyKey headers)
  let now ← request .utcNow
  let mutation ← ofCases
    (CaseService.rotateEncryptedObject context subject id idempotencyKey command now)
  if mutation.replayed then
    return mutation
  else
    publishMutation mutation
    return mutation

end Http

end ApmeApi
