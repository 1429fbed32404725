import ApmeApi.Service.Http

/-!
# The framed transport

One mutually authenticated connection carries length-delimited frames. A request frame is a
JSON record with its own bearer token; `execute` answers it with the bytes of a `FrameResponse`,
and `serveConnection` reads, executes and writes until the client ends the connection, the
budget of requests is used up, or reading or writing fails.

`execute` bounds its answer by `maxResponseBytes` and `serveConnection` checks that bound again
before it hands the answer to the codec, whose own bound is `maxRequestBytes` in both
directions.
-/

namespace ApmeApi.Tcp

open Interaction

def maxRequestBytes : ℕ := 20 * 1024
def maxResponseBytes : ℕ := 64 * 1024

/-- The settings of the transport that a connection uses. -/
structure Config where
  maxRequestsPerConnection : ℕ
  deriving DecidableEq

/-! ### Frames -/

inductive Operation where
  | listCases
  deriving DecidableEq

/-- A request frame. -/
structure FrameRequest where
  requestId : Uuid
  tenantId : Uuid
  bearerToken : String
  operation : Operation
  deriving DecidableEq

/-- A response frame; absent members are left out of its JSON. -/
structure FrameResponse where
  requestId : Uuid
  status : String
  payload : Option Json
  error : Option String

/-- How the members of a request frame are read. -/
def frameReader (field : String) : Json.Reader :=
  if field = "operation" then Json.readVariant else Json.readString

def Operation.parse (name : String) : Option Operation :=
  if name = "list_cases" then some .listCases else none

/-- `serde_json::from_slice::<FrameRequest>`, unknown members denied. -/
def FrameRequest.decode (bytes : List UInt8) : Option FrameRequest := do
  let members ← Json.readRecord frameReader
    ["request_id", "tenant_id", "bearer_token", "operation"] bytes
  let requestId ← (Json.field "request_id" members).bind Uuid.parse
  let tenantId ← (Json.field "tenant_id" members).bind Uuid.parse
  let bearerToken ← Json.field "bearer_token" members
  let operation ← (Json.field "operation" members).bind Operation.parse
  return ⟨requestId, tenantId, bearerToken, operation⟩

/-- `serde_json::to_vec(&FrameResponse)`. -/
def FrameResponse.encode (r : FrameResponse) : List UInt8 :=
  Json.render (.obj ([("request_id", .str r.requestId.toString), ("status", .str r.status)] ++
    (r.payload.map fun v => ("payload", v)).toList ++
    (r.error.map fun e => ("error", Json.str e)).toList))

def encodeFailure (requestId : Uuid) (error : String) : List UInt8 :=
  FrameResponse.encode ⟨requestId, "error", none, some error⟩

/-! ### One request -/

section

variable [SharedAuth] [ApmeInterfaces]

/-- The payload of an answered list: a JSON value, so its objects hold their members in the
order of their names. -/
def listPayload (cases : List PersistedCase) : Json :=
  Json.toValue (.obj [("cases", .arr (cases.map ApmeInterfaces.persistedCaseJson)),
    ("mode", .str "stateful_mtls_tcp")])

/-- The encoding of an answered list. -/
def encodeList (requestId : Uuid) (cases : List PersistedCase) : List UInt8 :=
  FrameResponse.encode ⟨requestId, "ok", some (listPayload cases), none⟩

def execute (state : AppState) (bytes : List UInt8) : Prog apiSig (List UInt8) := do
  match FrameRequest.decode bytes with
  | none => return encodeFailure Uuid.nil "invalid_request"
  | some req =>
    match ← (authorizeToken state req.bearerToken req.tenantId [casesReadScope]).run with
    | .error e => return encodeFailure req.requestId e.code
    | .ok (_, context) =>
      match req.operation with
      | .listCases =>
        match ← (CaseService.listCases context).run with
        | .error _ => return encodeFailure req.requestId "temporarily_unavailable"
        | .ok cases =>
          let value := encodeList req.requestId cases
          return if value.length ≤ maxResponseBytes then value
            else encodeFailure req.requestId "response_too_large"

/-! ### One connection -/

/-- The codec that `serve_connection` builds. -/
def codec : Codec where
  maxFrameLength := maxRequestBytes
  lengthFieldLength := 4

/-- The loop of `serve_connection` with the requests that are left. -/
def serveRequests (state : AppState) : ℕ → ExceptT String (Prog apiSig) Unit
  | 0 => pure ()
  | n + 1 => do
    match ← request (.readFrame codec) with
    | .timedOut => throw "mTLS connection idle timeout"
    | .ended => pure ()
    | .failed => throw "read bounded mTLS frame"
    | .frame frame =>
      let response ← execute state frame
      if response.isEmpty ∨ maxResponseBytes < response.length then
        throw "invalid response frame length"
      else
        match ← request (.writeFrame codec response) with
        | .timedOut => throw "mTLS response timeout"
        | .failed message => throw message
        | .written => serveRequests state n

/-- One round of the loop. -/
theorem serveRequests_run_succ (state : AppState) (n : ℕ) :
    (serveRequests state (n + 1)).run = request (.readFrame codec) >>= fun
      | .timedOut => pure (.error "mTLS connection idle timeout")
      | .ended => pure (.ok ())
      | .failed => pure (.error "read bounded mTLS frame")
      | .frame frame => execute state frame >>= fun response =>
        if response.isEmpty ∨ maxResponseBytes < response.length then
          pure (.error "invalid response frame length")
        else request (.writeFrame codec response) >>= fun
          | .timedOut => pure (.error "mTLS response timeout")
          | .failed message => pure (.error message)
          | .written => (serveRequests state n).run := by
  rw [serveRequests, run_lift_bind]
  refine congrArg (request _ >>= ·) (funext fun r => ?_)
  cases r with
  | timedOut => rfl
  | ended => rfl
  | failed => rfl
  | frame frame =>
    rw [run_lift_bind]
    refine congrArg (execute state frame >>= ·) (funext fun response => ?_)
    split
    · rfl
    · rw [run_lift_bind]
      refine congrArg (request _ >>= ·) (funext fun w => ?_)
      cases w <;> rfl

def serveConnection (state : AppState) (config : Config) : ExceptT String (Prog apiSig) Unit :=
  serveRequests state config.maxRequestsPerConnection

end

end ApmeApi.Tcp
