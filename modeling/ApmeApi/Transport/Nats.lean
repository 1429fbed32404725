import ApmeApi.Types
import ApmeApi.Lib.Loop
import ApmeApi.Lib.MessageStream
import ApmeApi.Lib.Pool

/-!
# The durable status avenue

A worker pulls status requests from one JetStream stream and publishes a response for each to
another. `Worker.serve` is its loop, `handle` what it does with one message: a payload that
`decodeSignal` rejects is terminated; for any other, the response is published, its
acknowledgement awaited, and then the request acknowledged. Every error of a message leaves
`handle`, and with it the loop.

`connect` refuses a topology whose streams or consumer are not configured as the protocol needs
them, so a `Worker` carries the outcome of these checks.

The `Broker` is the other side. It keeps every response that was ever stored (what limits
retention deletes later is not followed), drops a publication whose message id was stored within
the duplicate window, and may deliver a request of the stream any number of times. A publication
in flight arrives at any later time or never, whatever the worker is told about it.
-/

namespace ApmeApi.Nats

open Interaction

def requestSubject : String := "apme.web_api.outbox.status"
def responseSubjectPrefix : String := "apme.web_api.inbox.status"
def requestSchema : String := "apme.async-status-request.v1"
def responseSchema : String := "apme.async-status-response.v1"
def maxSignalBytes : ℕ := 4 * 1024
def maxResponseBytes : ℕ := 64 * 1024

/-! ### Signals and responses -/

/-- `decode_signal`: the operation of a status request. -/
def decodeSignal (payload : List UInt8) : Option Uuid :=
  if maxSignalBytes < payload.length then none
  else do
    let members ← Json.readRecord (fun _ => Json.readString) ["schema", "operation_id"] payload
    let schema ← Json.field "schema" members
    let operationId ← (Json.field "operation_id" members).bind Uuid.parse
    if schema ≠ requestSchema then none else some operationId

structure StatusResponse where
  schema : String
  operationId : Uuid
  status : String
  service : String
  databaseReady : Bool

/-- `serde_json::to_vec(&StatusResponse)`. -/
def StatusResponse.encode (r : StatusResponse) : List UInt8 :=
  Json.render (.obj [("schema", .str r.schema), ("operation_id", .str r.operationId.toString),
    ("status", .str r.status), ("service", .str r.service),
    ("database_ready", .bool r.databaseReady)])

/-- What is sent to the response stream. -/
structure PublishMessage where
  subject : List Char
  messageId : String
  payload : List UInt8
  deriving DecidableEq

/-- The payload of the response to an operation. -/
def responsePayload (operationId : Uuid) : List UInt8 :=
  StatusResponse.encode ⟨responseSchema, operationId, "ok", "apme-api", true⟩

/-- The publication that answers an operation. -/
def response (operationId : Uuid) : PublishMessage where
  subject := responseSubjectPrefix.toList ++ '.' :: operationId.display
  messageId := "apme-status-response-" ++ operationId.toString
  payload := responsePayload operationId

/-! ### The topology -/

inductive StorageType where
  | file
  | memory
  deriving DecidableEq

inductive RetentionPolicy where
  | limits
  | interest
  | workQueue
  deriving DecidableEq

inductive AckPolicy where
  | explicit
  | none
  | all
  deriving DecidableEq

/-- What the worker reads of the configuration of a stream. -/
structure StreamConfig where
  storage : StorageType
  retention : RetentionPolicy
  allowDirect : Bool
  subjects : List String
  duplicateWindow : ℕ
  deriving DecidableEq

/-- What the worker reads of the configuration of its consumer. -/
structure ConsumerConfig where
  deliverSubject : Option String
  durableName : Option String
  ackPolicy : AckPolicy
  filterSubject : String
  maxDeliver : ℤ
  maxAckPending : ℤ
  deriving DecidableEq

/-- `anyhow::ensure!`. -/
def ensure (condition : Prop) [Decidable condition] (message : String) : Except String Unit :=
  if condition then .ok () else .error message

def validateRequestStream (config : StreamConfig) : Except String Unit := do
  ensure (config.storage = .file) "request stream must use file storage"
  ensure (config.retention = .workQueue) "request stream must use work-queue retention"
  ensure (requestSubject ∈ config.subjects) "request stream does not own canonical subject"
  ensure (config.duplicateWindow ≠ 0) "request stream requires dedupe"

def validateResponseStream (config : StreamConfig) : Except String Unit := do
  ensure (config.storage = .file) "response stream must use file storage"
  ensure (config.retention = .limits) "response stream must use limits retention"
  ensure (config.allowDirect = true) "response stream must allow direct reads"
  ensure (responseSubjectPrefix ++ ".*" ∈ config.subjects)
    "response stream does not own canonical subjects"
  ensure (config.duplicateWindow ≠ 0) "response stream requires dedupe"

def validateConsumer (config : ConsumerConfig) (expected : String) : Except String Unit := do
  ensure (config.deliverSubject = none) "consumer must be pull based"
  ensure (config.durableName = some expected) "consumer durable name mismatch"
  ensure (config.ackPolicy = .explicit) "consumer requires explicit acks"
  ensure (config.filterSubject = requestSubject) "consumer filter mismatch"
  ensure (2 ≤ config.maxDeliver ∧ config.maxDeliver ≤ 100) "consumer max_deliver out of bounds"
  ensure (1 ≤ config.maxAckPending ∧ config.maxAckPending ≤ 4096)
    "consumer max_ack_pending out of bounds"

def safeTopologyName (value : String) : Bool :=
  !value.isEmpty && (Text.utf8 value.toList).length ≤ 128 &&
    (Text.utf8 value.toList).all fun byte =>
      (0x30 ≤ byte && byte ≤ 0x39) || (0x41 ≤ byte && byte ≤ 0x5A) ||
        (0x61 ≤ byte && byte ≤ 0x7A) || byte = 0x5F || byte = 0x2D

/-- The settings of the avenue that are checked; the credentials stay in their file. -/
structure Config where
  url : String
  requestStream : String
  responseStream : String
  consumer : String
  deriving DecidableEq

def Config.validate (config : Config) : Except String Unit :=
  match Text.stripPrefix "tls://" config.url with
  | none => .error "APME_NATS_URL must use tls://"
  | some rest => do
    let authority := rest.toList.takeWhile (· ≠ '/')
    ensure (authority ≠ [] ∧ '@' ∉ authority)
      "NATS credentials must come from the credentials file"
    for value in [config.requestStream, config.responseStream, config.consumer] do
      ensure (safeTopologyName value = true) "invalid JetStream topology name"

/-- A connected worker: its streams and its consumer are configured as the protocol needs. -/
structure Worker where
  requestStream : StreamConfig
  responseStream : StreamConfig
  consumer : ConsumerConfig
  name : String
  request_valid : validateRequestStream requestStream = .ok ()
  response_valid : validateResponseStream responseStream = .ok ()
  consumer_valid : validateConsumer consumer name = .ok ()

/-- The checks of `Worker::connect` on what the broker reports. -/
def Worker.connect (config : Config) (requestStream responseStream : StreamConfig)
    (consumer : ConsumerConfig) : Except String Worker :=
  match config.validate with
  | .error e => .error e
  | .ok () =>
    match hrequest : validateRequestStream requestStream with
    | .error e => .error e
    | .ok () =>
      match hresponse : validateResponseStream responseStream with
      | .error e => .error e
      | .ok () =>
        match hconsumer : validateConsumer consumer config.consumer with
        | .error e => .error e
        | .ok () => .ok ⟨requestStream, responseStream, consumer, config.consumer, hrequest,
            hresponse, hconsumer⟩

theorem ensure_eq_ok {condition : Prop} [Decidable condition] {message : String} {u : Unit} :
    ensure condition message = .ok u ↔ condition := by
  rw [ensure]
  split <;> simp [*]

/-- A response stream that was accepted owns the subjects of the responses and drops
duplicates. -/
theorem validateResponseStream_ok {config : StreamConfig}
    (h : validateResponseStream config = .ok ()) :
    responseSubjectPrefix ++ ".*" ∈ config.subjects ∧ 0 < config.duplicateWindow := by
  simp only [validateResponseStream, bind, Except.bind] at h
  repeat' split at h
  all_goals first | cases h | skip
  simp only [ensure_eq_ok] at *
  exact ⟨by assumption, Nat.pos_of_ne_zero h⟩

/-! ### The worker -/

/-- A delivered request: its sequence number in the stream and its payload. -/
structure Message where
  sequence : ℕ
  payload : List UInt8
  deriving DecidableEq

/-- What the `select!` of the loop got first. -/
inductive Next where
  | shutdown
  | shutdownClosed
  | ended
  | failed
  | message (m : Message)
  deriving DecidableEq

/-- The awaited calls of the worker. -/
inductive BrokerCall where
  | messages
  | next
  | ackTerm (m : Message)
  | sendPublish (p : PublishMessage)
  | publishAck (ticket : ℕ)
  | ack (m : Message)

/-- An error of the client library, with its text. -/
structure BrokerError where
  text : String
  deriving DecidableEq

/-- The reply of each call. -/
abbrev BrokerCall.Reply : BrokerCall → Type
  | .messages => Except BrokerError Unit
  | .next => Next
  | .ackTerm _ => Except BrokerError Unit
  | .sendPublish _ => Except BrokerError ℕ
  | .publishAck _ => Except BrokerError Unit
  | .ack _ => Except BrokerError Unit

/-- The signature of the worker. -/
abbrev statusSig : Signature := ⟨BrokerCall, BrokerCall.Reply⟩

/-- An awaited call. -/
def await (c : BrokerCall) : Prog statusSig c.Reply := Prog.perform (S := statusSig) c

/-- What the worker does with one message. Encoding a `StatusResponse` does not fail. -/
def handle (message : Message) : ExceptT String (Prog statusSig) Unit := do
  match decodeSignal message.payload with
  | none =>
    match ← await (.ackTerm message) with
    | .error e => throw ("terminate invalid signal: " ++ e.text)
    | .ok () => pure ()
  | some operationId =>
    let payload := responsePayload operationId
    if maxResponseBytes < payload.length then
      throw "status response too large"
    else
      match ← await (.sendPublish (response operationId)) with
      | .error _ => throw "publish durable status response"
      | .ok ticket =>
        match ← await (.publishAck ticket) with
        | .error _ => throw "await durable status response acknowledgement"
        | .ok () =>
          match ← await (.ack message) with
          | .error e => throw ("ack request after durable response: " ++ e.text)
          | .ok () => pure ()

/-- One round of the loop of `serve`. -/
def serveRound : ExceptT String (Prog statusSig) (Option Unit) := do
  match ← await .next with
  | .shutdownClosed => throw "JetStream shutdown channel closed"
  | .shutdown => return some ()
  | .ended => throw "durable JetStream consumer ended"
  | .failed => throw "receive JetStream message"
  | .message m =>
    handle m
    return none

/-- `Worker::serve`, for the first `rounds` rounds of its loop. -/
def serve (rounds : ℕ) : ExceptT String (Prog statusSig) (Option Unit) := do
  match ← await .messages with
  | .error _ => throw "start durable JetStream pull consumer"
  | .ok () => Prog.loop serveRound rounds

/-! ### The broker -/

/-- What became of a request. -/
inductive Disposition where
  | pending
  | acked
  | terminated
  deriving DecidableEq

/-- A request in its stream. -/
structure Request where
  payload : List UInt8
  disposition : Disposition
  deriving DecidableEq

/-- A publication that was sent, and whether it has arrived. -/
structure Sent where
  publication : PublishMessage
  arrived : Bool
  deriving DecidableEq

/-- A stored response. -/
abbrev StoredResponse := MessageStream.Stored String PublishMessage

/-- The broker: the time, the request stream, the publications in the order in which they were
sent, and the response stream. -/
structure Broker where
  clock : ℕ
  requests : List Request
  sent : List Sent
  responses : List StoredResponse
  deriving DecidableEq

/-- The broker with empty streams. -/
def Broker.initial : Broker := ⟨0, [], [], []⟩

/-- A request that is pending gets its disposition; one that is not keeps it. -/
def Broker.settle (b : Broker) (m : Message) (d : Disposition) : Broker :=
  { b with requests := b.requests.modify m.sequence fun r =>
      if r.disposition = .pending then { r with disposition := d } else r }

/-- What the surroundings decide for a call: what the `select!` gets, that the call succeeds, that
it fails, or that it succeeds for the worker and its acknowledgement is lost on the way. -/
inductive Choice where
  | shutdown
  | shutdownClosed
  | ended
  | deliver (sequence : ℕ)
  | success
  | lost
  | failed (e : BrokerError)
  deriving DecidableEq

/-- The outcome of a call that sends an acknowledgement. -/
def Choice.settle (i : Choice) (m : Message) (d : Disposition) (b : Broker) :
    Except BrokerError Unit × Broker :=
  match i with
  | .success => (.ok (), b.settle m d)
  | .lost => (.ok (), b)
  | .failed e => (.error e, b)
  | _ => (.error ⟨""⟩, b)

/-- The outcome of waiting for the loop's next event. -/
def Choice.next (i : Choice) (b : Broker) : Next :=
  match i with
  | .shutdown => .shutdown
  | .shutdownClosed => .shutdownClosed
  | .ended => .ended
  | .deliver k => (b.requests[k]?).elim .failed fun r => .message ⟨k, r.payload⟩
  | _ => .failed

/-- The effect of each call. A publication that fails is not sent; its acknowledgement arrives only
after the publication did. -/
def exec (i : Choice) : (c : BrokerCall) → Broker → c.Reply × Broker
  | .messages, b => (if i = .success then .ok () else .error ⟨""⟩, b)
  | .next, b => (i.next b, b)
  | .ackTerm m, b => i.settle m .terminated b
  | .sendPublish p, b =>
    if i = .success then (.ok b.sent.length, { b with sent := b.sent ++ [⟨p, false⟩] })
    else (.error ⟨""⟩, b)
  | .publishAck ticket, b =>
    (if i = .success ∧ (b.sent[ticket]?.map Sent.arrived) = some true then .ok ()
      else .error ⟨""⟩, b)
  | .ack m, b => i.settle m .acked b

/-- The machine of the worker. -/
abbrev brokerMachine : Machine statusSig := ⟨Broker, Choice, exec⟩

@[simp]
theorem wp_await {G : List (Obs brokerMachine) → Obs brokerMachine → Prop} (c : BrokerCall)
    {Q : List (Obs brokerMachine) → c.Reply → Prop} (h : List (Obs brokerMachine)) :
    @wp statusSig (no_index c.Reply) brokerMachine G Q (await c) h ↔ ∀ (i : Choice) (b : Broker),
      G h ⟨i, b, c⟩ ∧ Q (h ++ [⟨i, b, c⟩]) (Obs.reply (M := brokerMachine) ⟨i, b, c⟩) :=
  Iff.rfl

/-- What happens besides the calls of the workers: time passes, a request is added to its stream,
a publication in flight arrives. -/
inductive BrokerAction where
  | elapse (time : ℕ)
  | request (payload : List UInt8)
  | arrive (ticket : ℕ)

/-- Whether a stream stores what is published under a subject. -/
def StreamConfig.owns (config : StreamConfig) (subject : List Char) : Bool :=
  config.subjects.any fun pattern =>
    MessageStream.captures (MessageStream.tokens pattern.toList) (MessageStream.tokens subject)

/-- A publication arrives: it is stored or dropped as a duplicate, if the stream owns its
subject. -/
def Broker.arrive (stream : StreamConfig) (b : Broker) (ticket : ℕ) : Broker :=
  match b.sent[ticket]? with
  | some ⟨p, false⟩ =>
    if stream.owns p.subject then
      { b with
        sent := b.sent.set ticket ⟨p, true⟩
        responses :=
          MessageStream.publish stream.duplicateWindow b.clock p.messageId p b.responses }
    else b
  | _ => b

/-- The effect of what happens besides the calls. -/
def brokerEnv (stream : StreamConfig) : BrokerAction → Broker → Broker
  | .elapse time, b => { b with clock := b.clock + time }
  | .request payload, b => { b with requests := b.requests ++ [⟨payload, .pending⟩] }
  | .arrive ticket, b => b.arrive stream ticket

/-- Any number of workers on one topology, each started for some number of rounds. A worker that
crashes makes no more calls, a restart is another worker. -/
abbrev statusSystem (w : Worker) : System where
  sig := statusSig
  machine := brokerMachine
  Request := ℕ
  Response := Except String (Option Unit)
  main := fun rounds => (serve rounds).run
  EnvAction := BrokerAction
  env := brokerEnv w.responseStream

end ApmeApi.Nats
