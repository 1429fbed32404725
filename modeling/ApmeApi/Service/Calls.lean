import ApmeApi.Store.Sql
import ApmeApi.Service.Socket
import ApmeApi.Lib.Pool

/-!
# The calls of the service and the world they act on

Every function of the service is an asynchronous function whose effects are awaited calls: of
the authentication guard, of protected introspection, of the database, of the clock, of the
broadcast channel, of an upgraded or framed connection. `Call` lists them with the data they
send, `Call.Reply` what comes back, and `exec` what each does to the `World`.

What the surroundings decide for one call is an `Input`: the outcome of the guard, the answer
of introspection, the failure of a database call (`Fault`), fresh identifiers, and what the
peer of a framed connection does. A database call is one transaction: it fails without an
effect, or it takes effect and the answer arrives or is lost.
-/

namespace ApmeApi

open Interaction Broadcast

/-! ### Headers -/

/-- A header map: names in lower case, values as bytes. -/
structure HeaderMap where
  entries : List (String × List UInt8)
  deriving DecidableEq

/-- `HeaderMap::get`: the first value under a name. -/
def HeaderMap.get (headers : HeaderMap) (name : String) : Option (List UInt8) :=
  (headers.entries.find? fun h => h.1 = name).map Prod.snd

/-- `HeaderValue::to_str`: the text of a value of visible ASCII characters and tabs. -/
def HeaderMap.toStr (value : List UInt8) : Option String :=
  if value.all fun b => (0x20 ≤ b && b < 0x7F) || b = 0x09 then
    some (String.ofList (value.map fun b => Char.ofNat b.toNat))
  else none

/-- `HeaderValue::from_str`: the bytes of a text without control bytes other than tab. -/
def HeaderMap.fromStr (s : String) : Option (List UInt8) :=
  let value := Text.utf8 s.toList
  if value.all fun b => (0x20 ≤ b && b ≠ 0x7F) || b = 0x09 then some value else none

/-- The text under a name, when there is one. -/
def HeaderMap.getStr (headers : HeaderMap) (name : String) : Option String :=
  (headers.get name).bind HeaderMap.toStr

/-! ### Shared Auth -/

/-- What the guard took from a credential. -/
structure Identity where
  sharedUserId : String
  sessionId : Option String
  isSandboxed : Bool
  deriving DecidableEq

/-- The authority that vouched for an identity. -/
inductive Authority where
  | sharedAuth
  | supabase
  deriving DecidableEq

/-- The outcome of the guard. -/
inductive AuthOutcome where
  | authenticated (identity : Identity) (authority : Authority)
  | anonymous
  | unauthenticated
  | degraded
  deriving DecidableEq

/-- An introspection response. -/
structure Introspection where
  active : Bool
  sub : Option String
  iss : Option String
  aud : Option String
  sid : Option String
  nbf : Option ℕ
  exp : Option ℕ
  scope : Option String
  deriving DecidableEq

/-- The function of `shared_auth_client` that the service calls on a response. -/
class SharedAuth where
  hasScope : Introspection → String → Bool

/-- A session of the authority: whose it is, when it expires (in seconds), whether it was
revoked. -/
structure Session where
  sessionId : String
  sharedUserId : String
  expiresAt : ℕ
  revoked : Bool
  deriving DecidableEq

/-! ### Failures of the surroundings -/

/-- `sqlx::Error`: an error raised in the database with its message, a missing row, or a
failure of the connection or the pool. -/
inductive SqlxError where
  | database (message : String)
  | rowNotFound
  | io
  deriving DecidableEq

/-- `error.as_database_error().map(|value| value.message())`. -/
def SqlxError.databaseMessage : SqlxError → Option String
  | .database message => some message
  | _ => none

/-- The failure of one database call: none, one before it takes effect, or the loss of the
answer after it took effect. -/
inductive Fault where
  | none
  | lost (e : SqlxError)
  | ackLost
  deriving DecidableEq

/-- The answer of a query. -/
def Fault.answer {α : Type} (fault : Fault) (a : α) : Except SqlxError α :=
  match fault with
  | .none => .ok a
  | .lost e => .error e
  | .ackLost => .error .io

/-! ### Framed connections -/

/-- The settings of a `LengthDelimitedCodec`. -/
structure Codec where
  maxFrameLength : ℕ
  lengthFieldLength : ℕ
  deriving DecidableEq

/-- What the next frame of a connection turns out to be. -/
inductive FrameRead where
  | frame (bytes : List UInt8)
  | ended
  | failed
  | timedOut
  deriving DecidableEq

/-- What became of a frame to be written. A failure is that of the encoder or of the connection,
with its text. -/
inductive FrameWrite where
  | written
  | failed (message : String)
  | timedOut
  deriving DecidableEq

/-- The decoder fails on a frame above the maximal length. -/
def Codec.decode (codec : Codec) : FrameRead → FrameRead
  | .frame bytes => if codec.maxFrameLength < bytes.length then .failed else .frame bytes
  | r => r

/-- The encoder fails on a frame above the maximal length. -/
def Codec.encode (codec : Codec) (bytes : List UInt8) (w : FrameWrite) : FrameWrite :=
  if codec.maxFrameLength < bytes.length then .failed "frame size too big" else w

/-! ### The world -/

/-- What the tasks of the process and its surroundings share. `clock` is the present time,
`published` all events sent on the broadcast channel, `sockets` the upgraded connections in
the order of their handshakes. -/
structure World where
  db : Db
  clock : DateTime
  sessions : List Session
  published : List TenantEvent
  sockets : List Socket
  deriving DecidableEq

/-- The world before the first request. -/
def World.initial (db : Db) (clock : DateTime) : World := ⟨db, clock, [], [], []⟩

/-- The effect and the answer of a transaction. -/
def World.transaction {α : Type} (w : World) (fault : Fault) (result : Except String (Db × α)) :
    Except SqlxError α × World :=
  match fault, result with
  | .lost e, _ => (.error e, w)
  | _, .error message => (.error (.database message), w)
  | .none, .ok (db, a) => (.ok a, { w with db := db })
  | .ackLost, .ok (db, _) => (.error .io, { w with db := db })

/-! ### Calls -/

/-- The effects of the service. -/
inductive Call where
  | guardCheck (headers : HeaderMap)
  | introspect (bearer audience : String) (requiredScopes : List String)
  | unixNow
  | utcNow
  | selectMembership (tenantId : Uuid) (sharedUserId : String)
  | selectCases (tenantId : Uuid)
  | selectCase (tenantId caseId : Uuid)
  | selectEvent (tenantId eventId : Uuid)
  | countCases
  | appendAudit (args : AppendAuditArgs)
  | mutate (m : SqlMutation)
  | applyRetention (now : DateTime) (actor : String)
  | publish (event : TenantEvent)
  | onUpgrade (subscription : CaseSubscription)
  | readFrame (codec : Codec)
  | writeFrame (codec : Codec) (bytes : List UInt8)

/-- The reply of each call. -/
abbrev Call.Reply : Call → Type
  | .guardCheck _ => AuthOutcome
  | .introspect _ _ _ => Option Introspection
  | .unixNow => ℕ
  | .utcNow => DateTime
  | .selectMembership _ _ => Except SqlxError (Option (Uuid × String))
  | .selectCases _ => Except SqlxError (List CaseRow)
  | .selectCase _ _ => Except SqlxError (Option CaseRow)
  | .selectEvent _ _ => Except SqlxError (Option EventRow)
  | .countCases => Except SqlxError ℕ
  | .appendAudit _ => Except SqlxError Unit
  | .mutate _ => Except SqlxError MutationRow
  | .applyRetention _ _ => Except SqlxError ℤ
  | .publish _ => Unit
  | .onUpgrade _ => Unit
  | .readFrame _ => FrameRead
  | .writeFrame _ _ => FrameWrite

/-- The signature of the service. -/
abbrev apiSig : Signature := ⟨Call, Call.Reply⟩

/-- What the surroundings decide for one call. -/
structure Input where
  guard : AuthOutcome := .anonymous
  introspection : Option Introspection := none
  fault : Fault := .none
  draw : Draw := fun _ => Uuid.nil
  read : FrameRead := .ended
  write : FrameWrite := .written

/-- The effect of each call. -/
def exec (sql : SqlFunctions) (i : Input) : (c : Call) → World → c.Reply × World
  | .guardCheck _, w => (i.guard, w)
  | .introspect _ _ _, w => (i.introspection, w)
  | .unixNow, w => ((w.clock / 1000000000).toNat, w)
  | .utcNow, w => (w.clock, w)
  | .selectMembership t u, w => (i.fault.answer (w.db.selectMembership t u), w)
  | .selectCases t, w => (i.fault.answer (w.db.selectCases t), w)
  | .selectCase t c, w => (i.fault.answer (w.db.selectCase t c), w)
  | .selectEvent t e, w => (i.fault.answer (w.db.selectEvent t e), w)
  | .countCases, w => (i.fault.answer w.db.cases.length, w)
  | .appendAudit a, w =>
    w.transaction i.fault ((sql.apmeAppendAudit a i.draw w.db).map fun db => (db, ()))
  | .mutate m, w => w.transaction i.fault (sql.mutate m i.draw w.db)
  | .applyRetention now actor, w =>
    w.transaction i.fault (sql.apmeApplyRetention now actor i.draw w.db)
  | .publish event, w => ((), { w with published := w.published ++ [event] })
  | .onUpgrade s, w =>
    ((), { w with sockets := w.sockets ++ [Socket.start (subscribe w.published) s] })
  | .readFrame codec, w => (codec.decode i.read, w)
  | .writeFrame codec bytes, w => (codec.encode bytes i.write, w)

/-- The machine of the service. -/
abbrev apiMachine (sql : SqlFunctions) : Machine apiSig := ⟨World, Input, exec sql⟩

end ApmeApi
