import ApmeApi.Store.Tables

/-!
# The SQL functions of the persistence schema

The mutations of the service, its audit records and its retention are functions of the
database, declared by the migration of `apme-interfaces`. Here they are parameters
(`SqlFunctions`): a call either raises an error message and changes nothing, or returns the new
database and the row it selects, which makes each call one atomic transaction. What the
service relies on is stated of them as contracts:

* `SqlContract`: the idempotency protocol of the three mutations, and what all functions keep;
* `SqlTenantLocal`: a function called with a tenant reads and writes that tenant's rows only.

`Draw` is the supply of fresh values (`gen_random_uuid()`) of one call.
-/

namespace ApmeApi

/-- The fresh identifiers that one call of a SQL function draws. -/
abbrev Draw := ℕ → Uuid

/-- The arguments of `apme_create_case`. -/
structure CreateCaseArgs where
  tenantId : Uuid
  sharedUserId : String
  idempotencyKey : String
  requestHash : List UInt8
  title : String
  summary : String
  clientReference : String
  destinationCountry : String
  documentType : String
  nextActionDueAt : Option DateTime
  retentionClass : String
  retainUntil : DateTime
  objectReference : Option String
  ciphertextSha256 : Option String
  keyVersion : Option ℤ
  now : DateTime
  deriving DecidableEq

/-- The arguments of `apme_transition_case`. -/
structure TransitionCaseArgs where
  tenantId : Uuid
  sharedUserId : String
  caseId : Uuid
  expectedVersion : ℤ
  toStatus : String
  idempotencyKey : String
  requestHash : List UInt8
  now : DateTime
  deriving DecidableEq

/-- The arguments of `apme_rotate_case_object`. -/
structure RotateCaseObjectArgs where
  tenantId : Uuid
  sharedUserId : String
  caseId : Uuid
  expectedVersion : ℤ
  idempotencyKey : String
  requestHash : List UInt8
  objectReference : String
  ciphertextSha256 : String
  keyVersion : ℤ
  now : DateTime
  deriving DecidableEq

/-- The arguments of `apme_append_audit`. -/
structure AppendAuditArgs where
  tenantId : Uuid
  action : String
  actor : String
  resourceKind : String
  resourceId : Uuid
  occurredAt : DateTime
  deriving DecidableEq

/-- A call of one of the three mutations. -/
inductive SqlMutation where
  | createCase (args : CreateCaseArgs)
  | transitionCase (args : TransitionCaseArgs)
  | rotateCaseObject (args : RotateCaseObjectArgs)
  deriving DecidableEq

namespace SqlMutation

/-- The key of the idempotency record that the call uses. -/
def key : SqlMutation → IdempotencyKey
  | .createCase a => ⟨a.tenantId, a.sharedUserId, a.idempotencyKey⟩
  | .transitionCase a => ⟨a.tenantId, a.sharedUserId, a.idempotencyKey⟩
  | .rotateCaseObject a => ⟨a.tenantId, a.sharedUserId, a.idempotencyKey⟩

/-- The hash of the request. -/
def requestHash : SqlMutation → List UInt8
  | .createCase a => a.requestHash
  | .transitionCase a => a.requestHash
  | .rotateCaseObject a => a.requestHash

/-- The tenant of the call. -/
def tenantId (m : SqlMutation) : Uuid := m.key.tenantId

end SqlMutation

/-- `select case_id, case_version, event_id, encode(event_hash, 'hex') as event_hash, replayed`
from a mutation. -/
structure MutationRow where
  caseId : Uuid
  caseVersion : ℤ
  eventId : Uuid
  eventHash : String
  replayed : Bool
  deriving DecidableEq

/-- The row that a reuse of a recorded key returns. -/
def IdempotencyRow.replayRow (r : IdempotencyRow) : MutationRow :=
  ⟨r.caseId, r.caseVersion, r.eventId, r.eventHash, true⟩

/-- The record that the first use of a key leaves. -/
def MutationRow.record (row : MutationRow) (m : SqlMutation) : IdempotencyRow :=
  ⟨m.key, m.requestHash, row.caseId, row.caseVersion, row.eventId, row.eventHash⟩

/-- The functions of the migration that the service calls. -/
structure SqlFunctions where
  apmeCreateCase : CreateCaseArgs → Draw → Db → Except String (Db × MutationRow)
  apmeTransitionCase : TransitionCaseArgs → Draw → Db → Except String (Db × MutationRow)
  apmeRotateCaseObject : RotateCaseObjectArgs → Draw → Db → Except String (Db × MutationRow)
  apmeAppendAudit : AppendAuditArgs → Draw → Db → Except String Db
  apmeApplyRetention : DateTime → String → Draw → Db → Except String (Db × ℤ)

/-- A call of one of the three mutations. -/
def SqlFunctions.mutate (sql : SqlFunctions) :
    SqlMutation → Draw → Db → Except String (Db × MutationRow)
  | .createCase a => sql.apmeCreateCase a
  | .transitionCase a => sql.apmeTransitionCase a
  | .rotateCaseObject a => sql.apmeRotateCaseObject a

/-- **What the service relies on.** The first use of a key commits, answers `replayed = false`
and records key and ids; reuse with the same request hash answers the recorded ids with
`replayed = true` and changes nothing; reuse with another hash is refused. A first use draws an
event id that is new in the tenant and stores its event. No function touches stored events and
idempotency records. -/
structure SqlContract (sql : SqlFunctions) : Prop where
  first : ∀ {m d db db' row}, sql.mutate m d db = .ok (db', row) → db.findKey m.key = none →
    row.replayed = false ∧ db'.findKey m.key = some (row.record m)
  replay : ∀ {m d db rec}, db.findKey m.key = some rec → rec.requestHash = m.requestHash →
    sql.mutate m d db = .ok (db, rec.replayRow)
  conflict : ∀ {m d db rec}, db.findKey m.key = some rec → rec.requestHash ≠ m.requestHash →
    ∃ message, sql.mutate m d db = .error message ∧
      Text.contains "APME_IDEMPOTENCY_CONFLICT" message = true
  eventFresh : ∀ {m d db db' row}, sql.mutate m d db = .ok (db', row) → row.replayed = false →
    db.selectEvent m.tenantId row.eventId = none
  eventStored : ∀ {m d db db' row}, sql.mutate m d db = .ok (db', row) → row.replayed = false →
    ∃ ev, db'.selectEvent m.tenantId row.eventId = some ev ∧ ev.caseId = row.caseId ∧
      ev.caseVersion = row.caseVersion
  mutateKeeps : ∀ {m d db db' row}, sql.mutate m d db = .ok (db', row) → Db.Keeps db db'
  auditKeeps : ∀ {a d db db'}, sql.apmeAppendAudit a d db = .ok db' → Db.Keeps db db'
  retentionKeeps : ∀ {now actor d db db' n}, sql.apmeApplyRetention now actor d db = .ok (db', n) →
    Db.Keeps db db'

namespace SqlContract

variable {sql : SqlFunctions} (hsql : SqlContract sql) {m : SqlMutation} {d : Draw} {db db' : Db}
  {row : MutationRow}
include hsql

/-- **Inversion of a mutation.** It was the first use of its key, or it found the record of an
equal request and changed nothing. -/
theorem mutate_cases (h : sql.mutate m d db = .ok (db', row)) :
    (db.findKey m.key = none ∧ row.replayed = false ∧ db'.findKey m.key = some (row.record m)) ∨
      ∃ rec, db.findKey m.key = some rec ∧ rec.requestHash = m.requestHash ∧ db' = db ∧
        row = rec.replayRow := by
  cases hk : db.findKey m.key with
  | none => exact .inl ⟨rfl, hsql.first h hk⟩
  | some rec =>
    refine .inr ⟨rec, rfl, ?_⟩
    by_cases hr : rec.requestHash = m.requestHash
    · rw [hsql.replay hk hr, Except.ok.injEq, Prod.mk.injEq] at h
      exact ⟨hr, h.1.symm, h.2.symm⟩
    · obtain ⟨message, he, -⟩ := hsql.conflict (d := d) hk hr
      rw [he] at h
      cases h

/-- After a mutation its key is recorded with the ids of the row it answered. -/
theorem mutate_recorded (h : sql.mutate m d db = .ok (db', row)) :
    ∃ rec, db'.findKey m.key = some rec ∧ rec.requestHash = m.requestHash ∧
      rec.replayRow = { row with replayed := true } := by
  rcases hsql.mutate_cases h with ⟨-, -, hrec⟩ | ⟨rec, hk, hr, rfl, rfl⟩
  · exact ⟨_, hrec, rfl, rfl⟩
  · exact ⟨rec, hk, hr, rfl⟩

/-- A mutation that answers `replayed = false` found its key unused. -/
theorem findKey_of_fresh (h : sql.mutate m d db = .ok (db', row)) (hr : row.replayed = false) :
    db.findKey m.key = none := by
  rcases hsql.mutate_cases h with ⟨hk, -⟩ | ⟨rec, -, -, -, rfl⟩
  · exact hk
  · cases hr

end SqlContract

/-- The mutation reads and writes the rows of its tenant only: from databases that the tenant
cannot tell apart it answers alike and leaves databases that the tenant cannot tell apart. -/
def TenantLocalResult {α : Type} (t : Uuid) (r r' : Except String (Db × α)) : Prop :=
  match r, r' with
  | .ok (db, a), .ok (db', a') => Db.Agree t db db' ∧ a = a'
  | .error e, .error e' => e = e'
  | _, _ => False

/-- **Tenant locality** of the functions that are called with a tenant. -/
structure SqlTenantLocal (sql : SqlFunctions) : Prop where
  mutate : ∀ {m d db db'}, Db.Agree m.tenantId db db' →
    TenantLocalResult m.tenantId (sql.mutate m d db) (sql.mutate m d db')
  audit : ∀ {a d db db'}, Db.Agree a.tenantId db db' →
    TenantLocalResult a.tenantId ((sql.apmeAppendAudit a d db).map fun x => (x, ()))
      ((sql.apmeAppendAudit a d db').map fun x => (x, ()))

end ApmeApi
