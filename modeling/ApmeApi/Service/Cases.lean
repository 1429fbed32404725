import ApmeApi.Service.Calls

/-!
# The case service

The operations of `CaseService`, in the order in which the code checks, calls and reads. Each is
a program with an early error return; its awaited calls are those of `Call`.

The three mutations share their shape: everything before the SQL call is decided by the
arguments (`createMutation`, `transitionMutation`, `rotateMutation`), the rest is `commit`, the
SQL call followed by the two reads of `mutationResult`. `CommitRun` lists the complete executions
of `commit`; `createCase_eq` and its siblings reduce the operations to it.
-/

namespace ApmeApi

open Interaction

/-- `CaseServiceError`. -/
inductive CaseServiceError where
  | notAuthorized
  | notFound
  | idempotencyConflict
  | staleVersion
  | invalidTransition
  | keyVersionRollback
  | validation (message : String)
  | storage (e : SqlxError)
  deriving DecidableEq

/-- Programs of the case service. -/
abbrev CaseM := ExceptT CaseServiceError (Prog apiSig)

/-- One awaited call. -/
def request (c : Call) : Prog apiSig c.Reply := Prog.perform (S := apiSig) c

@[simp]
theorem wp_request {sql : SqlFunctions}
    {G : List (Obs (apiMachine sql)) → Obs (apiMachine sql) → Prop} (c : Call)
    {Q : List (Obs (apiMachine sql)) → c.Reply → Prop}
    (h : List (Obs (apiMachine sql))) :
    @wp apiSig (no_index c.Reply) (apiMachine sql) G Q (request c) h ↔ ∀ (i : Input) (w : World),
      G h ⟨i, w, c⟩ ∧ Q (h ++ [⟨i, w, c⟩]) (Obs.reply (M := apiMachine sql) ⟨i, w, c⟩) :=
  Iff.rfl

namespace CaseService

/-! ### Names and rows -/

def parseRole (value : String) : Except CaseServiceError TenantRole :=
  if value = "viewer" then .ok .viewer
  else if value = "agent" then .ok .agent
  else if value = "administrator" then .ok .administrator
  else .error .notAuthorized

def parseStatus (value : String) : Except CaseServiceError CaseStatus :=
  if value = "intake" then .ok .intake
  else if value = "collecting_documents" then .ok .collectingDocuments
  else if value = "review" then .ok .review
  else if value = "submitted" then .ok .submitted
  else if value = "completed" then .ok .completed
  else if value = "closed" then .ok .closed
  else .error (.validation "unknown persisted case status")

def statusName : CaseStatus → String
  | .intake => "intake"
  | .collectingDocuments => "collecting_documents"
  | .review => "review"
  | .submitted => "submitted"
  | .completed => "completed"
  | .closed => "closed"

def parseRetention (value : String) : Except CaseServiceError RetentionClass :=
  if value = "standard" then .ok .standard
  else if value = "extended" then .ok .extended
  else if value = "legal_hold_eligible" then .ok .legalHoldEligible
  else .error (.validation "unknown persisted retention class")

def retentionName : RetentionClass → String
  | .standard => "standard"
  | .extended => "extended"
  | .legalHoldEligible => "legal_hold_eligible"

/-- What the service writes as a status, it reads back. -/
theorem parseStatus_statusName (s : CaseStatus) : parseStatus (statusName s) = .ok s := by
  cases s <;> decide

/-- What the service writes as a retention class, it reads back. -/
theorem parseRetention_retentionName (r : RetentionClass) :
    parseRetention (retentionName r) = .ok r := by
  cases r <;> decide

/-- The document of a row: all three columns, or none of them. -/
def documentFromRow (row : CaseRow) : Except CaseServiceError (Option EncryptedObjectReference) :=
  match row.encryptedObjectReference, row.ciphertextSha256, row.objectKeyVersion with
  | some objectReference, some ciphertextSha256, some keyVersion =>
    .ok (some ⟨objectReference, ciphertextSha256, keyVersion⟩)
  | none, none, none => .ok none
  | _, _, _ => .error (.validation "incomplete encrypted object reference in persistence")

def caseFromRow (row : CaseRow) : Except CaseServiceError PersistedCase := do
  let status ← parseStatus row.status
  let retentionClass ← parseRetention row.retentionClass
  let encryptedDocument ← documentFromRow row
  return {
    id := row.id
    tenantId := row.tenantId
    version := row.version
    title := row.title
    summary := row.summary
    clientReference := row.clientReference
    destinationCountry := row.destinationCountry
    documentType := row.documentType
    nextActionDueAt := row.nextActionDueAt
    status := status
    retentionClass := retentionClass
    retainUntil := row.retainUntil
    legalHold := row.legalHold
    tombstonedAt := row.tombstonedAt
    encryptedDocument := encryptedDocument
    createdAt := row.createdAt
    updatedAt := row.updatedAt }

/-- A decoded case keeps the identity of its row, and a row that is refused is refused as
invalid. -/
theorem caseFromRow_cases (row : CaseRow) :
    (∃ c, caseFromRow row = .ok c ∧ c.id = row.id ∧ c.tenantId = row.tenantId ∧
      c.version = row.version) ∨
    ∃ message, caseFromRow row = .error (.validation message) := by
  have hstatus : (∃ s, parseStatus row.status = .ok s) ∨
      parseStatus row.status = .error (.validation "unknown persisted case status") := by
    unfold parseStatus
    split_ifs <;> simp
  have hretention : (∃ r, parseRetention row.retentionClass = .ok r) ∨
      parseRetention row.retentionClass =
        .error (.validation "unknown persisted retention class") := by
    unfold parseRetention
    split_ifs <;> simp
  have hdocument : (∃ d, documentFromRow row = .ok d) ∨ documentFromRow row =
      .error (.validation "incomplete encrypted object reference in persistence") := by
    unfold documentFromRow
    split <;> simp
  rcases hstatus with ⟨s, hs⟩ | hs
  · rcases hretention with ⟨r, hr⟩ | hr
    · rcases hdocument with ⟨d, hd⟩ | hd
      · exact .inl ⟨_, by rw [caseFromRow, hs, hr, hd]; rfl, rfl, rfl, rfl⟩
      · exact .inr ⟨_, by rw [caseFromRow, hs, hr, hd]; rfl⟩
    · exact .inr ⟨_, by rw [caseFromRow, hs, hr]; rfl⟩
  · exact .inr ⟨_, by rw [caseFromRow, hs]; rfl⟩

/-- **A decoded case** has the columns of its row, with status, retention class and document
decoded. -/
theorem caseFromRow_eq_ok {row : CaseRow} {c : PersistedCase} (h : caseFromRow row = .ok c) :
    parseStatus row.status = .ok c.status ∧ documentFromRow row = .ok c.encryptedDocument ∧
      c.id = row.id ∧ c.tenantId = row.tenantId ∧ c.version = row.version ∧
      c.tombstonedAt = row.tombstonedAt ∧ c.createdAt = row.createdAt := by
  rw [caseFromRow] at h
  cases hs : parseStatus row.status with
  | error e =>
    rw [hs] at h
    cases h
  | ok s =>
    cases hr : parseRetention row.retentionClass with
    | error e =>
      rw [hs, hr] at h
      cases h
    | ok r =>
      cases hd : documentFromRow row with
      | error e =>
        rw [hs, hr, hd] at h
        cases h
      | ok d =>
        rw [hs, hr, hd] at h
        obtain rfl := Except.ok.inj h
        exact ⟨rfl, rfl, rfl, rfl, rfl, rfl, rfl⟩

/-- A status that is read is written the same way. -/
theorem statusName_of_parseStatus {value : String} {s : CaseStatus}
    (h : parseStatus value = .ok s) : statusName s = value := by
  unfold parseStatus at h
  split_ifs at h <;> obtain rfl := Except.ok.inj h <;> exact Eq.symm ‹_›

/-! ### Checks before the database -/

/-- `canonical_hash`: the digest of the JSON text of a value. Serializing a command does not
fail. -/
def canonicalHash [Sha2] (value : Json) : List UInt8 := Sha2.sha256 value.render

def validateIdempotencyKey (value : String) : Except CaseServiceError Unit :=
  if value.isEmpty || 200 < value.utf8ByteSize || value.toList.any Text.isControl then
    .error (.validation "Idempotency-Key must contain 1 through 200 visible characters")
  else .ok ()

def requireMutator [ApmeInterfaces] (context : TenantContext) : Except CaseServiceError Unit :=
  if ApmeInterfaces.canCreateOrTransition context.role then .ok () else .error .notAuthorized

/-- `map_sql_error`: the errors that the SQL functions raise by name. -/
def mapSqlError (error : SqlxError) : CaseServiceError :=
  let message := error.databaseMessage.getD ""
  if Text.contains "APME_NOT_AUTHORIZED" message then .notAuthorized
  else if Text.contains "APME_CASE_NOT_FOUND" message then .notFound
  else if Text.contains "APME_IDEMPOTENCY_CONFLICT" message then .idempotencyConflict
  else if Text.contains "APME_STALE_VERSION" message then .staleVersion
  else if Text.contains "APME_INVALID_TRANSITION" message then .invalidTransition
  else if Text.contains "APME_KEY_VERSION_ROLLBACK" message then .keyVersionRollback
  else if Text.contains "APME_CASE_OBJECT_NOT_FOUND" message then .notFound
  else .storage error

/-- A check that passes is followed by what comes after it. -/
theorem check_bind_eq_ok {α : Type} {x : Except CaseServiceError Unit}
    {f : Except CaseServiceError α} {a : α} :
    (x >>= fun _ => f) = .ok a ↔ x = .ok () ∧ f = .ok a := by
  cases x with
  | error e => exact ⟨fun h => (by cases h), fun h => (by cases h.1)⟩
  | ok u => exact ⟨fun h => ⟨rfl, h⟩, fun h => h.2⟩

theorem mapError_eq_ok {ε ε' : Type} {f : ε → ε'} {x : Except ε Unit} :
    x.mapError f = .ok () ↔ x = .ok () := by
  cases x <;> simp [Except.mapError]

/-! ### Membership, reads and audit -/

def tenantContext (subject : VerifiedSubject) (tenantId : Uuid) : CaseM TenantContext := do
  let rows ← request (.selectMembership tenantId subject.sharedUserId)
  match ← Prog.ofExcept (rows.mapError .storage) with
  | none => throw .notAuthorized
  | some (organizationId, roleName) =>
    let role ← Prog.ofExcept (parseRole roleName)
    return { tenantId := tenantId, organizationId := organizationId, role := role }

def listCases (context : TenantContext) : CaseM (List PersistedCase) := do
  let rows ← request (.selectCases context.tenantId)
  let rows ← Prog.ofExcept (rows.mapError .storage)
  Prog.ofExcept (rows.mapM caseFromRow)

def getCase (context : TenantContext) (caseId : Uuid) : CaseM PersistedCase := do
  let row ← request (.selectCase context.tenantId caseId)
  match ← Prog.ofExcept (row.mapError .storage) with
  | none => throw .notFound
  | some row => Prog.ofExcept (caseFromRow row)

def recordAccess (context : TenantContext) (subject : VerifiedSubject) (resourceId : Uuid) :
    CaseM Unit := do
  let now ← request .utcNow
  let done ← request (.appendAudit {
    tenantId := context.tenantId
    action := "access"
    actor := subject.sharedUserId
    resourceKind := "case"
    resourceId := resourceId
    occurredAt := now })
  Prog.ofExcept (done.mapError .storage)

def applyRetention (now : DateTime) (actor : String) : CaseM ℤ := do
  let affected ← request (.applyRetention now actor)
  Prog.ofExcept (affected.mapError .storage)

/-! ### Mutations -/

/-- The two reads after a mutation. `fetch_one` fails when the event has no row. -/
def mutationResult (context : TenantContext) (mutation : MutationRow) :
    CaseM CaseMutationResult := do
  let case ← getCase context mutation.caseId
  let event ← request (.selectEvent context.tenantId mutation.eventId)
  match ← Prog.ofExcept (event.mapError .storage) with
  | none => throw (.storage .rowNotFound)
  | some event =>
    return {
      case := case
      event := {
        eventId := mutation.eventId
        tenantId := event.tenantId
        caseId := event.caseId
        caseVersion := event.caseVersion
        eventType := event.eventType
        occurredAt := event.occurredAt
        eventHash := mutation.eventHash }
      replayed := mutation.replayed }

variable [ApmeInterfaces] [Sha2]

/-- The SQL call of a creation, with its bound values. -/
def createCaseCall (context : TenantContext) (subject : VerifiedSubject) (idempotencyKey : String)
    (command : CreateCaseCommand) (now : DateTime) : SqlMutation :=
  let document := command.encryptedDocument
  .createCase {
    tenantId := context.tenantId
    sharedUserId := subject.sharedUserId
    idempotencyKey := idempotencyKey
    requestHash := canonicalHash (.arr [.num 1, command.toJson])
    title := command.title
    summary := command.summary
    clientReference := command.clientReference
    destinationCountry := command.destinationCountry
    documentType := command.documentType
    nextActionDueAt := command.nextActionDueAt
    retentionClass := retentionName command.retentionClass
    retainUntil := command.retainUntil
    objectReference := document.map EncryptedObjectReference.objectReference
    ciphertextSha256 := document.map EncryptedObjectReference.ciphertextSha256
    keyVersion := document.map EncryptedObjectReference.keyVersion
    now := now }

/-- The SQL call of a transition, with its bound values. -/
def transitionCaseCall (context : TenantContext) (subject : VerifiedSubject) (caseId : Uuid)
    (idempotencyKey : String) (command : TransitionCaseCommand) (now : DateTime) : SqlMutation :=
  .transitionCase {
    tenantId := context.tenantId
    sharedUserId := subject.sharedUserId
    caseId := caseId
    expectedVersion := command.expectedVersion
    toStatus := statusName command.toStatus
    idempotencyKey := idempotencyKey
    requestHash := canonicalHash (.arr [.num 1, .str caseId.toString, command.toJson])
    now := now }

/-- The SQL call of a rotation, with its bound values. -/
def rotateCaseObjectCall (context : TenantContext) (subject : VerifiedSubject) (caseId : Uuid)
    (idempotencyKey : String) (command : RotateEncryptedObjectCommand) (now : DateTime) :
    SqlMutation :=
  let document := command.encryptedDocument
  .rotateCaseObject {
    tenantId := context.tenantId
    sharedUserId := subject.sharedUserId
    caseId := caseId
    expectedVersion := command.expectedVersion
    idempotencyKey := idempotencyKey
    requestHash := canonicalHash (.arr [.num 1, .str caseId.toString, command.toJson])
    objectReference := document.objectReference
    ciphertextSha256 := document.ciphertextSha256
    keyVersion := document.keyVersion
    now := now }

def createCase (context : TenantContext) (subject : VerifiedSubject) (idempotencyKey : String)
    (command : CreateCaseCommand) (now : DateTime) : CaseM CaseMutationResult := do
  Prog.ofExcept (requireMutator context)
  Prog.ofExcept (validateIdempotencyKey idempotencyKey)
  Prog.ofExcept ((ApmeInterfaces.validateCreate command now).mapError .validation)
  let row ← request (.mutate (createCaseCall context subject idempotencyKey command now))
  let row ← Prog.ofExcept (row.mapError mapSqlError)
  mutationResult context row

/-- `expected_version` of a transition or a rotation. -/
def validateExpectedVersion (expectedVersion : ℤ) : Except CaseServiceError Unit :=
  if expectedVersion ≤ 0 then .error (.validation "expected_version must be positive") else .ok ()

def transitionCase (context : TenantContext) (subject : VerifiedSubject) (caseId : Uuid)
    (idempotencyKey : String) (command : TransitionCaseCommand) (now : DateTime) :
    CaseM CaseMutationResult := do
  Prog.ofExcept (requireMutator context)
  Prog.ofExcept (validateIdempotencyKey idempotencyKey)
  Prog.ofExcept (validateExpectedVersion command.expectedVersion)
  let row ← request (.mutate
    (transitionCaseCall context subject caseId idempotencyKey command now))
  let row ← Prog.ofExcept (row.mapError mapSqlError)
  mutationResult context row

/-- The role check of a rotation. -/
def requireExporter (context : TenantContext) : Except CaseServiceError Unit :=
  if ApmeInterfaces.canExportOrDelete context.role then .ok () else .error .notAuthorized

def rotateEncryptedObject (context : TenantContext) (subject : VerifiedSubject) (caseId : Uuid)
    (idempotencyKey : String) (command : RotateEncryptedObjectCommand) (now : DateTime) :
    CaseM CaseMutationResult := do
  Prog.ofExcept (requireExporter context)
  Prog.ofExcept (validateIdempotencyKey idempotencyKey)
  Prog.ofExcept (validateExpectedVersion command.expectedVersion)
  Prog.ofExcept
    ((ApmeInterfaces.validateDocument command.encryptedDocument).mapError .validation)
  let row ← request (.mutate
    (rotateCaseObjectCall context subject caseId idempotencyKey command now))
  let row ← Prog.ofExcept (row.mapError mapSqlError)
  mutationResult context row

/-! ### The common shape of the mutations -/

/-- What follows the checks of a mutation: the SQL call and the two reads. -/
def commit (context : TenantContext) (m : SqlMutation) : CaseM CaseMutationResult := do
  let row ← request (.mutate m)
  let row ← Prog.ofExcept (row.mapError mapSqlError)
  mutationResult context row

/-- The checks of a creation, and the SQL call it then makes. -/
def createMutation (context : TenantContext) (subject : VerifiedSubject)
    (idempotencyKey : String) (command : CreateCaseCommand) (now : DateTime) :
    Except CaseServiceError SqlMutation := do
  requireMutator context
  validateIdempotencyKey idempotencyKey
  (ApmeInterfaces.validateCreate command now).mapError .validation
  return createCaseCall context subject idempotencyKey command now

/-- The checks of a transition, and the SQL call it then makes. -/
def transitionMutation (context : TenantContext) (subject : VerifiedSubject) (caseId : Uuid)
    (idempotencyKey : String) (command : TransitionCaseCommand) (now : DateTime) :
    Except CaseServiceError SqlMutation := do
  requireMutator context
  validateIdempotencyKey idempotencyKey
  validateExpectedVersion command.expectedVersion
  return transitionCaseCall context subject caseId idempotencyKey command now

/-- The checks of a rotation, and the SQL call it then makes. -/
def rotateMutation (context : TenantContext) (subject : VerifiedSubject) (caseId : Uuid)
    (idempotencyKey : String) (command : RotateEncryptedObjectCommand) (now : DateTime) :
    Except CaseServiceError SqlMutation := do
  requireExporter context
  validateIdempotencyKey idempotencyKey
  validateExpectedVersion command.expectedVersion
  (ApmeInterfaces.validateDocument command.encryptedDocument).mapError .validation
  return rotateCaseObjectCall context subject caseId idempotencyKey command now

omit [Sha2] in
/-- The check of a mutator passes for the roles that may create and transition. -/
theorem requireMutator_eq_ok {context : TenantContext} :
    requireMutator context = .ok () ↔
      ApmeInterfaces.canCreateOrTransition context.role = true := by
  rw [requireMutator]
  split <;> simp_all

omit [Sha2] in
/-- The check of an exporter passes for the roles that may export and delete. -/
theorem requireExporter_eq_ok {context : TenantContext} :
    requireExporter context = .ok () ↔ ApmeInterfaces.canExportOrDelete context.role = true := by
  rw [requireExporter]
  split <;> simp_all

/-- A creation calls its SQL function when its checks pass. -/
theorem createMutation_eq_ok {context : TenantContext} {subject : VerifiedSubject}
    {idempotencyKey : String} {command : CreateCaseCommand} {now : DateTime} {m : SqlMutation} :
    createMutation context subject idempotencyKey command now = .ok m ↔
      requireMutator context = .ok () ∧ validateIdempotencyKey idempotencyKey = .ok () ∧
        ApmeInterfaces.validateCreate command now = .ok () ∧
          createCaseCall context subject idempotencyKey command now = m := by
  simp only [createMutation, check_bind_eq_ok, mapError_eq_ok]
  simp only [pure, Except.pure, Except.ok.injEq]

/-- A transition calls its SQL function when its checks pass. -/
theorem transitionMutation_eq_ok {context : TenantContext} {subject : VerifiedSubject}
    {caseId : Uuid} {idempotencyKey : String} {command : TransitionCaseCommand} {now : DateTime}
    {m : SqlMutation} :
    transitionMutation context subject caseId idempotencyKey command now = .ok m ↔
      requireMutator context = .ok () ∧ validateIdempotencyKey idempotencyKey = .ok () ∧
        validateExpectedVersion command.expectedVersion = .ok () ∧
          transitionCaseCall context subject caseId idempotencyKey command now = m := by
  simp only [transitionMutation, check_bind_eq_ok]
  simp only [pure, Except.pure, Except.ok.injEq]

/-- A rotation calls its SQL function when its checks pass. -/
theorem rotateMutation_eq_ok {context : TenantContext} {subject : VerifiedSubject}
    {caseId : Uuid} {idempotencyKey : String} {command : RotateEncryptedObjectCommand}
    {now : DateTime} {m : SqlMutation} :
    rotateMutation context subject caseId idempotencyKey command now = .ok m ↔
      requireExporter context = .ok () ∧ validateIdempotencyKey idempotencyKey = .ok () ∧
        validateExpectedVersion command.expectedVersion = .ok () ∧
          ApmeInterfaces.validateDocument command.encryptedDocument = .ok () ∧
            rotateCaseObjectCall context subject caseId idempotencyKey command now = m := by
  simp only [rotateMutation, check_bind_eq_ok, mapError_eq_ok]
  simp only [pure, Except.pure, Except.ok.injEq]

theorem createCase_eq (context : TenantContext) (subject : VerifiedSubject)
    (idempotencyKey : String) (command : CreateCaseCommand) (now : DateTime) :
    createCase context subject idempotencyKey command now =
      Prog.ofExcept (createMutation context subject idempotencyKey command now) >>=
        commit context := by
  simp only [createCase, createMutation, Prog.ofExcept_bind, Prog.ofExcept_pure, bind_assoc,
    pure_bind]
  rfl

theorem transitionCase_eq (context : TenantContext) (subject : VerifiedSubject) (caseId : Uuid)
    (idempotencyKey : String) (command : TransitionCaseCommand) (now : DateTime) :
    transitionCase context subject caseId idempotencyKey command now =
      Prog.ofExcept (transitionMutation context subject caseId idempotencyKey command now) >>=
        commit context := by
  simp only [transitionCase, transitionMutation, Prog.ofExcept_bind, Prog.ofExcept_pure, bind_assoc,
    pure_bind]
  rfl

theorem rotateEncryptedObject_eq (context : TenantContext) (subject : VerifiedSubject)
    (caseId : Uuid) (idempotencyKey : String) (command : RotateEncryptedObjectCommand)
    (now : DateTime) :
    rotateEncryptedObject context subject caseId idempotencyKey command now =
      Prog.ofExcept (rotateMutation context subject caseId idempotencyKey command now) >>=
        commit context := by
  simp only [rotateEncryptedObject, rotateMutation, Prog.ofExcept_bind, Prog.ofExcept_pure,
    bind_assoc, pure_bind]
  rfl

end CaseService

end ApmeApi
