import ApmeApi.Service.Http
import ApmeApi.Store.Reference

/-!
# Reference implementations of the other crates

Instances of the classes for what `apme-interfaces`, `shared_auth_client` and `sha2` compute,
for concrete runs: viewers read, agents create and transition, administrators also rotate;
retention must lie in the future; scopes are separated by blanks. Timestamps are written as
numbers and the digest is the identity, which is collision-free.

The concrete runs are those of one user, an administrator of the tenant `Uuid.nil` of `office`,
whose requests carry `headers` and whose credentials `input` vouches for.
-/

namespace ApmeApi.Reference

def statusJson : CaseStatus → String
  | .intake => "intake"
  | .collectingDocuments => "collecting_documents"
  | .review => "review"
  | .submitted => "submitted"
  | .completed => "completed"
  | .closed => "closed"

def retentionJson : RetentionClass → String
  | .standard => "standard"
  | .extended => "extended"
  | .legalHoldEligible => "legal_hold_eligible"

def dateTimeJson (t : DateTime) : String := toString t

def documentJson (d : EncryptedObjectReference) : Json :=
  .obj [("object_reference", .str d.objectReference),
    ("ciphertext_sha256", .str d.ciphertextSha256), ("key_version", .num d.keyVersion)]

def persistedCaseJson (c : PersistedCase) : Json :=
  .obj [("id", .str c.id.toString), ("tenant_id", .str c.tenantId.toString),
    ("version", .num c.version), ("title", .str c.title), ("summary", .str c.summary),
    ("client_reference", .str c.clientReference),
    ("destination_country", .str c.destinationCountry), ("document_type", .str c.documentType),
    ("next_action_due_at", optionJson (fun t => .str (dateTimeJson t)) c.nextActionDueAt),
    ("status", .str (statusJson c.status)),
    ("retention_class", .str (retentionJson c.retentionClass)),
    ("retain_until", .str (dateTimeJson c.retainUntil)), ("legal_hold", .bool c.legalHold),
    ("tombstoned_at", optionJson (fun t => .str (dateTimeJson t)) c.tombstonedAt),
    ("encrypted_document", optionJson documentJson c.encryptedDocument),
    ("created_at", .str (dateTimeJson c.createdAt)),
    ("updated_at", .str (dateTimeJson c.updatedAt))]

def eventJson (e : CaseEventReceipt) : Json :=
  .obj [("event_id", .str e.eventId.toString), ("tenant_id", .str e.tenantId.toString),
    ("case_id", .str e.caseId.toString), ("case_version", .num e.caseVersion),
    ("event_type", .str e.eventType), ("occurred_at", .str (dateTimeJson e.occurredAt)),
    ("event_hash", .str e.eventHash)]

scoped instance interfaces : ApmeInterfaces where
  canCreateOrTransition role := role != .viewer
  canExportOrDelete role := role == .administrator
  validateCreate command now :=
    if command.retainUntil ≤ now then .error "retain_until must be in the future" else .ok ()
  validateDocument document :=
    if document.objectReference.isEmpty then .error "object_reference is required" else .ok ()
  statusJson := statusJson
  retentionJson := retentionJson
  dateTimeJson := dateTimeJson
  persistedCaseJson := persistedCaseJson
  mutationResultJson result := .obj [("case", persistedCaseJson result.case),
    ("event", eventJson result.event), ("replayed", .bool result.replayed)]

scoped instance sharedAuth : SharedAuth where
  hasScope introspection required :=
    match introspection.scope with
    | none => false
    | some scope => decide (required.toList ∈ scope.toList.splitOn ' ')

scoped instance sha2 : Sha2 where
  sha256 bytes := bytes

/-! ### A user and a tenant -/

/-- So many seconds after 1 January 2026. -/
def instant (seconds : ℤ) : DateTime := (1767225600 + seconds) * 1000000000

/-- The configured issuer and audience. -/
def state : AppState := ⟨⟨"issuer", "audience"⟩⟩

/-- The headers of a request of the user, with an idempotency key. -/
def headers (key : String) : HeaderMap :=
  ⟨[("authorization", Text.utf8 "Bearer token".toList),
    (tenantHeader, Text.utf8 Uuid.nil.display),
    (idempotencyHeader, Text.utf8 key.toList)]⟩

/-- Guard and introspection vouch for a user. -/
def inputOf (user : String) : Input where
  guard := .authenticated ⟨user, some "session", false⟩ .sharedAuth
  introspection := some ⟨true, some user, some "issuer", some "audience", some "session", none,
    some 2000000000, some "apme:cases:read apme:cases:write"⟩

/-- Guard and introspection vouch for the user of the tenant. -/
def input : Input := inputOf "user"

/-- The database of the tenant and its one member. -/
def office : Db :=
  { Db.empty with
    tenants := [⟨Uuid.nil, Uuid.nil⟩]
    memberships := [⟨Uuid.nil, "user", "administrator", true⟩] }

/-- The world of the tenant before the first request. -/
def opened : World := World.initial office (instant 0)

/-- A live case of the tenant as the table holds it, with this status. -/
def storedCase (id : Uuid) (status : String) (createdAt : DateTime) : CaseRow where
  id := id
  tenantId := Uuid.nil
  version := 1
  title := "Diploma"
  summary := "For use abroad"
  clientReference := "client"
  destinationCountry := "FR"
  documentType := "diploma"
  nextActionDueAt := none
  status := status
  retentionClass := "standard"
  retainUntil := 100
  legalHold := false
  tombstonedAt := none
  encryptedObjectReference := none
  ciphertextSha256 := none
  objectKeyVersion := none
  createdAt := createdAt
  updatedAt := createdAt

/-- The database of the tenant with cases. -/
def officeWith (cases : List CaseRow) : Db := { office with cases := cases }

end ApmeApi.Reference
