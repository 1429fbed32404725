import ApmeApi.Types
import Mathlib.Data.List.Sort

/-!
# The tables and the queries

The rows of the persistence schema, as far as the service or the properties of its SQL
functions read them, and the `select` statements that the service issues itself. A query
returns rows in table order unless it orders them.

`Db.Keeps` is what never changes about stored receipts: event rows and idempotency records
that were stored stay as they are. `Db.Agree` relates two databases that a tenant cannot tell
apart: they have the same rows of that tenant.
-/

namespace ApmeApi

/-- A row of `apme_tenants`. -/
structure TenantRow where
  id : Uuid
  organizationId : Uuid
  deriving DecidableEq

/-- A row of `apme_tenant_memberships`. -/
structure MembershipRow where
  tenantId : Uuid
  sharedUserId : String
  role : String
  active : Bool
  deriving DecidableEq

/-- A row of `apme_cases`, with the columns of `CASE_SELECT_LIST` and `CASE_SELECT_ONE`. -/
structure CaseRow where
  id : Uuid
  tenantId : Uuid
  version : ℤ
  title : String
  summary : String
  clientReference : String
  destinationCountry : String
  documentType : String
  nextActionDueAt : Option DateTime
  status : String
  retentionClass : String
  retainUntil : DateTime
  legalHold : Bool
  tombstonedAt : Option DateTime
  encryptedObjectReference : Option String
  ciphertextSha256 : Option String
  objectKeyVersion : Option ℤ
  createdAt : DateTime
  updatedAt : DateTime
  deriving DecidableEq

/-- A row of `apme_case_events`. -/
structure EventRow where
  eventId : Uuid
  tenantId : Uuid
  caseId : Uuid
  caseVersion : ℤ
  eventType : String
  occurredAt : DateTime
  deriving DecidableEq

/-- The key of an idempotency record. -/
structure IdempotencyKey where
  tenantId : Uuid
  sharedUserId : String
  key : String
  deriving DecidableEq

/-- A record of the idempotency table: the hash of the request that used the key first, and
the ids that its mutation returned. -/
structure IdempotencyRow where
  key : IdempotencyKey
  requestHash : List UInt8
  caseId : Uuid
  caseVersion : ℤ
  eventId : Uuid
  eventHash : String
  deriving DecidableEq

/-- A record of the tenant's audit chain. -/
structure AuditRow where
  tenantId : Uuid
  action : String
  actor : String
  resourceKind : String
  resourceId : Uuid
  occurredAt : DateTime
  deriving DecidableEq

/-- The database. -/
structure Db where
  tenants : List TenantRow
  memberships : List MembershipRow
  cases : List CaseRow
  events : List EventRow
  idempotency : List IdempotencyRow
  audit : List AuditRow
  deriving DecidableEq

namespace Db

/-- The migrated schema without rows. -/
def empty : Db := ⟨[], [], [], [], [], []⟩

/-! ### The queries of the service -/

/-- `select t.organization_id, m.role from apme_tenants t join apme_tenant_memberships m on
m.tenant_id = t.id where t.id = $1 and m.shared_user_id = $2 and m.active`: all its rows. -/
def membershipRows (db : Db) (tenantId : Uuid) (sharedUserId : String) :
    List (TenantRow × MembershipRow) :=
  (db.tenants.filter fun t => t.id = tenantId).flatMap fun t =>
    (db.memberships.filter fun m =>
      m.tenantId = t.id ∧ m.sharedUserId = sharedUserId ∧ m.active).map fun m => (t, m)

/-- The optional row of the membership query: organization and role. -/
def selectMembership (db : Db) (tenantId : Uuid) (sharedUserId : String) : Option (Uuid × String) :=
  (db.membershipRows tenantId sharedUserId).head?.map fun r => (r.1.organizationId, r.2.role)

/-- `order by created_at desc, id`. -/
def listOrder (a b : CaseRow) : Prop :=
  b.createdAt < a.createdAt ∨ (a.createdAt = b.createdAt ∧ a.id.bits ≤ b.id.bits)

instance : DecidableRel listOrder := fun a b =>
  inferInstanceAs (Decidable (b.createdAt < a.createdAt ∨
    (a.createdAt = b.createdAt ∧ a.id.bits ≤ b.id.bits)))

/-- `CASE_SELECT_LIST`: the tenant's cases that are not tombstoned. -/
def selectCases (db : Db) (tenantId : Uuid) : List CaseRow :=
  (db.cases.filter fun c => c.tenantId = tenantId ∧ c.tombstonedAt = none).insertionSort listOrder

/-- `CASE_SELECT_ONE`: the optional row of one case of the tenant that is not tombstoned. -/
def selectCase (db : Db) (tenantId caseId : Uuid) : Option CaseRow :=
  db.cases.find? fun c => c.tenantId = tenantId ∧ c.id = caseId ∧ c.tombstonedAt = none

/-- `select tenant_id, case_id, case_version, event_type, occurred_at from apme_case_events
where tenant_id = $1 and event_id = $2`. -/
def selectEvent (db : Db) (tenantId eventId : Uuid) : Option EventRow :=
  db.events.find? fun e => e.tenantId = tenantId ∧ e.eventId = eventId

/-- The idempotency record of a key. No query of the service reads it: the SQL functions do. -/
def findKey (db : Db) (key : IdempotencyKey) : Option IdempotencyRow :=
  db.idempotency.find? fun r => r.key = key

/-- A membership row that was read is an active one of the tenant and the user. -/
theorem selectMembership_eq_some {db : Db} {tenantId organizationId : Uuid}
    {sharedUserId role : String}
    (h : db.selectMembership tenantId sharedUserId = some (organizationId, role)) :
    ∃ m ∈ db.memberships, m.tenantId = tenantId ∧ m.sharedUserId = sharedUserId ∧
      m.active = true ∧ m.role = role := by
  simp only [selectMembership, Option.map_eq_some_iff, Prod.mk.injEq] at h
  obtain ⟨⟨t, m⟩, hhead, -, hrole⟩ := h
  have hmem := List.mem_of_head? hhead
  simp only [membershipRows, List.mem_flatMap, List.mem_map, List.mem_filter,
    decide_eq_true_eq, Prod.mk.injEq] at hmem
  obtain ⟨t', ⟨-, ht⟩, m', ⟨hm, hmt, hu, ha⟩, -, rfl⟩ := hmem
  exact ⟨m', hm, hmt.trans ht, hu, ha, hrole⟩

/-- A case row that was read is a live one of the tenant. -/
theorem selectCase_eq_some {db : Db} {tenantId caseId : Uuid} {row : CaseRow}
    (h : db.selectCase tenantId caseId = some row) :
    row ∈ db.cases ∧ row.tenantId = tenantId ∧ row.id = caseId ∧ row.tombstonedAt = none := by
  have hp := List.find?_some h
  simp only [decide_eq_true_eq] at hp
  exact ⟨List.mem_of_find?_eq_some h, hp⟩

/-- An event row that was read is the tenant's and has the id asked for. -/
theorem selectEvent_eq_some {db : Db} {tenantId eventId : Uuid} {row : EventRow}
    (h : db.selectEvent tenantId eventId = some row) :
    row.tenantId = tenantId ∧ row.eventId = eventId := by
  have hp := List.find?_some h
  simpa only [decide_eq_true_eq] using hp

/-! ### Stored receipts -/

/-- Event rows and idempotency records that were stored stay as they are. -/
structure Keeps (db db' : Db) : Prop where
  event : ∀ {t e row}, db.selectEvent t e = some row → db'.selectEvent t e = some row
  key : ∀ {k row}, db.findKey k = some row → db'.findKey k = some row

theorem Keeps.refl (db : Db) : Keeps db db := ⟨id, id⟩

theorem Keeps.trans {a b c : Db} (h : Keeps a b) (h' : Keeps b c) : Keeps a c :=
  ⟨fun he => h'.event (h.event he), fun hk => h'.key (h.key hk)⟩

/-- Changing neither events nor idempotency records keeps them. -/
theorem Keeps.of_eq {db db' : Db} (he : db'.events = db.events)
    (hk : db'.idempotency = db.idempotency) : Keeps db db' := by
  constructor
  · intro t e row h
    rwa [selectEvent, he]
  · intro k row h
    rwa [findKey, hk]

/-! ### What a tenant sees -/

/-- Two databases with the same rows of one tenant. -/
structure Agree (t : Uuid) (db db' : Db) : Prop where
  tenants : db.tenants.filter (fun r => r.id = t) = db'.tenants.filter fun r => r.id = t
  memberships : db.memberships.filter (fun r => r.tenantId = t) =
    db'.memberships.filter fun r => r.tenantId = t
  cases : db.cases.filter (fun r => r.tenantId = t) = db'.cases.filter fun r => r.tenantId = t
  events : db.events.filter (fun r => r.tenantId = t) = db'.events.filter fun r => r.tenantId = t
  idempotency : db.idempotency.filter (fun r => r.key.tenantId = t) =
    db'.idempotency.filter fun r => r.key.tenantId = t
  audit : db.audit.filter (fun r => r.tenantId = t) = db'.audit.filter fun r => r.tenantId = t

/-- A search for a row of the tenant sees only the rows of the tenant. -/
theorem find?_filter_of_imp {α : Type} (l : List α) {p q : α → Bool}
    (h : ∀ a, p a = true → q a = true) : (l.filter q).find? p = l.find? p := by
  rw [List.find?_filter]
  congr 1
  funext a
  cases hp : p a with
  | true => simp [h a hp]
  | false => simp

namespace Agree

variable {t : Uuid} {db db' : Db}

theorem membershipRows_eq (h : Agree t db db') (u : String) :
    db.membershipRows t u = db'.membershipRows t u := by
  have key : ∀ d : Db, d.membershipRows t u = (d.tenants.filter fun r => r.id = t).flatMap fun r =>
      ((d.memberships.filter fun m => m.tenantId = t).filter
        fun m => m.sharedUserId = u ∧ m.active).map fun m => (r, m) := by
    intro d
    refine List.flatMap_congr fun r hr => ?_
    have hrt : r.id = t := by simpa using (List.mem_filter.mp hr).2
    rw [List.filter_filter]
    congr 2
    funext m
    rw [hrt, Bool.decide_and, Bool.and_comm]
  rw [key, key, h.tenants, h.memberships]

/-- The membership query of the tenant has the same answer. -/
theorem selectMembership_eq (h : Agree t db db') (u : String) :
    db.selectMembership t u = db'.selectMembership t u := by
  rw [selectMembership, selectMembership, h.membershipRows_eq u]

/-- The list query of the tenant has the same answer. -/
theorem selectCases_eq (h : Agree t db db') : db.selectCases t = db'.selectCases t := by
  have key : ∀ d : Db, (d.cases.filter fun c => c.tenantId = t ∧ c.tombstonedAt = none) =
      (d.cases.filter fun c => c.tenantId = t).filter fun c => c.tombstonedAt = none := by
    intro d
    rw [List.filter_filter]
    congr 1
    funext c
    rw [Bool.decide_and, Bool.and_comm]
  rw [selectCases, selectCases, key, key, h.cases]

/-- The query for one case of the tenant has the same answer, whatever id is asked for. -/
theorem selectCase_eq (h : Agree t db db') (id : Uuid) :
    db.selectCase t id = db'.selectCase t id := by
  have key : ∀ d : Db, d.selectCase t id = (d.cases.filter fun c => c.tenantId = t).find?
      fun c => c.tenantId = t ∧ c.id = id ∧ c.tombstonedAt = none := fun d =>
    (find?_filter_of_imp d.cases (by simp +contextual)).symm
  rw [key, key, h.cases]

/-- The event query of the tenant has the same answer. -/
theorem selectEvent_eq (h : Agree t db db') (e : Uuid) :
    db.selectEvent t e = db'.selectEvent t e := by
  have key : ∀ d : Db, d.selectEvent t e = (d.events.filter fun r => r.tenantId = t).find?
      fun r => r.tenantId = t ∧ r.eventId = e := fun d =>
    (find?_filter_of_imp d.events (by simp +contextual)).symm
  rw [key, key, h.events]

/-- The tenant's idempotency records are found alike. -/
theorem findKey_eq (h : Agree t db db') {k : IdempotencyKey} (hk : k.tenantId = t) :
    db.findKey k = db'.findKey k := by
  have key : ∀ d : Db, d.findKey k = (d.idempotency.filter fun r => r.key.tenantId = t).find?
      fun r => r.key = k := fun d =>
    (find?_filter_of_imp d.idempotency (by simp +contextual [hk])).symm
  rw [key, key, h.idempotency]

end Agree

end Db

end ApmeApi
