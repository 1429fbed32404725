import ApmeApi.Store.Sql

/-!
# A reference implementation of the SQL functions

`Reference.sql` implements the functions of the migration over the tables of the model: the
idempotency protocol around each mutation, optimistic versions, and retention that tombstones
expired cases that are not on legal hold. Its event hashes are a stand-in.

It satisfies both contracts (`Reference.contract`, `Reference.tenantLocal`), so the contracts can
be met, and it is the implementation of the concrete runs.
-/

namespace ApmeApi.Reference

/-- What the first use of a key changes: the cases, and the case concerned with its new version
and the type of its event. -/
structure Change where
  cases : List CaseRow
  caseId : Uuid
  caseVersion : ℤ
  eventType : String

/-- The time that a mutation passes. -/
def now : SqlMutation → DateTime
  | .createCase a => a.now
  | .transitionCase a => a.now
  | .rotateCaseObject a => a.now

/-- The row of a created case. -/
def newCase (a : CreateCaseArgs) (id : Uuid) : CaseRow where
  id := id
  tenantId := a.tenantId
  version := 1
  title := a.title
  summary := a.summary
  clientReference := a.clientReference
  destinationCountry := a.destinationCountry
  documentType := a.documentType
  nextActionDueAt := a.nextActionDueAt
  status := "intake"
  retentionClass := a.retentionClass
  retainUntil := a.retainUntil
  legalHold := false
  tombstonedAt := none
  encryptedObjectReference := a.objectReference
  ciphertextSha256 := a.ciphertextSha256
  objectKeyVersion := a.keyVersion
  createdAt := a.now
  updatedAt := a.now

/-- The cases after an update of one case of a tenant. -/
def updateCase (db : Db) (tenantId caseId : Uuid) (f : CaseRow → CaseRow) : List CaseRow :=
  db.cases.map fun c => if c.tenantId = tenantId ∧ c.id = caseId then f c else c

def transitioned (a : TransitionCaseArgs) (c : CaseRow) : CaseRow :=
  { c with version := c.version + 1, status := a.toStatus, updatedAt := a.now }

def rotated (a : RotateCaseObjectArgs) (c : CaseRow) : CaseRow :=
  { c with
    version := c.version + 1
    encryptedObjectReference := some a.objectReference
    ciphertextSha256 := some a.ciphertextSha256
    objectKeyVersion := some a.keyVersion
    updatedAt := a.now }

/-- The change that a mutation makes, or the error that it raises. -/
def change (m : SqlMutation) (d : Draw) (db : Db) : Except String Change :=
  match m with
  | .createCase a =>
    if (db.cases.find? fun c => c.tenantId = a.tenantId ∧ c.id = d 0).isSome then
      .error "duplicate key value violates unique constraint"
    else .ok ⟨db.cases ++ [newCase a (d 0)], d 0, 1, "case.created"⟩
  | .transitionCase a =>
    match db.selectCase a.tenantId a.caseId with
    | none => .error "APME_CASE_NOT_FOUND"
    | some c =>
      if c.version ≠ a.expectedVersion then .error "APME_STALE_VERSION"
      else if c.status = a.toStatus then .error "APME_INVALID_TRANSITION"
      else .ok ⟨updateCase db a.tenantId a.caseId (transitioned a), a.caseId, c.version + 1,
        "case.transitioned"⟩
  | .rotateCaseObject a =>
    match db.selectCase a.tenantId a.caseId with
    | none => .error "APME_CASE_NOT_FOUND"
    | some c =>
      if c.version ≠ a.expectedVersion then .error "APME_STALE_VERSION"
      else match c.objectKeyVersion with
        | none => .error "APME_CASE_OBJECT_NOT_FOUND"
        | some keyVersion =>
          if a.keyVersion ≤ keyVersion then .error "APME_KEY_VERSION_ROLLBACK"
          else .ok ⟨updateCase db a.tenantId a.caseId (rotated a), a.caseId, c.version + 1,
            "case.document_key_rotated"⟩

/-- The row that the first use of a key answers. -/
def Change.row (ch : Change) (eventId : Uuid) : MutationRow :=
  ⟨ch.caseId, ch.caseVersion, eventId, eventId.toString, false⟩

/-- The database after a change, its event and its idempotency record. -/
def Change.apply (ch : Change) (m : SqlMutation) (eventId : Uuid) (db : Db) : Db :=
  { db with
    cases := ch.cases
    events := db.events ++
      [⟨eventId, m.tenantId, ch.caseId, ch.caseVersion, ch.eventType, now m⟩]
    idempotency := db.idempotency ++ [(ch.row eventId).record m] }

/-- A mutation: the idempotency protocol around its change. -/
def mutate (m : SqlMutation) (d : Draw) (db : Db) : Except String (Db × MutationRow) :=
  match db.findKey m.key with
  | some rec =>
    if rec.requestHash = m.requestHash then .ok (db, rec.replayRow)
    else .error "APME_IDEMPOTENCY_CONFLICT"
  | none => do
    let ch ← change m d db
    if (db.selectEvent m.tenantId (d 1)).isSome then
      .error "duplicate key value violates unique constraint"
    else .ok (ch.apply m (d 1) db, ch.row (d 1))

/-- Whether retention tombstones a case. -/
def expired (now : DateTime) (c : CaseRow) : Bool :=
  c.retainUntil ≤ now && !c.legalHold && c.tombstonedAt.isNone

def applyRetention (now : DateTime) (db : Db) : Db × ℤ :=
  ({ db with cases := db.cases.map fun c =>
      if expired now c then { c with tombstonedAt := some now } else c },
    (db.cases.filter (expired now)).length)

/-- The reference implementation. -/
def sql : SqlFunctions where
  apmeCreateCase a := mutate (.createCase a)
  apmeTransitionCase a := mutate (.transitionCase a)
  apmeRotateCaseObject a := mutate (.rotateCaseObject a)
  apmeAppendAudit a _ db := .ok { db with audit := db.audit ++
    [⟨a.tenantId, a.action, a.actor, a.resourceKind, a.resourceId, a.occurredAt⟩] }
  apmeApplyRetention now _ _ db := .ok (applyRetention now db)

theorem sql_mutate (m : SqlMutation) (d : Draw) (db : Db) : sql.mutate m d db = mutate m d db := by
  cases m <;> rfl

/-! ### The idempotency protocol -/

variable {m : SqlMutation} {d : Draw} {db db' : Db} {row : MutationRow}

/-- **Inversion of a mutation**: a replay of its record, or a change with a new event. -/
theorem mutate_ok (h : mutate m d db = .ok (db', row)) :
    (∃ rec, db.findKey m.key = some rec ∧ rec.requestHash = m.requestHash ∧ db' = db ∧
      row = rec.replayRow) ∨
    ∃ ch, db.findKey m.key = none ∧ change m d db = .ok ch ∧
      db.selectEvent m.tenantId (d 1) = none ∧ db' = ch.apply m (d 1) db ∧ row = ch.row (d 1) := by
  rw [mutate] at h
  cases hk : db.findKey m.key with
  | some rec =>
    simp only [hk] at h
    -- a record with another hash is a conflict
    by_cases hr : rec.requestHash = m.requestHash
    · rw [if_pos hr] at h
      obtain ⟨rfl, rfl⟩ := Prod.mk.inj (Except.ok.inj h)
      exact .inl ⟨rec, rfl, hr, rfl, rfl⟩
    · rw [if_neg hr] at h
      cases h
  | none =>
    simp only [hk] at h
    cases hc : change m d db with
    | error e =>
      rw [hc] at h
      cases h
    | ok ch =>
      replace h : (if (db.selectEvent m.tenantId (d 1)).isSome then
          (.error "duplicate key value violates unique constraint" :
            Except String (Db × MutationRow))
        else .ok (ch.apply m (d 1) db, ch.row (d 1))) = .ok (db', row) := by rwa [hc] at h
      cases he : db.selectEvent m.tenantId (d 1) with
      | some ev =>
        rw [he] at h
        cases h
      | none =>
        rw [he] at h
        obtain ⟨rfl, rfl⟩ := Prod.mk.inj (Except.ok.inj h)
        exact .inr ⟨ch, rfl, rfl, rfl, rfl, rfl⟩

/-- A change keeps stored events and records. -/
theorem apply_keeps (ch : Change) (m : SqlMutation) (eventId : Uuid) (db : Db) :
    Db.Keeps db (ch.apply m eventId db) := by
  constructor
  · intro t e row h
    have h' : db.events.find? (fun ev => ev.tenantId = t ∧ ev.eventId = e) = some row := h
    rw [Db.selectEvent, Change.apply, List.find?_append, h', Option.some_or]
  · intro k row h
    have h' : db.idempotency.find? (fun r => r.key = k) = some row := h
    rw [Db.findKey, Change.apply, List.find?_append, h', Option.some_or]

/-- After a change the key is found. -/
theorem apply_findKey {ch : Change} {eventId : Uuid} (h : db.findKey m.key = none) :
    (ch.apply m eventId db).findKey m.key = some ((ch.row eventId).record m) := by
  have h' : db.idempotency.find? (fun r => r.key = m.key) = none := h
  rw [Db.findKey, Change.apply, List.find?_append, h', Option.none_or]
  exact List.find?_cons_of_pos (by simp [MutationRow.record])

/-- After a change the event is found. -/
theorem apply_selectEvent {ch : Change} {eventId : Uuid}
    (h : db.selectEvent m.tenantId eventId = none) :
    (ch.apply m eventId db).selectEvent m.tenantId eventId =
      some ⟨eventId, m.tenantId, ch.caseId, ch.caseVersion, ch.eventType, now m⟩ := by
  have h' : db.events.find? (fun ev => ev.tenantId = m.tenantId ∧ ev.eventId = eventId) = none := h
  rw [Db.selectEvent, Change.apply, List.find?_append, h', Option.none_or]
  exact List.find?_cons_of_pos (by simp)

/-- **The reference implementation meets the contract of the service.** -/
theorem contract : SqlContract sql where
  first h hk := by
    rw [sql_mutate] at h
    rcases mutate_ok h with ⟨rec, hk', -⟩ | ⟨ch, -, -, -, rfl, rfl⟩
    · rw [hk] at hk'
      cases hk'
    · exact ⟨rfl, apply_findKey hk⟩
  replay hk hr := by
    rw [sql_mutate, mutate, hk]
    exact if_pos hr
  conflict hk hr := by
    refine ⟨"APME_IDEMPOTENCY_CONFLICT", ?_, by decide⟩
    rw [sql_mutate, mutate, hk]
    exact if_neg hr
  eventFresh h hr := by
    rw [sql_mutate] at h
    rcases mutate_ok h with ⟨rec, -, -, -, rfl⟩ | ⟨ch, -, -, he, -, rfl⟩
    · cases hr
    · exact he
  eventStored h hr := by
    rw [sql_mutate] at h
    rcases mutate_ok h with ⟨rec, -, -, -, rfl⟩ | ⟨ch, -, -, he, rfl, rfl⟩
    · cases hr
    · exact ⟨_, apply_selectEvent he, rfl, rfl⟩
  mutateKeeps h := by
    rw [sql_mutate] at h
    rcases mutate_ok h with ⟨rec, -, -, rfl, -⟩ | ⟨ch, -, -, -, rfl, -⟩
    · exact Db.Keeps.refl _
    · exact apply_keeps ch _ _ _
  auditKeeps h := by
    obtain rfl := Except.ok.inj h
    exact Db.Keeps.of_eq rfl rfl
  retentionKeeps h := by
    obtain ⟨rfl, -⟩ := Prod.mk.inj (Except.ok.inj h)
    exact Db.Keeps.of_eq rfl rfl

/-! ### Tenant locality -/

/-- Changes that a tenant cannot tell apart. -/
structure Change.Agree (t : Uuid) (ch ch' : Change) : Prop where
  cases : ch.cases.filter (fun c => c.tenantId = t) = ch'.cases.filter fun c => c.tenantId = t
  caseId : ch.caseId = ch'.caseId
  caseVersion : ch.caseVersion = ch'.caseVersion
  eventType : ch.eventType = ch'.eventType

/-- An update of a case of the tenant, seen by the tenant. -/
theorem filter_updateCase (db : Db) (t c : Uuid) {f : CaseRow → CaseRow}
    (hf : ∀ r, (f r).tenantId = r.tenantId) :
    (updateCase db t c f).filter (fun r => r.tenantId = t) =
      (db.cases.filter fun r => r.tenantId = t).map
        fun r => if r.tenantId = t ∧ r.id = c then f r else r := by
  rw [updateCase, List.filter_map]
  congr 2
  funext r
  by_cases h : r.tenantId = t ∧ r.id = c
  · simp [h, hf]
  · simp [h]

/-- Updates of databases that the tenant cannot tell apart. -/
theorem updateCase_agree {t : Uuid} (h : Db.Agree t db db') (c : Uuid) {f : CaseRow → CaseRow}
    (hf : ∀ r, (f r).tenantId = r.tenantId) (version : ℤ) (eventType : String) :
    Change.Agree t ⟨updateCase db t c f, c, version, eventType⟩
      ⟨updateCase db' t c f, c, version, eventType⟩ :=
  ⟨by rw [filter_updateCase db t c hf, filter_updateCase db' t c hf, h.cases], rfl, rfl, rfl⟩

/-- From databases that the tenant cannot tell apart, a change that it cannot tell apart. -/
theorem change_agree (h : Db.Agree m.tenantId db db') :
    (∃ e, change m d db = .error e ∧ change m d db' = .error e) ∨
      ∃ ch ch', change m d db = .ok ch ∧ change m d db' = .ok ch' ∧ ch.Agree m.tenantId ch' := by
  cases m with
  | createCase a =>
    change Db.Agree a.tenantId db db' at h
    -- the uniqueness check looks at the rows of the tenant only
    have key : ∀ db : Db, (db.cases.find? fun c => c.tenantId = a.tenantId ∧ c.id = d 0) =
        (db.cases.filter fun c => c.tenantId = a.tenantId).find?
          fun c => c.tenantId = a.tenantId ∧ c.id = d 0 := fun db =>
      (Db.find?_filter_of_imp db.cases (by simp +contextual)).symm
    simp only [change, key, h.cases]
    cases ((db'.cases.filter fun c => c.tenantId = a.tenantId).find?
      fun c => c.tenantId = a.tenantId ∧ c.id = d 0) with
    | some c => exact .inl ⟨_, rfl, rfl⟩
    | none =>
      refine .inr ⟨_, _, rfl, rfl, ?_, rfl, rfl, rfl⟩
      rw [List.filter_append, List.filter_append]
      exact congrArg (· ++ _) h.cases
  | transitionCase a =>
    change Db.Agree a.tenantId db db' at h
    simp only [change, h.selectCase_eq]
    cases db'.selectCase a.tenantId a.caseId with
    | none => exact .inl ⟨_, rfl, rfl⟩
    | some c =>
      by_cases hv : c.version ≠ a.expectedVersion
      · exact .inl ⟨_, if_pos hv, if_pos hv⟩
      · by_cases hs : c.status = a.toStatus
        · simp only [if_neg hv, if_pos hs]
          exact .inl ⟨_, rfl, rfl⟩
        · simp only [if_neg hv, if_neg hs]
          exact .inr ⟨_, _, rfl, rfl, updateCase_agree h a.caseId
            (f := transitioned a) (fun _ => rfl) _ _⟩
  | rotateCaseObject a =>
    change Db.Agree a.tenantId db db' at h
    simp only [change, h.selectCase_eq]
    cases db'.selectCase a.tenantId a.caseId with
    | none => exact .inl ⟨_, rfl, rfl⟩
    | some c =>
      by_cases hv : c.version ≠ a.expectedVersion
      · exact .inl ⟨_, if_pos hv, if_pos hv⟩
      · simp only [if_neg hv]
        cases c.objectKeyVersion with
        | none => exact .inl ⟨_, rfl, rfl⟩
        | some keyVersion =>
          by_cases hk : a.keyVersion ≤ keyVersion
          · exact .inl ⟨_, if_pos hk, if_pos hk⟩
          · simp only [if_neg hk]
            exact .inr ⟨_, _, rfl, rfl, updateCase_agree h a.caseId
              (f := rotated a) (fun _ => rfl) _ _⟩

/-- Changes that the tenant cannot tell apart leave databases that it cannot tell apart. -/
theorem apply_agree {t : Uuid} {ch ch' : Change} (h : Db.Agree t db db') (hc : ch.Agree t ch')
    (eventId : Uuid) : Db.Agree t (ch.apply m eventId db) (ch'.apply m eventId db') where
  tenants := h.tenants
  memberships := h.memberships
  cases := hc.cases
  events := by
    simp only [Change.apply, List.filter_append, h.events, hc.caseId, hc.caseVersion, hc.eventType]
  idempotency := by
    simp only [Change.apply, Change.row, List.filter_append, h.idempotency, hc.caseId,
      hc.caseVersion]
  audit := h.audit

/-- **The reference implementation is local to the tenant of a call.** -/
theorem tenantLocal : SqlTenantLocal sql where
  mutate {m d db db'} h := by
    rw [sql_mutate, sql_mutate, mutate, mutate, ← h.findKey_eq rfl]
    cases hk : db.findKey m.key with
    | some rec =>
      by_cases hr : rec.requestHash = m.requestHash
      · simp only [if_pos hr]
        exact ⟨h, rfl⟩
      · simp only [if_neg hr]
        exact rfl
    | none =>
      rcases change_agree (d := d) h with ⟨e, he, he'⟩ | ⟨ch, ch', hch, hch', hc⟩
      · simp only [he, he']
        exact rfl
      · simp only [hch, hch', ← h.selectEvent_eq]
        cases db.selectEvent m.tenantId (d 1) with
        | some ev => exact rfl
        | none =>
          refine ⟨apply_agree h hc (d 1), ?_⟩
          simp only [Change.row, hc.caseId, hc.caseVersion]
  audit {a d db db'} h :=
    ⟨⟨h.tenants, h.memberships, h.cases, h.events, h.idempotency, by
      simp only [List.filter_append, h.audit]⟩, rfl⟩

end ApmeApi.Reference
