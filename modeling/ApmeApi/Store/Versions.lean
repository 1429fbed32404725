import ApmeApi.Store.Reference
import Mathlib.Data.List.Pairwise

/-!
# Versions of a case

What the SQL functions do to the row of one case, as the service relies on it (`SqlVersioned`):
mutations of a case take effect one after the other, each raises its version by one, answers the
version it produced, and leaves the row in the state it was called for; every other case, and every
case under the other functions, keeps its state as long as it is live, and its version never goes
down (`CaseRow.Kept`).

A case is known by its tenant and its id, which are its primary key (`Db.UniqueCases`).
-/

namespace ApmeApi

namespace Db

/-- The row of a case, live or tombstoned. -/
def caseRow (db : Db) (tenantId caseId : Uuid) : Option CaseRow :=
  db.cases.find? fun r => r.tenantId = tenantId ∧ r.id = caseId

/-- The primary key of the cases. -/
def UniqueCases (db : Db) : Prop :=
  db.cases.Pairwise fun r r' => ¬(r.tenantId = r'.tenantId ∧ r.id = r'.id)

theorem caseRow_eq_some {db : Db} {tenantId caseId : Uuid} {r : CaseRow}
    (h : db.caseRow tenantId caseId = some r) :
    r ∈ db.cases ∧ r.tenantId = tenantId ∧ r.id = caseId := by
  have hp := List.find?_some h
  simp only [decide_eq_true_eq] at hp
  exact ⟨List.mem_of_find?_eq_some h, hp⟩

/-- Two rows with one key are one row. -/
theorem UniqueCases.eq_of_mem {db : Db} (hdb : db.UniqueCases) {r r' : CaseRow}
    (hr : r ∈ db.cases) (hr' : r' ∈ db.cases) (ht : r.tenantId = r'.tenantId) (hc : r.id = r'.id) :
    r = r' := by
  by_contra hne
  have hsymm : Std.Symm fun r r' : CaseRow => ¬(r.tenantId = r'.tenantId ∧ r.id = r'.id) :=
    ⟨fun _ _ h h' => h ⟨h'.1.symm, h'.2.symm⟩⟩
  exact List.Pairwise.forall hdb hr hr' hne ⟨ht, hc⟩

/-- A row is found by its key. -/
theorem UniqueCases.caseRow_of_mem {db : Db} (hdb : db.UniqueCases) {r : CaseRow}
    (hr : r ∈ db.cases) : db.caseRow r.tenantId r.id = some r := by
  cases h : db.caseRow r.tenantId r.id with
  | none =>
    rw [caseRow, List.find?_eq_none] at h
    exact absurd (decide_eq_true (And.intro rfl rfl)) (h r hr)
  | some r' =>
    obtain ⟨hr', ht, hc⟩ := caseRow_eq_some h
    rw [hdb.eq_of_mem hr' hr ht hc]

/-- The live row of a case is its row. -/
theorem UniqueCases.caseRow_of_selectCase {db : Db} (hdb : db.UniqueCases) {t c : Uuid}
    {r : CaseRow} (h : db.selectCase t c = some r) : db.caseRow t c = some r := by
  obtain ⟨hr, rfl, rfl, -⟩ := selectCase_eq_some h
  exact hdb.caseRow_of_mem hr

end Db

/-! ### What the functions do to a case -/

/-- Two rows in the same state: version, status and document. -/
structure CaseRow.SameState (r r' : CaseRow) : Prop where
  version : r'.version = r.version
  status : r'.status = r.status
  objectReference : r'.encryptedObjectReference = r.encryptedObjectReference
  ciphertextSha256 : r'.ciphertextSha256 = r.ciphertextSha256
  keyVersion : r'.objectKeyVersion = r.objectKeyVersion

theorem CaseRow.SameState.refl (r : CaseRow) : SameState r r := ⟨rfl, rfl, rfl, rfl, rfl⟩

theorem CaseRow.SameState.trans {a b c : CaseRow} (h : SameState a b) (h' : SameState b c) :
    SameState a c :=
  ⟨h'.version.trans h.version, h'.status.trans h.status,
    h'.objectReference.trans h.objectReference, h'.ciphertextSha256.trans h.ciphertextSha256,
    h'.keyVersion.trans h.keyVersion⟩

/-- **A row that no mutation touched**: its version has not gone down, and if it is live it was
live before, in the same state. -/
structure CaseRow.Kept (r r' : CaseRow) : Prop where
  version : r.version ≤ r'.version
  live : r'.tombstonedAt = none → r.tombstonedAt = none ∧ SameState r r'

theorem CaseRow.Kept.refl (r : CaseRow) : Kept r r := ⟨le_rfl, fun h => ⟨h, .refl r⟩⟩

theorem CaseRow.Kept.trans {a b c : CaseRow} (h : Kept a b) (h' : Kept b c) : Kept a c := by
  refine ⟨h.version.trans h'.version, fun hlive => ?_⟩
  obtain ⟨hb, hsame'⟩ := h'.live hlive
  obtain ⟨ha, hsame⟩ := h.live hb
  exact ⟨ha, hsame.trans hsame'⟩

/-- The row of a case is kept. -/
def Db.KeepsCase (db db' : Db) (t c : Uuid) : Prop :=
  ∀ r, db.caseRow t c = some r → ∃ r', db'.caseRow t c = some r' ∧ CaseRow.Kept r r'

theorem Db.KeepsCase.of_eq {db db' : Db} (h : db'.cases = db.cases) (t c : Uuid) :
    Db.KeepsCase db db' t c := by
  intro r hr
  refine ⟨r, ?_, .refl r⟩
  rwa [Db.caseRow, h]

/-- The state that a mutation is called for. -/
def SqlMutation.Produces : SqlMutation → CaseRow → Prop
  | .createCase _, _ => True
  | .transitionCase a, r => r.status = a.toStatus
  | .rotateCaseObject a, r => r.encryptedObjectReference = some a.objectReference ∧
      r.ciphertextSha256 = some a.ciphertextSha256 ∧ r.objectKeyVersion = some a.keyVersion

/-- **What a first use of a key does to the cases**: the row of its case has the version that was
answered, one above the version before, if there was one, and is in the state asked for; the
others are kept. -/
structure SqlMutation.Raises (m : SqlMutation) (row : MutationRow) (db db' : Db) : Prop where
  produced : ∃ r', db'.caseRow m.tenantId row.caseId = some r' ∧ r'.version = row.caseVersion ∧
    m.Produces r'
  raised : ∀ r, db.caseRow m.tenantId row.caseId = some r → row.caseVersion = r.version + 1
  others : ∀ t c, ¬(t = m.tenantId ∧ c = row.caseId) → Db.KeepsCase db db' t c

/-- **Versioned mutations.** On databases with unique cases, which they keep, the functions treat
the rows of the cases as said above. -/
structure SqlVersioned (sql : SqlFunctions) : Prop where
  mutateUnique : ∀ {m d db db' row}, sql.mutate m d db = .ok (db', row) → db.UniqueCases →
    db'.UniqueCases
  auditUnique : ∀ {a d db db'}, sql.apmeAppendAudit a d db = .ok db' → db.UniqueCases →
    db'.UniqueCases
  retentionUnique : ∀ {now actor d db db' n}, sql.apmeApplyRetention now actor d db = .ok (db', n) →
    db.UniqueCases → db'.UniqueCases
  mutate : ∀ {m d db db' row}, sql.mutate m d db = .ok (db', row) → row.replayed = false →
    db.UniqueCases → m.Raises row db db'
  audit : ∀ {a d db db'}, sql.apmeAppendAudit a d db = .ok db' → ∀ t c, Db.KeepsCase db db' t c
  retention : ∀ {now actor d db db' n}, sql.apmeApplyRetention now actor d db = .ok (db', n) →
    ∀ t c, Db.KeepsCase db db' t c

/-! ### The reference implementation -/

namespace Reference

variable {m : SqlMutation} {d : Draw} {db db' : Db} {row : MutationRow}

/-- The row of a case after an update of one case. -/
theorem find?_updateCase (db : Db) (t c t' c' : Uuid) {f : CaseRow → CaseRow}
    (hf : ∀ r, (f r).tenantId = r.tenantId ∧ (f r).id = r.id) :
    (updateCase db t c f).find? (fun r => r.tenantId = t' ∧ r.id = c') =
      (db.caseRow t' c').map fun r => if r.tenantId = t ∧ r.id = c then f r else r := by
  rw [updateCase, List.find?_map, Db.caseRow]
  congr 2
  funext r
  by_cases h : r.tenantId = t ∧ r.id = c
  · simp [h, hf]
  · simp [h]

/-- An update that keeps the keys keeps them unique. -/
theorem unique_map {l : List CaseRow} {g : CaseRow → CaseRow}
    (hg : ∀ r, (g r).tenantId = r.tenantId ∧ (g r).id = r.id)
    (hl : l.Pairwise fun r r' => ¬(r.tenantId = r'.tenantId ∧ r.id = r'.id)) :
    (l.map g).Pairwise fun r r' => ¬(r.tenantId = r'.tenantId ∧ r.id = r'.id) := by
  refine List.pairwise_map.mpr (hl.imp fun h => ?_)
  rwa [(hg _).1, (hg _).2, (hg _).1, (hg _).2]

/-- An update of one case raises it and keeps the others. -/
theorem updateCase_raises {a : Uuid} {r : CaseRow} {f : CaseRow → CaseRow} {eventType : String}
    (hdb : db.UniqueCases) (hr : db.selectCase m.tenantId a = some r)
    (hf : ∀ r, (f r).tenantId = r.tenantId ∧ (f r).id = r.id)
    (hversion : (f r).version = r.version + 1) (hproduces : m.Produces (f r)) (e : Uuid) :
    let ch : Change := ⟨updateCase db m.tenantId a f, a, r.version + 1, eventType⟩
    m.Raises (ch.row e) db (ch.apply m e db) ∧ (ch.apply m e db).UniqueCases := by
  obtain ⟨-, ht, hid, -⟩ := Db.selectCase_eq_some hr
  have hrow := hdb.caseRow_of_selectCase hr
  refine ⟨⟨⟨f r, ?_, hversion, hproduces⟩, fun r' hr' => ?_, fun t c hne r' hr' => ?_⟩, ?_⟩
  · refine (find?_updateCase db m.tenantId a m.tenantId a hf).trans ?_
    rw [hrow, Option.map_some, if_pos ⟨ht, hid⟩]
  · obtain rfl := Option.some.inj (hrow.symm.trans hr')
    rfl
  · obtain ⟨-, rfl, rfl⟩ := Db.caseRow_eq_some hr'
    refine ⟨r', ?_, .refl r'⟩
    have hother : ¬(r'.tenantId = m.tenantId ∧ r'.id = a) := hne
    refine (find?_updateCase db m.tenantId a r'.tenantId r'.id hf).trans ?_
    rw [hr', Option.map_some, if_neg hother]
  · refine unique_map (fun r => ?_) hdb
    split
    · exact hf r
    · exact ⟨rfl, rfl⟩

/-- A new case raises itself: no row has its id. -/
theorem newCase_raises {a : CreateCaseArgs} {id : Uuid} {eventType : String}
    (hdb : db.UniqueCases) (hnone : db.caseRow a.tenantId id = none) (e : Uuid) :
    let ch : Change := ⟨db.cases ++ [newCase a id], id, 1, eventType⟩
    (SqlMutation.createCase a).Raises (ch.row e) db (ch.apply (.createCase a) e db) ∧
      (ch.apply (.createCase a) e db).UniqueCases := by
  have hfound : db.cases.find? (fun r => r.tenantId = a.tenantId ∧ r.id = id) = none := hnone
  refine ⟨⟨⟨newCase a id, ?_, rfl, trivial⟩, fun r hr => ?_, fun t c hne r hr => ?_⟩, ?_⟩
  · change (db.cases ++ [newCase a id]).find?
      (fun r => r.tenantId = a.tenantId ∧ r.id = id) = _
    rw [List.find?_append, hfound, Option.none_or]
    exact List.find?_cons_of_pos (by simp [newCase])
  · cases hnone.symm.trans hr
  · refine ⟨r, ?_, .refl r⟩
    change (db.cases ++ [newCase a id]).find? _ = _
    have hr' : db.cases.find? (fun r => r.tenantId = t ∧ r.id = c) = some r := hr
    rw [List.find?_append, hr', Option.some_or]
  · refine List.pairwise_append.mpr ⟨hdb, List.pairwise_singleton .., fun r hr r' hr' => ?_⟩
    obtain rfl := List.mem_singleton.mp hr'
    rintro ⟨ht, hid⟩
    have hnot := List.find?_eq_none.mp hfound r hr
    exact hnot (decide_eq_true ⟨ht, hid⟩)

/-- **A change raises the version of its case.** -/
theorem change_raises {ch : Change} (hdb : db.UniqueCases) (h : change m d db = .ok ch)
    (e : Uuid) : m.Raises (ch.row e) db (ch.apply m e db) ∧ (ch.apply m e db).UniqueCases := by
  cases m with
  | createCase a =>
    rw [change] at h
    cases hfound : db.cases.find? fun c => c.tenantId = a.tenantId ∧ c.id = d 0 with
    | some c =>
      simp only [hfound] at h
      cases h
    | none =>
      simp only [hfound] at h
      obtain rfl := Except.ok.inj h
      exact newCase_raises hdb hfound e
  | transitionCase a =>
    rw [change] at h
    cases hr : db.selectCase a.tenantId a.caseId with
    | none =>
      simp only [hr] at h
      cases h
    | some r =>
      simp only [hr] at h
      split_ifs at h
      obtain rfl := Except.ok.inj h
      have hf : ∀ r, (transitioned a r).tenantId = r.tenantId ∧ (transitioned a r).id = r.id :=
        fun r => ⟨rfl, rfl⟩
      exact updateCase_raises (m := .transitionCase a) hdb hr hf rfl rfl e
  | rotateCaseObject a =>
    -- as a transition, after one more check
    rw [change] at h
    cases hr : db.selectCase a.tenantId a.caseId with
    | none =>
      simp only [hr] at h
      cases h
    | some r =>
      simp only [hr] at h
      split_ifs at h
      cases hk : r.objectKeyVersion with
      | none =>
        simp only [hk] at h
        cases h
      | some keyVersion =>
        simp only [hk] at h
        split_ifs at h
        obtain rfl := Except.ok.inj h
        have hf : ∀ r, (rotated a r).tenantId = r.tenantId ∧ (rotated a r).id = r.id :=
          fun r => ⟨rfl, rfl⟩
        exact updateCase_raises (m := .rotateCaseObject a) hdb hr hf rfl ⟨rfl, rfl, rfl⟩ e

/-- Retention keeps the cases that it does not tombstone. -/
theorem applyRetention_keepsCase (now : DateTime) (db : Db) (t c : Uuid) :
    Db.KeepsCase db (applyRetention now db).1 t c := by
  intro r hr
  refine ⟨if expired now r then { r with tombstonedAt := some now } else r, ?_, ?_⟩
  · have hfind : (applyRetention now db).1.caseRow t c =
        (db.caseRow t c).map fun r =>
          if expired now r then { r with tombstonedAt := some now } else r := by
      rw [applyRetention, Db.caseRow, List.find?_map, Db.caseRow]
      congr 2
      funext r
      by_cases h : expired now r = true <;> simp [h]
    rw [hfind, hr, Option.map_some]
  · split
    · exact ⟨le_rfl, fun h => by cases h⟩
    · exact .refl r

/-- **The reference implementation versions its cases.** -/
theorem versioned : SqlVersioned sql where
  mutateUnique h hdb := by
    rw [sql_mutate] at h
    rcases mutate_ok h with ⟨rec, -, -, rfl, -⟩ | ⟨ch, -, hch, -, rfl, -⟩
    · exact hdb
    · exact (change_raises hdb hch _).2
  auditUnique h hdb := by
    obtain rfl := Except.ok.inj h
    exact hdb
  retentionUnique h hdb := by
    obtain ⟨rfl, -⟩ := Prod.mk.inj (Except.ok.inj h)
    refine unique_map (fun r => ?_) hdb
    split <;> exact ⟨rfl, rfl⟩
  mutate h hr hdb := by
    rw [sql_mutate] at h
    rcases mutate_ok h with ⟨rec, -, -, -, rfl⟩ | ⟨ch, -, hch, -, rfl, rfl⟩
    · cases hr
    · exact (change_raises hdb hch _).1
  audit h t c := by
    obtain rfl := Except.ok.inj h
    exact Db.KeepsCase.of_eq rfl t c
  retention h t c := by
    obtain ⟨rfl, -⟩ := Prod.mk.inj (Except.ok.inj h)
    exact applyRetention_keepsCase _ _ t c

end Reference

end ApmeApi
