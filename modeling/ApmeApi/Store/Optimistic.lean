import ApmeApi.Lib.Versioned
import ApmeApi.Store.Versions

/-!
# A case as a versioned record

What a case is for its clients: a record with optimistic versions (`caseSpec`). Its content is its
status and its encrypted document; a transition replaces the status, a rotation replaces the
document by one whose key version does not go back. `Db.caseState` is the state of this record in
a database.

`SqlOptimistic` is what the service relies on besides `SqlVersioned`: a transition or a rotation
takes effect only on the live row in the version that it expects, a creation only where there is no
row, and no function makes another case appear.
-/

namespace ApmeApi

/-! ### The record -/

/-- What the mutations of a case write. -/
structure CaseContent where
  status : String
  objectReference : Option String
  ciphertextSha256 : Option String
  keyVersion : Option ℤ
  deriving DecidableEq

def CaseRow.content (r : CaseRow) : CaseContent where
  status := r.status
  objectReference := r.encryptedObjectReference
  ciphertextSha256 := r.ciphertextSha256
  keyVersion := r.objectKeyVersion

/-- A mutation of a case that exists. -/
inductive CaseUpdate where
  | transition (toStatus : String)
  | rotation (objectReference ciphertextSha256 : String) (keyVersion : ℤ)

/-- The effect of a mutation on the content. -/
inductive CaseUpdate.Applies : CaseUpdate → CaseContent → CaseContent → Prop
  | transition (toStatus : String) (k : CaseContent) :
      Applies (.transition toStatus) k { k with status := toStatus }
  | rotation {k : CaseContent} {old keyVersion : ℤ} (objectReference ciphertextSha256 : String)
      (hk : k.keyVersion = some old) (hle : old ≤ keyVersion) :
      Applies (.rotation objectReference ciphertextSha256 keyVersion) k
        ⟨k.status, some objectReference, some ciphertextSha256, some keyVersion⟩

/-- The key of one content is not behind that of another. -/
def CaseContent.KeyNotBehind (k k' : CaseContent) : Prop :=
  ∀ n, k.keyVersion = some n → ∃ n', k'.keyVersion = some n' ∧ n ≤ n'

/-- **No mutation goes back behind a key version.** -/
theorem CaseUpdate.Applies.key {u : CaseUpdate} {k k' : CaseContent} (h : u.Applies k k') :
    k.KeyNotBehind k' := by
  intro n hn
  cases h with
  | transition toStatus => exact ⟨n, hn, le_rfl⟩
  | rotation objectReference ciphertextSha256 hk hle =>
    obtain rfl := Option.some.inj (hk.symm.trans hn)
    exact ⟨_, rfl, hle⟩

/-- Cases as versioned records. -/
abbrev caseSpec : Versioned.Spec where
  Content := CaseContent
  Creation := CreateCaseArgs
  Update := CaseUpdate
  initial a k := k.objectReference = a.objectReference ∧
    k.ciphertextSha256 = a.ciphertextSha256 ∧ k.keyVersion = a.keyVersion
  apply := CaseUpdate.Applies

/-- The write that a mutation stands for. -/
def SqlMutation.operation : SqlMutation → Versioned.Operation caseSpec
  | .createCase a => .create a
  | .transitionCase a => .update a.expectedVersion (.transition a.toStatus)
  | .rotateCaseObject a =>
    .update a.expectedVersion (.rotation a.objectReference a.ciphertextSha256 a.keyVersion)

/-- The state of a row. -/
def CaseRow.state (r : CaseRow) : Versioned.Record CaseContent :=
  if r.tombstonedAt = none then .live r.version r.content else .retired

/-- The state of a case. -/
def Db.caseState (db : Db) (t c : Uuid) : Versioned.Record CaseContent :=
  (db.caseRow t c).elim .absent CaseRow.state

theorem CaseRow.state_live {r : CaseRow} (h : r.tombstonedAt = none) :
    r.state = .live r.version r.content := if_pos h

theorem CaseRow.state_retired {r : CaseRow} (h : r.tombstonedAt ≠ none) : r.state = .retired :=
  if_neg h

theorem CaseRow.SameState.content_eq {r r' : CaseRow} (h : SameState r r') :
    r'.content = r.content := by
  simp only [content, h.status, h.objectReference, h.ciphertextSha256, h.keyVersion]

namespace Db

variable {db db' : Db} {t c : Uuid}

theorem caseState_none (h : db.caseRow t c = none) : db.caseState t c = .absent := by
  rw [caseState, h]
  rfl

theorem caseState_some {r : CaseRow} (h : db.caseRow t c = some r) :
    db.caseState t c = r.state := by
  rw [caseState, h]
  rfl

/-- What a query for one case shows is what is visible of its state. -/
theorem UniqueCases.selectCase_visible (hdb : db.UniqueCases) (t c : Uuid) :
    (db.selectCase t c).map (fun r => (r.version, r.content)) = (db.caseState t c).visible := by
  cases hs : db.selectCase t c with
  | some r =>
    rw [caseState_some (hdb.caseRow_of_selectCase hs),
      CaseRow.state_live (selectCase_eq_some hs).2.2.2]
    rfl
  | none =>
    cases hr : db.caseRow t c with
    | none =>
      rw [caseState_none hr]
      rfl
    | some r =>
      -- a row that the query does not find is tombstoned
      obtain ⟨hmem, ht, hc⟩ := caseRow_eq_some hr
      have hdead : r.tombstonedAt ≠ none := fun hlive => by
        have hnot := List.find?_eq_none.mp hs r hmem
        exact hnot (decide_eq_true ⟨ht, hc, hlive⟩)
      rw [caseState_some hr, CaseRow.state_retired hdead]
      rfl

/-- What a list shows of a case is what is visible of its state. -/
theorem UniqueCases.selectCases_find (hdb : db.UniqueCases) (t c : Uuid) :
    (db.caseState t c).visible =
      ((db.selectCases t).find? fun r => r.id = c).map fun r => (r.version, r.content) := by
  have hmem : ∀ r, r ∈ db.selectCases t ↔
      r ∈ db.cases ∧ r.tenantId = t ∧ r.tombstonedAt = none := by
    intro r
    rw [selectCases, List.mem_insertionSort, List.mem_filter, decide_eq_true_iff]
  cases hfound : (db.selectCases t).find? fun r => r.id = c with
  | some r =>
    obtain ⟨hrow, rfl, hlive⟩ := (hmem r).mp (List.mem_of_find?_eq_some hfound)
    have hid := List.find?_some hfound
    obtain rfl := of_decide_eq_true hid
    rw [caseState_some (hdb.caseRow_of_mem hrow), CaseRow.state_live hlive]
    rfl
  | none =>
    cases hr : db.caseRow t c with
    | none =>
      rw [caseState_none hr]
      rfl
    | some r =>
      -- a row that the list does not hold is tombstoned
      obtain ⟨hrow, ht, hc⟩ := caseRow_eq_some hr
      have hdead : r.tombstonedAt ≠ none := fun hlive =>
        List.find?_eq_none.mp hfound r ((hmem r).mpr ⟨hrow, ht, hlive⟩) (decide_eq_true hc)
      rw [caseState_some hr, CaseRow.state_retired hdead]
      rfl

/-- A case that no mutation touched is as it was, or it was retired. -/
theorem KeepsCase.internal (hk : KeepsCase db db' t c)
    (hnone : db.caseRow t c = none → db'.caseRow t c = none) :
    Versioned.Internal (db.caseState t c) (db'.caseState t c) := by
  cases hr : db.caseRow t c with
  | none =>
    rw [caseState_none hr, caseState_none (hnone hr)]
    exact .refl _
  | some r =>
    obtain ⟨r', hr', hkept⟩ := hk r hr
    rw [caseState_some hr, caseState_some hr']
    by_cases hlive' : r'.tombstonedAt = none
    · obtain ⟨hlive, hsame⟩ := hkept.live hlive'
      rw [CaseRow.state_live hlive, CaseRow.state_live hlive', hsame.version, hsame.content_eq]
      exact .refl _
    · rw [CaseRow.state_retired hlive']
      by_cases hlive : r.tombstonedAt = none
      · rw [CaseRow.state_live hlive]
        exact .retire _ _
      · rw [CaseRow.state_retired hlive]
        exact .refl _

end Db

/-! ### The contract -/

/-- The row of a case after a mutation: live, one version up, with the new content. -/
structure CaseRow.Updated (r : CaseRow) (k : CaseContent) (r' : CaseRow) : Prop where
  live : r'.tombstonedAt = none
  version : r'.version = r.version + 1
  content : r'.content = k

/-- **Optimistic mutations.** The first use of a key takes effect on the live row of its case in the
version that it expects, and for a creation where there is no row yet; a rotation does not go back
behind the key version of the document. No function makes another case appear. -/
structure SqlOptimistic (sql : SqlFunctions) : Prop where
  creates : ∀ {a d db db' row}, sql.apmeCreateCase a d db = .ok (db', row) →
    row.replayed = false → db.UniqueCases → db.caseRow a.tenantId row.caseId = none ∧
      ∃ r, db'.caseRow a.tenantId row.caseId = some r ∧ r.tombstonedAt = none ∧ r.version = 1 ∧
        caseSpec.initial a r.content
  transitions : ∀ {a d db db' row}, sql.apmeTransitionCase a d db = .ok (db', row) →
    row.replayed = false → db.UniqueCases → row.caseId = a.caseId ∧
      ∃ r r', db.selectCase a.tenantId a.caseId = some r ∧ r.version = a.expectedVersion ∧
        db'.caseRow a.tenantId a.caseId = some r' ∧
          r.Updated { r.content with status := a.toStatus } r'
  rotations : ∀ {a d db db' row}, sql.apmeRotateCaseObject a d db = .ok (db', row) →
    row.replayed = false → db.UniqueCases → row.caseId = a.caseId ∧
      ∃ r r' old, db.selectCase a.tenantId a.caseId = some r ∧ r.version = a.expectedVersion ∧
        r.objectKeyVersion = some old ∧ old ≤ a.keyVersion ∧
        db'.caseRow a.tenantId a.caseId = some r' ∧
          r.Updated ⟨r.status, some a.objectReference, some a.ciphertextSha256,
            some a.keyVersion⟩ r'
  appears : ∀ {m d db db' row}, sql.mutate m d db = .ok (db', row) → row.replayed = false →
    db.UniqueCases → ∀ t c, ¬(t = m.tenantId ∧ c = row.caseId) → db.caseRow t c = none →
      db'.caseRow t c = none
  auditAppears : ∀ {a d db db'}, sql.apmeAppendAudit a d db = .ok db' →
    ∀ t c, db.caseRow t c = none → db'.caseRow t c = none
  retentionAppears : ∀ {now actor d db db' n},
    sql.apmeApplyRetention now actor d db = .ok (db', n) →
      ∀ t c, db.caseRow t c = none → db'.caseRow t c = none

/-- **A mutation is a step of the record of its case.** -/
theorem SqlOptimistic.step {sql : SqlFunctions} (hopt : SqlOptimistic sql) {m : SqlMutation}
    {d : Draw} {db db' : Db} {row : MutationRow} (h : sql.mutate m d db = .ok (db', row))
    (hfresh : row.replayed = false) (hdb : db.UniqueCases) :
    Versioned.Step caseSpec (db.caseState m.tenantId row.caseId) m.operation
      (db'.caseState m.tenantId row.caseId) := by
  have hupdate : ∀ {t c : Uuid} {v : ℤ} {u : CaseUpdate} {r r' : CaseRow} {k : CaseContent},
      db.selectCase t c = some r → r.version = v → db'.caseRow t c = some r' →
      r.Updated k r' → u.Applies r.content k →
        Versioned.Step caseSpec (db.caseState t c) (.update v u) (db'.caseState t c) := by
    rintro t c v u r r' k hr rfl hr' hup hu
    rw [Db.caseState_some (hdb.caseRow_of_selectCase hr), Db.caseState_some hr',
      CaseRow.state_live (Db.selectCase_eq_some hr).2.2.2, CaseRow.state_live hup.live,
      hup.version, hup.content]
    exact .update hu
  cases m with
  | createCase a =>
    obtain ⟨hnone, r, hr, hlive, hversion, hinitial⟩ := hopt.creates h hfresh hdb
    have hbefore : db.caseState a.tenantId row.caseId = .absent := Db.caseState_none hnone
    have hafter : db'.caseState a.tenantId row.caseId = .live 1 r.content := by
      rw [Db.caseState_some hr, CaseRow.state_live hlive, hversion]
    change Versioned.Step caseSpec (db.caseState a.tenantId row.caseId) (.create a)
      (db'.caseState a.tenantId row.caseId)
    rw [hbefore, hafter]
    exact .create hinitial
  | transitionCase a =>
    obtain ⟨hcase, r, r', hr, hversion, hr', hup⟩ := hopt.transitions h hfresh hdb
    rw [hcase]
    exact hupdate hr hversion hr' hup (.transition _ _)
  | rotateCaseObject a =>
    obtain ⟨hcase, r, r', old, hr, hversion, hold, hle, hr', hup⟩ := hopt.rotations h hfresh hdb
    rw [hcase]
    exact hupdate hr hversion hr' hup (.rotation _ _ hold hle)

/-! ### The reference implementation -/

namespace Reference

variable {m : SqlMutation} {d : Draw} {db db' : Db} {row : MutationRow}

/-- The row of the case that an update changed, and of the others. -/
theorem caseRow_updateCase {ch : Change} {a : Uuid} {f : CaseRow → CaseRow}
    (hcases : ch.cases = updateCase db m.tenantId a f)
    (hf : ∀ r, (f r).tenantId = r.tenantId ∧ (f r).id = r.id) (e t c : Uuid) :
    (ch.apply m e db).caseRow t c = (db.caseRow t c).map fun r =>
      if r.tenantId = m.tenantId ∧ r.id = a then f r else r := by
  rw [← find?_updateCase db m.tenantId a t c hf, ← hcases]
  rfl

/-- **A change is optimistic**: it creates a case where there is none, or it updates the live row of
its case in the version that it expects. -/
theorem change_optimistic {ch : Change} (hdb : db.UniqueCases) (h : change m d db = .ok ch)
    (e : Uuid) :
    (∀ t c, ¬(t = m.tenantId ∧ c = ch.caseId) → db.caseRow t c = none →
      (ch.apply m e db).caseRow t c = none) ∧
    match m with
    | .createCase a => db.caseRow a.tenantId ch.caseId = none ∧
        (ch.apply m e db).caseRow a.tenantId ch.caseId = some (newCase a ch.caseId)
    | .transitionCase a => ch.caseId = a.caseId ∧ ∃ r, db.selectCase a.tenantId a.caseId = some r ∧
        r.version = a.expectedVersion ∧
          (ch.apply m e db).caseRow a.tenantId a.caseId = some (transitioned a r)
    | .rotateCaseObject a => ch.caseId = a.caseId ∧ ∃ r old,
        db.selectCase a.tenantId a.caseId = some r ∧ r.version = a.expectedVersion ∧
        r.objectKeyVersion = some old ∧ old ≤ a.keyVersion ∧
          (ch.apply m e db).caseRow a.tenantId a.caseId = some (rotated a r) := by
  -- an update leaves no other row, and makes no row appear
  have hupdate : ∀ {a : Uuid} {f : CaseRow → CaseRow} {r : CaseRow},
      ch.cases = updateCase db m.tenantId a f →
      (∀ r, (f r).tenantId = r.tenantId ∧ (f r).id = r.id) →
      db.selectCase m.tenantId a = some r →
        (∀ t c, db.caseRow t c = none → (ch.apply m e db).caseRow t c = none) ∧
          (ch.apply m e db).caseRow m.tenantId a = some (f r) := by
    intro a f r hcases hf hr
    obtain ⟨-, ht, hid, -⟩ := Db.selectCase_eq_some hr
    refine ⟨fun t c hnone => ?_, ?_⟩
    · rw [caseRow_updateCase hcases hf, hnone, Option.map_none]
    · rw [caseRow_updateCase hcases hf, hdb.caseRow_of_selectCase hr, Option.map_some,
        if_pos ⟨ht, hid⟩]
  cases m with
  | createCase a =>
    rw [change] at h
    cases hfound : db.cases.find? fun c => c.tenantId = a.tenantId ∧ c.id = d 0 with
    | some c =>
      simp only [hfound] at h
      cases h
    | none =>
      simp only [hfound] at h
      obtain rfl := Except.ok.inj h
      refine ⟨fun t c hne hnone => ?_, hfound, ?_⟩
      · change (db.cases ++ [newCase a (d 0)]).find? (fun r => r.tenantId = t ∧ r.id = c) = none
        rw [List.find?_append, show db.cases.find? (fun r => r.tenantId = t ∧ r.id = c) = none
          from hnone, Option.none_or]
        refine List.find?_cons_of_neg fun hnew => hne ?_
        obtain ⟨ht, hc⟩ := of_decide_eq_true hnew
        exact ⟨ht.symm, hc.symm⟩
      · change (db.cases ++ [newCase a (d 0)]).find?
          (fun r => r.tenantId = a.tenantId ∧ r.id = d 0) = _
        rw [List.find?_append, hfound, Option.none_or]
        exact List.find?_cons_of_pos (by simp [newCase])
  | transitionCase a =>
    rw [change] at h
    cases hr : db.selectCase a.tenantId a.caseId with
    | none =>
      simp only [hr] at h
      cases h
    | some r =>
      simp only [hr] at h
      split_ifs at h with hversion
      obtain rfl := Except.ok.inj h
      obtain ⟨hnone, hrow⟩ := hupdate (f := transitioned a) rfl (fun r => ⟨rfl, rfl⟩) hr
      exact ⟨fun t c _ => hnone t c, rfl, r, hr, not_not.mp hversion, hrow⟩
  | rotateCaseObject a =>
    rw [change] at h
    cases hr : db.selectCase a.tenantId a.caseId with
    | none =>
      simp only [hr] at h
      cases h
    | some r =>
      simp only [hr] at h
      split_ifs at h with hversion
      cases hk : r.objectKeyVersion with
      | none =>
        simp only [hk] at h
        cases h
      | some old =>
        simp only [hk] at h
        split_ifs at h with hle
        obtain rfl := Except.ok.inj h
        obtain ⟨hnone, hrow⟩ := hupdate (f := rotated a) rfl (fun r => ⟨rfl, rfl⟩) hr
        exact ⟨fun t c _ => hnone t c, rfl, r, old, hr, not_not.mp hversion, hk, by omega, hrow⟩

/-- A first use of a key is a change. -/
theorem mutate_fresh (h : mutate m d db = .ok (db', row)) (hfresh : row.replayed = false) :
    ∃ ch, change m d db = .ok ch ∧ db' = ch.apply m (d 1) db ∧ row.caseId = ch.caseId := by
  rcases mutate_ok h with ⟨rec, -, -, -, rfl⟩ | ⟨ch, -, hch, -, rfl, rfl⟩
  · cases hfresh
  · exact ⟨ch, hch, rfl, rfl⟩

/-- Retention makes no case appear. -/
theorem applyRetention_appears (now : DateTime) (db : Db) {t c : Uuid}
    (hnone : db.caseRow t c = none) : (applyRetention now db).1.caseRow t c = none := by
  rw [applyRetention, Db.caseRow, List.find?_map, Option.map_eq_none_iff, List.find?_eq_none]
  intro r hr hp
  refine List.find?_eq_none.mp hnone r hr ?_
  rw [Function.comp_apply] at hp
  split at hp <;> exact hp

/-- **The reference implementation is optimistic.** -/
theorem optimistic : SqlOptimistic sql where
  creates {a d db db' row} h hfresh hdb := by
    obtain ⟨ch, hch, rfl, hcase⟩ := mutate_fresh (m := .createCase a) h hfresh
    obtain ⟨-, hnone, hrow⟩ := change_optimistic hdb hch (d 1)
    rw [hcase]
    exact ⟨hnone, _, hrow, rfl, rfl, rfl, rfl, rfl⟩
  transitions {a d db db' row} h hfresh hdb := by
    obtain ⟨ch, hch, rfl, hcase⟩ := mutate_fresh (m := .transitionCase a) h hfresh
    obtain ⟨-, hid, r, hr, hversion, hrow⟩ := change_optimistic hdb hch (d 1)
    exact ⟨hcase.trans hid, r, _, hr, hversion, hrow, (Db.selectCase_eq_some hr).2.2.2, rfl, rfl⟩
  rotations {a d db db' row} h hfresh hdb := by
    obtain ⟨ch, hch, rfl, hcase⟩ := mutate_fresh (m := .rotateCaseObject a) h hfresh
    obtain ⟨-, hid, r, old, hr, hversion, hk, hle, hrow⟩ := change_optimistic hdb hch (d 1)
    exact ⟨hcase.trans hid, r, _, old, hr, hversion, hk, hle, hrow,
      (Db.selectCase_eq_some hr).2.2.2, rfl, rfl⟩
  appears {m d db db' row} h hfresh hdb t c hne hnone := by
    rw [sql_mutate] at h
    obtain ⟨ch, hch, rfl, hcase⟩ := mutate_fresh h hfresh
    rw [hcase] at hne
    exact (change_optimistic hdb hch (d 1)).1 t c hne hnone
  auditAppears h t c hnone := by
    obtain rfl := Except.ok.inj h
    exact hnone
  retentionAppears h t c hnone := by
    obtain ⟨rfl, -⟩ := Prod.mk.inj (Except.ok.inj h)
    exact applyRetention_appears _ _ hnone

end Reference

end ApmeApi
