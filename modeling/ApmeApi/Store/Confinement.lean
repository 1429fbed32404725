import ApmeApi.Store.Reference

/-!
# Confinement to a tenant

`SqlTenantLocal` says what the functions read, `SqlConfined` what they write: a function that is
called for one tenant leaves the rows of every other tenant as they are. Retention is not confined,
it is for all tenants.
-/

namespace ApmeApi

namespace Db.Agree

variable {t : Uuid} {db db' db'' : Db}

theorem refl (t : Uuid) (db : Db) : Agree t db db := ⟨rfl, rfl, rfl, rfl, rfl, rfl⟩

theorem symm (h : Agree t db db') : Agree t db' db :=
  ⟨h.tenants.symm, h.memberships.symm, h.cases.symm, h.events.symm, h.idempotency.symm,
    h.audit.symm⟩

theorem trans (h : Agree t db db') (h' : Agree t db' db'') : Agree t db db'' :=
  ⟨h.tenants.trans h'.tenants, h.memberships.trans h'.memberships, h.cases.trans h'.cases,
    h.events.trans h'.events, h.idempotency.trans h'.idempotency, h.audit.trans h'.audit⟩

end Db.Agree

/-- **Confinement.** The functions that are called with a tenant do not change the rows of
others. -/
structure SqlConfined (sql : SqlFunctions) : Prop where
  mutate : ∀ {m d db db' row}, sql.mutate m d db = .ok (db', row) → ∀ t, t ≠ m.tenantId →
    Db.Agree t db db'
  audit : ∀ {a d db db'}, sql.apmeAppendAudit a d db = .ok db' → ∀ t, t ≠ a.tenantId →
    Db.Agree t db db'

namespace Reference

variable {m : SqlMutation} {d : Draw} {db db' : Db} {row : MutationRow}

/-- An update of a case leaves the cases of other tenants. -/
theorem updateCase_filter {t t' : Uuid} (ht : t ≠ t') (db : Db) (caseId : Uuid)
    {f : CaseRow → CaseRow} (hf : ∀ r, (f r).tenantId = r.tenantId) :
    (updateCase db t' caseId f).filter (fun r => r.tenantId = t) =
      db.cases.filter fun r => r.tenantId = t := by
  have hcomp : (fun r : CaseRow => decide (r.tenantId = t)) ∘ (fun r =>
      if r.tenantId = t' ∧ r.id = caseId then f r else r) = fun r => decide (r.tenantId = t) := by
    funext r
    simp only [Function.comp_apply]
    split
    · rw [hf]
    · rfl
  rw [updateCase, List.filter_map, hcomp]
  -- no case of the other tenant is updated
  refine (List.map_congr_left fun r hr => ?_).trans (List.map_id _)
  have hrt : r.tenantId = t := of_decide_eq_true (List.mem_filter.mp hr).2
  exact if_neg fun hcase => ht (hrt.symm.trans hcase.1)

/-- A change leaves the cases of other tenants. -/
theorem change_filter {ch : Change} (h : change m d db = .ok ch) {t : Uuid}
    (ht : t ≠ m.tenantId) :
    ch.cases.filter (fun r => r.tenantId = t) = db.cases.filter fun r => r.tenantId = t := by
  cases m with
  | createCase a =>
    rw [change] at h
    split at h
    · cases h
    · obtain rfl := Except.ok.inj h
      have hnew : [newCase a (d 0)].filter (fun r => r.tenantId = t) = [] :=
        List.filter_eq_nil_iff.mpr fun r hr hrt => by
          obtain rfl := List.mem_singleton.mp hr
          exact ht (of_decide_eq_true hrt).symm
      rw [List.filter_append, hnew, List.append_nil]
  | transitionCase a =>
    rw [change] at h
    split at h
    · cases h
    · split_ifs at h
      obtain rfl := Except.ok.inj h
      exact updateCase_filter ht db a.caseId fun _ => rfl
  | rotateCaseObject a =>
    rw [change] at h
    split at h
    · cases h
    · split_ifs at h
      split at h
      · cases h
      · split_ifs at h
        obtain rfl := Except.ok.inj h
        exact updateCase_filter ht db a.caseId fun _ => rfl

/-- A change leaves the rows of other tenants. -/
theorem apply_confined {ch : Change} (h : change m d db = .ok ch) (e : Uuid) {t : Uuid}
    (ht : t ≠ m.tenantId) : Db.Agree t db (ch.apply m e db) where
  tenants := rfl
  memberships := rfl
  cases := (change_filter h ht).symm
  events := by
    rw [Change.apply, List.filter_append, List.filter_cons_of_neg, List.filter_nil,
      List.append_nil]
    exact fun hev => ht (of_decide_eq_true hev).symm
  idempotency := by
    rw [Change.apply, List.filter_append, List.filter_cons_of_neg, List.filter_nil,
      List.append_nil]
    exact fun hkey => ht (of_decide_eq_true hkey).symm
  audit := rfl

/-- **The reference implementation is confined** to the tenant of a call. -/
theorem confined : SqlConfined sql where
  mutate {m d db db' row} h t ht := by
    rw [sql_mutate] at h
    rcases mutate_ok h with ⟨rec, -, -, rfl, -⟩ | ⟨ch, -, hch, -, rfl, -⟩
    · exact .refl t db'
    · exact apply_confined hch (d 1) ht
  audit {a d db db'} h t ht := by
    obtain rfl := Except.ok.inj h
    refine ⟨rfl, rfl, rfl, rfl, rfl, ?_⟩
    rw [List.filter_append, List.filter_cons_of_neg, List.filter_nil, List.append_nil]
    exact fun ha => ht (of_decide_eq_true ha).symm

end Reference

end ApmeApi
