import ApmeApi.Service.Replay
import ApmeApi.Store.Versions

/-!
# The version of a case, call by call

A commit raises the version of its case by one (`Commits.raises`); no other call changes the state
of a live case (`post_keepsCase`). So versions do not go down (`exec_reached`), and a version that
a commit produces was not reached before.
-/

namespace ApmeApi

open Interaction CaseService

variable {sql : SqlFunctions}

/-- The call commits a mutation of the case. -/
def CommitsTo (o : Observed sql) (t c : Uuid) : Prop :=
  ∃ m row, Commits o m row ∧ m.tenantId = t ∧ row.caseId = c

/-- The case exists, in this version or a later one. -/
def Db.Reached (db : Db) (t c : Uuid) (version : ℤ) : Prop :=
  ∃ r, db.caseRow t c = some r ∧ version ≤ r.version

theorem Db.Reached.of_keepsCase {db db' : Db} {t c : Uuid} {version : ℤ}
    (hk : Db.KeepsCase db db' t c) (hr : db.Reached t c version) : db'.Reached t c version := by
  obtain ⟨r, hrow, hle⟩ := hr
  obtain ⟨r', hrow', hkept⟩ := hk r hrow
  exact ⟨r', hrow', hle.trans hkept.version⟩

/-! ### One call -/

section Versions

variable (hsql : SqlContract sql) (hversioned : SqlVersioned sql)
include hversioned

/-- **A commit raises the version of its case.** -/
theorem Commits.raises {o : Observed sql} {m : SqlMutation} {row : MutationRow}
    (hc : Commits o m row) (hdb : o.pre.db.UniqueCases) :
    m.Raises row o.pre.db (Obs.post o).db := by
  obtain ⟨i, w, rfl, hok, hfresh⟩ := hc.exec
  exact hversioned.mutate hok hfresh hdb

/-- The version that a commit produces was not reached before it. -/
theorem Commits.not_reached {o : Observed sql} {m : SqlMutation} {row : MutationRow}
    (hc : Commits o m row) (hdb : o.pre.db.UniqueCases) :
    ¬ o.pre.db.Reached m.tenantId row.caseId row.caseVersion := by
  rintro ⟨r, hrow, hle⟩
  have hraised := (hc.raises hversioned hdb).raised r hrow
  omega

/-- The version that a commit produces is reached after it. -/
theorem Commits.reached {o : Observed sql} {m : SqlMutation} {row : MutationRow}
    (hc : Commits o m row) (hdb : o.pre.db.UniqueCases) :
    (Obs.post o).db.Reached m.tenantId row.caseId row.caseVersion := by
  obtain ⟨r, hrow, hversion, -⟩ := (hc.raises hversioned hdb).produced
  exact ⟨r, hrow, hversion.ge⟩

/-- No call makes two rows of one case. -/
theorem exec_unique (i : Input) (c : Call) (w : World) (hdb : w.db.UniqueCases) :
    (exec sql i c w).2.db.UniqueCases :=
  exec_db hdb (fun _ _ _ _ _ h => hversioned.mutateUnique h hdb)
    (fun _ _ _ h => hversioned.auditUnique h hdb) fun _ _ _ _ _ h =>
      hversioned.retentionUnique h hdb

include hsql

/-- **A call that does not commit a mutation of a case keeps it.** -/
theorem post_keepsCase (o : Observed sql) (hdb : o.pre.db.UniqueCases) {t id : Uuid}
    (ho : ¬ CommitsTo o t id) : Db.KeepsCase o.pre.db (Obs.post o).db t id := by
  obtain ⟨i, w, c⟩ := o
  have hrefl : Db.KeepsCase w.db w.db t id := Db.KeepsCase.of_eq rfl t id
  refine exec_db (P := fun db => Db.KeepsCase w.db db t id) hrefl ?_ ?_ ?_
  · rintro m db row rfl hfault hok
    rcases hsql.mutate_cases hok with ⟨-, hfresh, -⟩ | ⟨rec, -, -, rfl, -⟩
    · refine (hversioned.mutate hok hfresh hdb).others t id fun hcase => ho ?_
      exact ⟨m, row, ⟨i, w, db, rfl, hfault, hok, hfresh⟩, hcase.1.symm, hcase.2.symm⟩
    · exact hrefl
  · exact fun a db _ h => hversioned.audit h t id
  · exact fun now actor db n _ h => hversioned.retention h t id

/-- **Versions do not go down.** -/
theorem exec_reached (i : Input) (c : Call) (w : World) (hdb : w.db.UniqueCases) {t id : Uuid}
    {version : ℤ} (hr : w.db.Reached t id version) :
    (exec sql i c w).2.db.Reached t id version := by
  by_cases ho : CommitsTo (⟨i, w, c⟩ : Observed sql) t id
  · obtain ⟨m, row, hc, rfl, rfl⟩ := ho
    obtain ⟨r, hrow, hle⟩ := hr
    obtain ⟨r', hrow', hversion, -⟩ := (hc.raises hversioned hdb).produced
    refine ⟨r', hrow', ?_⟩
    have hup := (hc.raises hversioned hdb).raised r hrow
    omega
  · exact hr.of_keepsCase (post_keepsCase hsql hversioned ⟨i, w, c⟩ hdb ho)

end Versions

end ApmeApi
