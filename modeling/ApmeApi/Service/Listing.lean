import ApmeApi.Lib.Traversal
import ApmeApi.Service.Commit
import ApmeApi.Service.Reference
import ApmeApi.Store.Versions

/-!
# List and get agree

`list_cases` and `get_case` read the cases with two queries and decode rows with one function,
the list all or nothing. On one state of the database they describe the same set of cases: the
rows of the list are those that a get finds, one for each id (`UniqueCases.selectCase_iff`), in
the order of the list query (`pairwise_selectCases`), and the list is refused exactly when a
live row of the tenant does not decode (`list_get_agree`).
-/

namespace ApmeApi

open Interaction Traversal

namespace Db

/-! ### The two queries -/

theorem mem_selectCases {db : Db} {t : Uuid} {r : CaseRow} :
    r ∈ db.selectCases t ↔ r ∈ db.cases ∧ r.tenantId = t ∧ r.tombstonedAt = none := by
  rw [selectCases, List.mem_insertionSort, List.mem_filter, decide_eq_true_eq]

/-- The rows of a list are in the order of its query. -/
theorem pairwise_selectCases (db : Db) (t : Uuid) : (db.selectCases t).Pairwise listOrder := by
  have htotal : Std.Total listOrder := ⟨fun a b => by
    rcases lt_trichotomy a.createdAt b.createdAt with h | h | h
    · exact .inr (.inl h)
    · rcases BitVec.le_total a.id.bits b.id.bits with hle | hle
      · exact .inl (.inr ⟨h, hle⟩)
      · exact .inr (.inr ⟨h.symm, hle⟩)
    · exact .inl (.inl h)⟩
  have htrans : IsTrans CaseRow listOrder := ⟨fun a b c hab hbc => by
    rcases hab with hab | ⟨hab, hle⟩
    · rcases hbc with hbc | ⟨hbc, -⟩
      · exact .inl (hbc.trans hab)
      · exact .inl (hbc ▸ hab)
    · rcases hbc with hbc | ⟨hbc, hle'⟩
      · exact .inl (hab ▸ hbc)
      · exact .inr ⟨hab.trans hbc, BitVec.le_trans hle hle'⟩⟩
  exact List.pairwise_insertionSort listOrder _

/-- The rows of a list have different ids. -/
theorem UniqueCases.nodup_selectCases {db : Db} (hdb : db.UniqueCases) (t : Uuid) :
    (db.selectCases t).Pairwise fun r r' => r.id ≠ r'.id := by
  have hfilter : (db.cases.filter fun c => c.tenantId = t ∧ c.tombstonedAt = none).Pairwise
      fun r r' => r.id ≠ r'.id := by
    refine (hdb.filter _).imp_of_mem fun hr hr' hne hid => hne ⟨?_, hid⟩
    simp only [List.mem_filter, decide_eq_true_eq] at hr hr'
    exact hr.2.1.trans hr'.2.1.symm
  exact (List.perm_insertionSort listOrder _).symm.pairwise hfilter fun h => h.symm

/-- **A get finds the rows of the list.** -/
theorem UniqueCases.selectCase_iff {db : Db} (hdb : db.UniqueCases) {t id : Uuid} {r : CaseRow} :
    db.selectCase t id = some r ↔ r ∈ db.selectCases t ∧ r.id = id := by
  rw [mem_selectCases]
  constructor
  · intro h
    obtain ⟨hmem, ht, hid, hlive⟩ := selectCase_eq_some h
    exact ⟨⟨hmem, ht, hlive⟩, hid⟩
  · rintro ⟨⟨hmem, ht, hlive⟩, hid⟩
    cases h : db.selectCase t id with
    | none =>
      rw [selectCase, List.find?_eq_none] at h
      exact absurd (decide_eq_true ⟨ht, hid, hlive⟩) (h r hmem)
    | some r' =>
      obtain ⟨hmem', ht', hid', -⟩ := selectCase_eq_some h
      rw [hdb.eq_of_mem hmem' hmem (ht'.trans ht.symm) (hid'.trans hid.symm)]

end Db

/-! ### The two operations -/

namespace CaseService

variable {sql : SqlFunctions}

/-- What `listCases` returns on one state. -/
def listResult (sql : SqlFunctions) (context : TenantContext) (i : ℕ → Input) (w : World) :
    Except CaseServiceError (List PersistedCase) :=
  (Prog.run (apiMachine sql) (listCases context).run i w).1

/-- What `getCase` returns on one state. -/
def getResult (sql : SqlFunctions) (context : TenantContext) (id : Uuid) (i : ℕ → Input)
    (w : World) : Except CaseServiceError PersistedCase :=
  (Prog.run (apiMachine sql) (getCase context id).run i w).1

theorem listResult_eq (context : TenantContext) (i : ℕ → Input) (w : World) :
    listResult sql context i w =
      listOfReply ((i 0).fault.answer (w.db.selectCases context.tenantId)) := by
  rw [listResult, listCases_run_eq]
  rfl

theorem getResult_eq (context : TenantContext) (id : Uuid) (i : ℕ → Input) (w : World) :
    getResult sql context id i w =
      caseOfReply ((i 0).fault.answer (w.db.selectCase context.tenantId id)) := by
  rw [getResult, getCase_run_eq]
  rfl

/-- A list that is not a storage error is one of the rows of the tenant. -/
theorem listResult_cases (sql : SqlFunctions) (context : TenantContext) (i : ℕ → Input)
    (w : World) :
    ((i 0).fault = .none ∧
      listResult sql context i w = (w.db.selectCases context.tenantId).mapM caseFromRow) ∨
    (i 0).fault ≠ .none ∧ ∃ e, listResult sql context i w = .error (.storage e) := by
  rw [listResult_eq]
  cases (i 0).fault with
  | none => exact .inl ⟨rfl, rfl⟩
  | lost e => exact .inr ⟨nofun, e, rfl⟩
  | ackLost => exact .inr ⟨nofun, .io, rfl⟩

/-- A get that the database answers decodes the row of the list that has the id. -/
theorem getResult_of_mem {w : World} (hdb : w.db.UniqueCases) {context : TenantContext}
    {r : CaseRow} (hr : r ∈ w.db.selectCases context.tenantId) {i : ℕ → Input}
    (hi : (i 0).fault = .none) : getResult sql context r.id i w = caseFromRow r := by
  rw [getResult_eq, hi, hdb.selectCase_iff.mpr ⟨hr, rfl⟩]
  rfl

/-- **A get finds a case exactly when it is in the list** that was decoded. -/
theorem getResult_eq_ok_iff {w : World} (hdb : w.db.UniqueCases) {context : TenantContext}
    {cs : List PersistedCase} (hcs : (w.db.selectCases context.tenantId).mapM caseFromRow = .ok cs)
    {i : ℕ → Input} (hi : (i 0).fault = .none) {id : Uuid} {c : PersistedCase} :
    getResult sql context id i w = .ok c ↔ c ∈ cs ∧ c.id = id := by
  constructor
  · intro h
    rw [getResult_eq, hi] at h
    cases hsel : w.db.selectCase context.tenantId id with
    | none =>
      rw [hsel] at h
      cases h
    | some r =>
      rw [hsel] at h
      obtain ⟨hr, hid⟩ := hdb.selectCase_iff.mp hsel
      obtain ⟨c', hc', he⟩ := (mem_of_mapM_eq_ok hcs).1 r hr
      obtain rfl := Except.ok.inj (he.symm.trans h)
      obtain ⟨-, -, hcid, -⟩ := caseFromRow_eq_ok he
      exact ⟨hc', hcid.trans hid⟩
  · rintro ⟨hc, rfl⟩
    obtain ⟨r, hr, he⟩ := (mem_of_mapM_eq_ok hcs).2 c hc
    obtain ⟨-, -, hcid, -⟩ := caseFromRow_eq_ok he
    rw [hcid, getResult_of_mem hdb hr hi, he]

/-- A row is refused as invalid only. -/
theorem caseFromRow_eq_error {r : CaseRow} {e : CaseServiceError} (h : caseFromRow r = .error e) :
    ∃ message, e = .validation message := by
  rcases caseFromRow_cases r with ⟨c, hc, -⟩ | ⟨message, hm⟩
  · rw [hc] at h
    cases h
  · exact ⟨message, Except.error.inj (h.symm.trans hm)⟩

/-- A list fails in the store, or for a row that is refused. -/
theorem listOfReply_eq_error {reply : Except SqlxError (List CaseRow)} {e : CaseServiceError}
    (h : listOfReply reply = .error e) :
    (∃ s, reply = .error s ∧ e = .storage s) ∨
      ∃ rows, reply = .ok rows ∧ ∃ r ∈ rows, ∃ message, caseFromRow r = .error e ∧
        e = .validation message := by
  cases reply with
  | error s => exact .inl ⟨s, rfl, (Except.error.inj h).symm⟩
  | ok rows =>
    obtain ⟨r, hr, he⟩ := exists_of_mapM_eq_error h
    obtain ⟨message, hm⟩ := caseFromRow_eq_error he
    exact .inr ⟨rows, rfl, r, hr, message, he, hm⟩

/-- A list is refused as invalid when a live row of the tenant does not decode. -/
theorem refused_iff (rows : List CaseRow) :
    (∃ e, rows.mapM caseFromRow = .error e ∧ ∀ s, e ≠ .storage s) ↔
      ∃ r ∈ rows, ∃ message, caseFromRow r = .error (.validation message) := by
  constructor
  · rintro ⟨e, h, -⟩
    obtain ⟨r, hr, he⟩ := exists_of_mapM_eq_error h
    obtain ⟨message, rfl⟩ := caseFromRow_eq_error he
    exact ⟨r, hr, message, he⟩
  · rintro ⟨r, hr, message, hm⟩
    obtain ⟨e, he⟩ := mapM_eq_error_of_mem hr hm
    obtain ⟨r', -, he'⟩ := exists_of_mapM_eq_error he
    obtain ⟨message', rfl⟩ := caseFromRow_eq_error he'
    exact ⟨_, he, nofun⟩

end CaseService

/-- The order of a list of cases: the newest first, those of one instant by their ids. -/
def PersistedCase.Before (c c' : PersistedCase) : Prop :=
  c'.createdAt < c.createdAt ∨ (c.createdAt = c'.createdAt ∧ c.id.bits < c'.id.bits)

open CaseService

/-- Decoded rows are in the order of their rows. -/
theorem before_of_listOrder {r r' : CaseRow} {c c' : PersistedCase} (hr : caseFromRow r = .ok c)
    (hr' : caseFromRow r' = .ok c') (horder : Db.listOrder r r') (hid : r.id ≠ r'.id) :
    c.Before c' := by
  obtain ⟨-, -, hcid, -, -, -, hcat⟩ := caseFromRow_eq_ok hr
  obtain ⟨-, -, hcid', -, -, -, hcat'⟩ := caseFromRow_eq_ok hr'
  rw [PersistedCase.Before, hcid, hcid', hcat, hcat']
  rcases horder with hlt | ⟨heq, hle⟩
  · exact .inl hlt
  · have hne : r.id.bits ≠ r'.id.bits := fun h => hid (congrArg Uuid.mk h)
    exact .inr ⟨heq, BitVec.lt_of_le_ne hle hne⟩

/-- **List and get agree** on every state of the database, whatever the rows hold. -/
theorem list_get_agree (sql : SqlFunctions) {w : World} (hdb : w.db.UniqueCases)
    (context : TenantContext) (i : ℕ → Input) {j : ℕ → Input} (hj : (j 0).fault = .none) :
    (∀ cs, listResult sql context i w = .ok cs →
      (∀ id c, getResult sql context id j w = .ok c ↔ c ∈ cs ∧ c.id = id) ∧
      (cs.map PersistedCase.id).Nodup ∧ cs.Pairwise PersistedCase.Before ∧
      ∀ c ∈ cs, c.tombstonedAt = none ∧ c.tenantId = context.tenantId) ∧
    ((∃ e, listResult sql context i w = .error e ∧ ∀ s, e ≠ .storage s) ↔
      (i 0).fault = .none ∧ ∃ r ∈ w.db.cases, r.tenantId = context.tenantId ∧
        r.tombstonedAt = none ∧
          ∃ message, getResult sql context r.id j w = .error (.validation message)) := by
  have hunique := hdb.nodup_selectCases context.tenantId
  have horder := (w.db.pairwise_selectCases context.tenantId).and hunique
  rcases listResult_cases sql context i w with ⟨hi, hlist⟩ | ⟨hi, s, hlist⟩
  · -- the store answered, so the list is the decoding of the selected rows, in their order
    constructor
    · intro cs hcs
      rw [hlist] at hcs
      refine ⟨fun id c => getResult_eq_ok_iff hdb hcs hj, ?_, ?_, fun c hc => ?_⟩
      · rw [List.Nodup, List.pairwise_map]
        refine pairwise_of_mapM_eq_ok (fun hne hr hr' => ?_) hcs hunique
        rwa [(caseFromRow_eq_ok hr).2.2.1, (caseFromRow_eq_ok hr').2.2.1]
      · exact pairwise_of_mapM_eq_ok (fun h hr hr' => before_of_listOrder hr hr' h.1 h.2) hcs horder
      · obtain ⟨r, hr, he⟩ := (mem_of_mapM_eq_ok hcs).2 c hc
        obtain ⟨-, ht, hlive⟩ := Db.mem_selectCases.mp hr
        obtain ⟨-, -, -, hct, -, hctomb, -⟩ := caseFromRow_eq_ok he
        exact ⟨hctomb.trans hlive, hct.trans ht⟩
    · rw [hlist, refused_iff]
      constructor
      · rintro ⟨r, hr, message, hm⟩
        obtain ⟨hmem, ht, hlive⟩ := Db.mem_selectCases.mp hr
        exact ⟨hi, r, hmem, ht, hlive, message, (getResult_of_mem hdb hr hj).trans hm⟩
      · rintro ⟨-, r, hmem, ht, hlive, message, hm⟩
        have hr := Db.mem_selectCases.mpr ⟨hmem, ht, hlive⟩
        exact ⟨r, hr, message, (getResult_of_mem hdb hr hj).symm.trans hm⟩
  · -- a storage error decides nothing about the rows
    rw [hlist]
    constructor
    · intro cs hcs
      cases hcs
    · constructor
      · rintro ⟨e, he, hne⟩
        exact absurd (Except.error.inj he).symm (hne s)
      · rintro ⟨hnone, -⟩
        exact absurd hnone hi

section

open Reference

/-- Two cases that decode are listed and found; a third that does not decode refuses the list, and
the get of its id. -/
theorem list_get_agree_sample :
    let context : TenantContext := ⟨Uuid.nil, Uuid.nil, .viewer⟩
    let rows := [storedCase ⟨1⟩ "intake" 1, storedCase ⟨2⟩ "review" 2]
    (∃ cs, listResult Reference.sql context (fun _ => input)
        (World.initial (officeWith rows) 0) = .ok cs ∧ cs.map PersistedCase.id = [⟨2⟩, ⟨1⟩] ∧
      ∀ id c, getResult Reference.sql context id (fun _ => input)
        (World.initial (officeWith rows) 0) = .ok c ↔ c ∈ cs ∧ c.id = id) ∧
    ∃ r ∈ storedCase ⟨3⟩ "lost" 3 :: rows, ∃ message,
      getResult Reference.sql context r.id (fun _ => input)
        (World.initial (officeWith (storedCase ⟨3⟩ "lost" 3 :: rows)) 0) =
          .error (.validation message) := by
  intro context rows
  have hrows : (World.initial (officeWith rows) 0).db.UniqueCases := by
    unfold Db.UniqueCases
    decide
  have hlost : (World.initial (officeWith (storedCase ⟨3⟩ "lost" 3 :: rows)) 0).db.UniqueCases := by
    unfold Db.UniqueCases
    decide
  constructor
  · obtain ⟨cs, hcs, hids⟩ : ∃ cs, listResult Reference.sql context (fun _ => input)
        (World.initial (officeWith rows) 0) = .ok cs ∧ cs.map PersistedCase.id = [⟨2⟩, ⟨1⟩] :=
      ⟨_, rfl, rfl⟩
    exact ⟨cs, hcs, hids, ((list_get_agree Reference.sql hrows context _ rfl).1 cs hcs).1⟩
  · have hrefused := (list_get_agree Reference.sql hlost context (fun _ => input)
      (j := fun _ => input) rfl).2.mp ⟨_, rfl, nofun⟩
    obtain ⟨-, r, hr, -, -, hm⟩ := hrefused
    exact ⟨r, hr, hm⟩

end

end ApmeApi
