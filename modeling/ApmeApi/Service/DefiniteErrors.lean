import ApmeApi.Service.System
import ApmeApi.Service.Reference

/-!
# Errors after which nothing was committed

An error of a mutation other than `storage` is definite: the answer tells the client that its
request was refused. Everything before the SQL call and everything the SQL functions raise is
refused without an effect; but the case is read once more after the call, and that read has
definite errors of its own.

`definite_error_iff` is exact: the definite errors of a call are atomic unless its own first use
of a key committed and the read that followed found the case gone or undecodable.
-/

namespace ApmeApi

open Interaction CaseService

/-- Errors that the client may take for a refusal; the others are `storage`. -/
def CaseServiceError.isDefinite : CaseServiceError → Bool
  | .storage _ => false
  | _ => true

variable {sql : SqlFunctions}

/-- No call of the history changed the database. -/
def CommittedNothing (h : History sql) : Prop := ∀ o ∈ h, o.post.db = o.pre.db

instance (h : History sql) : Decidable (CommittedNothing h) :=
  inferInstanceAs (Decidable (∀ o ∈ h, o.post.db = o.pre.db))

/-- A first use of a key committed, and the read of its case was answered with no row, or with a
row that does not decode. -/
def CommitUnreadable (h : History sql) : Prop :=
  ∃ m row t found e, Got h (.mutate m) (.ok row) ∧ row.replayed = false ∧
    Got h (.selectCase t row.caseId) (.ok found) ∧ caseOfReply (.ok found) = .error e

/-! ### The effect of one call -/

/-- A mutation whose error is definite changed nothing: the SQL function raised it, or the call
was never made. -/
theorem mutate_refused {i : Input} {w : World} {m : SqlMutation} {e : SqlxError}
    (h : Obs.reply (M := apiMachine sql) ⟨i, w, .mutate m⟩ = .error e)
    (he : (mapSqlError e).isDefinite = true) :
    (Obs.post (M := apiMachine sql) ⟨i, w, .mutate m⟩).db = w.db := by
  obtain ⟨hpost, -⟩ | ⟨db, row, -, -, ⟨-, hr⟩ | ⟨-, hr⟩⟩ :=
    w.transaction_cases i.fault (sql.mutate m i.draw w.db)
  · exact congrArg World.db hpost
  · cases hr.symm.trans h
  · obtain rfl := Except.error.inj (hr.symm.trans h)
    cases he

/-- An answered read that yields no case fails with a definite error. -/
theorem caseOfReply_ok_isDefinite {found : Option CaseRow} {e : CaseServiceError}
    (h : caseOfReply (.ok found) = .error e) : e.isDefinite = true := by
  cases found with
  | none =>
    obtain rfl := Except.error.inj h
    rfl
  | some row =>
    rcases caseFromRow_cases row with ⟨c, hc, -⟩ | ⟨message, hm⟩
    · cases hc.symm.trans h
    · obtain rfl := Except.error.inj (hm.symm.trans h)
      rfl

/-- A failed read of the event is a storage error. -/
theorem resultOfReply_error {row : MutationRow} {case : PersistedCase}
    {reply : Except SqlxError (Option EventRow)} {e : CaseServiceError}
    (h : resultOfReply row case reply = .error e) : e.isDefinite = false := by
  rcases reply with e' | found
  · obtain rfl := Except.error.inj h
    rfl
  · cases found with
    | none =>
      obtain rfl := Except.error.inj h
      rfl
    | some event => cases h

section Contract

variable (hsql : SqlContract sql)
include hsql

/-- A replay changes nothing. -/
theorem mutate_replayed {i : Input} {w : World} {m : SqlMutation} {row : MutationRow}
    (h : Obs.reply (M := apiMachine sql) ⟨i, w, .mutate m⟩ = .ok row)
    (hr : row.replayed = true) :
    (Obs.post (M := apiMachine sql) ⟨i, w, .mutate m⟩).db = w.db := by
  obtain ⟨db, hdb, hpost⟩ := mutate_reply_ok h
  rcases hsql.mutate_cases hdb with ⟨-, hfresh, -⟩ | ⟨rec, -, -, rfl, -⟩
  · rw [hr] at hfresh
    cases hfresh
  · exact congrArg World.db hpost

/-- A first use changes the database: it records its key. -/
theorem mutate_first {i : Input} {w : World} {m : SqlMutation} {row : MutationRow}
    (h : Obs.reply (M := apiMachine sql) ⟨i, w, .mutate m⟩ = .ok row)
    (hr : row.replayed = false) :
    (Obs.post (M := apiMachine sql) ⟨i, w, .mutate m⟩).db ≠ w.db := by
  obtain ⟨db, hdb, hpost⟩ := mutate_reply_ok h
  have hnew := hsql.findKey_of_fresh hdb hr
  obtain ⟨rec, hrec, -⟩ := hsql.mutate_recorded hdb
  rw [hpost]
  rintro rfl
  rw [hnew] at hrec
  cases hrec

/-! ### One mutation -/

/-- **One execution of `commit`.** -/
theorem commit_definite_iff {context : TenantContext} {m : SqlMutation} {h : History sql}
    {r : Except CaseServiceError CaseMutationResult} (hrun : CommitRun context m h r) :
    (∀ e, r = .error e → e.isDefinite = true → CommittedNothing h) ↔ ¬ CommitUnreadable h := by
  cases hrun with
  | @refused i w e hm =>
    refine iff_of_true ?_ ?_
    · intro e' he' hdef o ho
      obtain rfl := List.mem_singleton.mp ho
      obtain rfl := Except.error.inj he'
      exact mutate_refused hm hdef
    · rintro ⟨m', row, t, found, e', ⟨i', w', hmem, hr⟩, -⟩
      simp only [List.mem_singleton, Obs.mk.injEq, Call.mutate.injEq] at hmem
      obtain ⟨rfl, rfl, rfl⟩ := hmem
      cases hm.symm.trans hr
  | @unread i i' w w' row e hm hc =>
    -- only a first use commits; a replay that cannot be read leaves everything as it was
    cases hrep : row.replayed with
    | true =>
      refine iff_of_true (fun e' _ _ o ho => ?_) ?_
      · rcases List.mem_cons.mp ho with rfl | ho
        · exact mutate_replayed hsql hm hrep
        · obtain rfl := List.mem_singleton.mp ho
          rfl
      · rintro ⟨m', row', t, found, e', ⟨i₁, w₁, hmem, hr⟩, hfresh, -⟩
        simp only [List.mem_cons, List.not_mem_nil, Obs.mk.injEq, Call.mutate.injEq, reduceCtorEq,
          and_false, or_false] at hmem
        obtain ⟨rfl, rfl, rfl⟩ := hmem
        obtain rfl := Except.ok.inj (hm.symm.trans hr)
        rw [hrep] at hfresh
        cases hfresh
    | false =>
      cases hreply : Obs.reply (M := apiMachine sql)
          ⟨i', w', .selectCase context.tenantId row.caseId⟩ with
      | error se =>
        rw [hreply] at hc
        obtain rfl := Except.error.inj hc
        refine iff_of_true (fun e' he' hdef => ?_) ?_
        · obtain rfl := Except.error.inj he'
          cases hdef
        · rintro ⟨m', row', t, found, e', -, -, ⟨i₁, w₁, hmem, hr⟩, -⟩
          simp only [List.mem_cons, List.not_mem_nil, Obs.mk.injEq, Call.selectCase.injEq,
            reduceCtorEq, and_false, or_false, false_or] at hmem
          obtain ⟨rfl, rfl, rfl, hid⟩ := hmem
          rw [hid] at hr
          cases hreply.symm.trans hr
      | ok found =>
        rw [hreply] at hc
        refine iff_of_false (fun hall => ?_) (not_not.mpr ?_)
        · have hnothing := hall e rfl (caseOfReply_ok_isDefinite hc)
          exact mutate_first hsql hm hrep (hnothing _ (List.mem_cons_self ..))
        · exact ⟨m, row, context.tenantId, found, e, ⟨i, w, by simp, hm⟩, hrep,
            ⟨i', w', by simp, hreply⟩, hc⟩
  | @read i i' i'' w w' w'' row case hm hc =>
    -- the case was read, so an error can only come from the event: never a definite one
    refine iff_of_true (fun e he hdef => ?_) ?_
    · rw [resultOfReply_error he] at hdef
      cases hdef
    · rintro ⟨m', row', t, found, e, -, -, ⟨i₁, w₁, hmem, hr⟩, hfound⟩
      simp only [List.mem_cons, List.not_mem_nil, Obs.mk.injEq, Call.selectCase.injEq,
        reduceCtorEq, and_false, or_false, false_or] at hmem
      obtain ⟨rfl, rfl, rfl, hid⟩ := hmem
      rw [hid] at hr
      rw [hr, hfound] at hc
      cases hc

/-! ### Every run -/

/-- **Exactness.** In every run, an ended mutation has atomic definite errors exactly when it
did not commit a first use whose case was then found gone or undecodable. -/
theorem definite_error_iff [ApmeInterfaces] [Sha2] (w : World)
    (as : List (Action (serviceSystem sql))) {i : ℕ} {t : Task (serviceSystem sql)}
    {r : Except CaseServiceError CaseMutationResult}
    (ht : ((Config.initial w).run as).tasks[i]? = some t) (hr : t.result = some (.mutation r)) :
    (∀ e, r = .error e → e.isDefinite = true → CommittedNothing (t.history : History sql)) ↔
      ¬ CommitUnreadable (t.history : History sql) := by
  have hf := Config.run_follows w as ht
  rw [Task.result_eq_some.mp hr] at hf
  obtain ⟨context, checked, -, ⟨e, -, hh, -⟩ | ⟨m, -, hrun⟩⟩ :=
    CaseRequest.ended (h := (t.history : History sql)) hf
  · rw [hh]
    refine iff_of_true (fun e _ _ o ho => by cases ho) ?_
    rintro ⟨m, row, t, found, e, ⟨i, w, hmem, -⟩, -⟩
    cases hmem
  · exact commit_definite_iff hsql hrun

end Contract

/-! ### Retention between the commit and the read -/

section Tombstoned

open Reference

/-- A command whose case may be kept for a minute. -/
def briefCommand : CreateCaseCommand where
  title := "Birth certificate"
  summary := ""
  clientReference := "CLIENT"
  destinationCountry := "Peru"
  documentType := "birth_certificate"
  nextActionDueAt := none
  retentionClass := .standard
  retainUntil := instant 60
  encryptedDocument := none

/-- A creation at time `now` by the member of the tenant. -/
def briefCreation (now : DateTime) : CaseRequest :=
  .createCase ⟨Uuid.nil, Uuid.nil, .administrator⟩ ⟨"user", "session"⟩ "key" briefCommand now

/-- The creation commits, retention tombstones its case, and the creation reads it. -/
def tombstonedRun : List (Action (serviceSystem Reference.sql)) :=
  [.start (briefCreation (instant 59)), .call 0 {},
    .start (.applyRetention (instant 61) "retention"), .call 1 {}, .call 0 {}]

/-- The state of the creation after that run. -/
theorem tombstonedRun_result :
    (((Config.initial opened).run tombstonedRun).tasks[0]?).bind Task.result =
      some (CaseResponse.mutation (.error .notFound)) := by
  decide +kernel

theorem tombstonedRun_committed :
    ((((Config.initial opened).run tombstonedRun).tasks[0]?).map fun t =>
      decide (CommittedNothing (t.history : History Reference.sql))) = some false := by
  decide +kernel

/-- **A definite error that is not atomic.** -/
theorem not_definite_error_atomic : ¬ ∀ (w : World)
    (as : List (Action (serviceSystem Reference.sql))) (i : ℕ)
    (t : Task (serviceSystem Reference.sql)) (e : CaseServiceError),
    ((Config.initial w).run as).tasks[i]? = some t →
      t.result = some (.mutation (.error e)) → e.isDefinite = true →
        CommittedNothing (t.history : History Reference.sql) := by
  intro hall
  have hresult := tombstonedRun_result
  have hcommitted := tombstonedRun_committed
  obtain ⟨t, ht, hr⟩ := Option.bind_eq_some_iff.mp hresult
  rw [ht] at hcommitted
  have hnothing := hall _ _ _ t _ ht hr rfl
  simp [hnothing] at hcommitted

/-- The exact condition on that run, where it does not hold. -/
theorem definite_error_iff_tombstoned : ∃ t : Task (serviceSystem Reference.sql),
    t.result = some (.mutation (.error .notFound)) ∧
      ((∀ e, (.error .notFound : Except CaseServiceError CaseMutationResult) = .error e →
        e.isDefinite = true → CommittedNothing (t.history : History Reference.sql)) ↔
          ¬ CommitUnreadable (t.history : History Reference.sql)) := by
  obtain ⟨t, ht, hr⟩ := Option.bind_eq_some_iff.mp tombstonedRun_result
  exact ⟨t, hr, definite_error_iff Reference.contract _ _ ht hr⟩

end Tombstoned

end ApmeApi
