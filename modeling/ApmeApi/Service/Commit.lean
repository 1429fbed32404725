import ApmeApi.Service.Cases

/-!
# Executions of a mutation

A mutation that passed its checks makes one SQL call and then at most two reads. `CommitRun`
lists its complete executions with the world that each call found, which anybody may have
changed since the call before:

* `refused`: the SQL call answered an error;
* `unread`: the SQL call answered a row, and reading the case failed;
* `read`: the case was read, and the answer is decided by the reply to the read of the event.

`commit_run` is the inversion of `Follows` for `commit`. The worlds before and after one call
are related by the lemmas about `Obs.post`: a read changes nothing, a mutation changes the
database only, and only when the SQL function succeeds.
-/

namespace ApmeApi

open Interaction

variable {sql : SqlFunctions}

/-- The calls of a task. -/
abbrev History (sql : SqlFunctions) := List (Obs (apiMachine sql))

/-- One executed call of the service. -/
abbrev Observed (sql : SqlFunctions) := Obs (apiMachine sql)

/-! ### The world around one call -/

@[simp]
theorem World.transaction_published {α : Type} (w : World) (f : Fault)
    (r : Except String (Db × α)) : (w.transaction f r).2.published = w.published := by
  unfold World.transaction
  split <;> rfl

@[simp]
theorem World.transaction_sockets {α : Type} (w : World) (f : Fault)
    (r : Except String (Db × α)) : (w.transaction f r).2.sockets = w.sockets := by
  unfold World.transaction
  split <;> rfl

/-- **Inversion of a transaction**: it changed nothing and failed, or it succeeded and its
database is in place; the answer is then that of the function unless it was lost. -/
theorem World.transaction_cases {α : Type} (w : World) (f : Fault) (r : Except String (Db × α)) :
    ((w.transaction f r).2 = w ∧ ∃ e, (w.transaction f r).1 = .error e) ∨
      ∃ db a, r = .ok (db, a) ∧ (w.transaction f r).2 = { w with db := db } ∧
        ((f = .none ∧ (w.transaction f r).1 = .ok a) ∨
          (f = .ackLost ∧ (w.transaction f r).1 = .error .io)) := by
  cases f with
  | lost e => exact .inl ⟨rfl, e, rfl⟩
  | none =>
    rcases r with message | ⟨db, a⟩
    · exact .inl ⟨rfl, _, rfl⟩
    · exact .inr ⟨db, a, rfl, rfl, .inl ⟨rfl, rfl⟩⟩
  | ackLost =>
    rcases r with message | ⟨db, a⟩
    · exact .inl ⟨rfl, _, rfl⟩
    · exact .inr ⟨db, a, rfl, rfl, .inr ⟨rfl, rfl⟩⟩

/-- A transaction that answers has taken effect. -/
theorem World.transaction_ok {α : Type} {w : World} {f : Fault} {r : Except String (Db × α)}
    {a : α} (h : (w.transaction f r).1 = .ok a) :
    f = .none ∧ ∃ db, r = .ok (db, a) ∧ (w.transaction f r).2 = { w with db := db } := by
  rcases w.transaction_cases f r with ⟨-, e, he⟩ | ⟨db, b, rfl, hpost, ⟨rfl, hb⟩ | ⟨-, he⟩⟩
  · rw [he] at h
    cases h
  · rw [hb] at h
    cases h
    exact ⟨rfl, db, rfl, hpost⟩
  · rw [he] at h
    cases h

/-- The answer of a query that did not fail. -/
theorem Fault.answer_ok {α : Type} {f : Fault} {a b : α} (h : f.answer a = .ok b) :
    f = .none ∧ b = a := by
  cases f with
  | none => exact ⟨rfl, (Except.ok.inj h).symm⟩
  | lost e => cases h
  | ackLost => cases h

/-! ### The observations of a mutation -/

section Observations

variable {i : Input} {w : World}

/-- A mutation that answered a row committed it or found it recorded. -/
theorem mutate_reply_ok {m : SqlMutation} {row : MutationRow}
    (h : Obs.reply (M := apiMachine sql) ⟨i, w, .mutate m⟩ = .ok row) :
    ∃ db, sql.mutate m i.draw w.db = .ok (db, row) ∧
      Obs.post (M := apiMachine sql) ⟨i, w, .mutate m⟩ = { w with db := db } := by
  obtain ⟨-, db, hdb, hpost⟩ := World.transaction_ok h
  exact ⟨db, hdb, hpost⟩

/-- A read of a case that answered, answered what the database held. -/
theorem selectCase_reply_ok {t c : Uuid} {row : Option CaseRow}
    (h : Obs.reply (M := apiMachine sql) ⟨i, w, .selectCase t c⟩ = .ok row) :
    row = w.db.selectCase t c :=
  (Fault.answer_ok h).2

/-- A read of an event that answered, answered what the database held. -/
theorem selectEvent_reply_ok {t e : Uuid} {row : Option EventRow}
    (h : Obs.reply (M := apiMachine sql) ⟨i, w, .selectEvent t e⟩ = .ok row) :
    row = w.db.selectEvent t e :=
  (Fault.answer_ok h).2

end Observations

/-! ### What a history shows -/

/-- The history has a call `c` that was answered `r`. -/
def Got (h : History sql) (c : Call) (r : c.Reply) : Prop :=
  ∃ i w, (⟨i, w, c⟩ : Observed sql) ∈ h ∧ Obs.reply (M := apiMachine sql) ⟨i, w, c⟩ = r

theorem Got.mono {h h' : History sql} {c : Call} {r : c.Reply} (hs : h ⊆ h') :
    Got h c r → Got h' c r := by
  rintro ⟨i, w, hm, hr⟩
  exact ⟨i, w, hs hm, hr⟩

/-- The last call was answered. -/
theorem Got.concat (h : History sql) (i : Input) (w : World) (c : Call) :
    Got (h ++ [⟨i, w, c⟩]) c (Obs.reply (M := apiMachine sql) ⟨i, w, c⟩) :=
  ⟨i, w, by simp, rfl⟩

/-- A call that was answered was answered before, or it is the last one. -/
theorem Got.of_concat {h : History sql} {o : Observed sql} {c : Call} {r : c.Reply}
    (hg : Got (h ++ [o]) c r) :
    Got h c r ∨ ∃ i w, o = ⟨i, w, c⟩ ∧ Obs.reply (M := apiMachine sql) ⟨i, w, c⟩ = r := by
  obtain ⟨i, w, hm, hr⟩ := hg
  rcases List.mem_append.mp hm with hm | hm
  · exact .inl ⟨i, w, hm, hr⟩
  · exact .inr ⟨i, w, (List.mem_singleton.mp hm).symm, hr⟩

/-! ### Results decided by a reply -/

namespace CaseService

/-- The result of `getCase`, from the reply to its query. -/
def caseOfReply : Except SqlxError (Option CaseRow) → Except CaseServiceError PersistedCase
  | .error e => .error (.storage e)
  | .ok none => .error .notFound
  | .ok (some row) => caseFromRow row

/-- The receipt of an event row. -/
def receipt (mutation : MutationRow) (event : EventRow) : CaseEventReceipt where
  eventId := mutation.eventId
  tenantId := event.tenantId
  caseId := event.caseId
  caseVersion := event.caseVersion
  eventType := event.eventType
  occurredAt := event.occurredAt
  eventHash := mutation.eventHash

/-- The result of a mutation whose case was read, from the reply to the query for its event. -/
def resultOfReply (mutation : MutationRow) (case : PersistedCase) :
    Except SqlxError (Option EventRow) → Except CaseServiceError CaseMutationResult
  | .error e => .error (.storage e)
  | .ok none => .error (.storage .rowNotFound)
  | .ok (some event) => .ok ⟨case, receipt mutation event, mutation.replayed⟩

/-- A case that was read came from a row that decodes. -/
theorem caseOfReply_eq_ok {reply : Except SqlxError (Option CaseRow)} {case : PersistedCase}
    (h : caseOfReply reply = .ok case) :
    ∃ row, reply = .ok (some row) ∧ caseFromRow row = .ok case := by
  rcases reply with e | found
  · cases h
  · cases found with
    | none => cases h
    | some row => exact ⟨row, rfl, h⟩

/-- A successful result has the receipt of an event that was read. -/
theorem resultOfReply_eq_ok {mutation : MutationRow} {case : PersistedCase}
    {reply : Except SqlxError (Option EventRow)} {result : CaseMutationResult}
    (h : resultOfReply mutation case reply = .ok result) :
    ∃ event, reply = .ok (some event) ∧
      result = ⟨case, receipt mutation event, mutation.replayed⟩ := by
  rcases reply with e | found
  · cases h
  · cases found with
    | none => cases h
    | some event => exact ⟨event, rfl, (Except.ok.inj h).symm⟩

/-- `getCase` is one query. -/
theorem getCase_run_eq (context : TenantContext) (caseId : Uuid) :
    (getCase context caseId).run =
      (request (.selectCase context.tenantId caseId) >>= fun r => pure (caseOfReply r)) := by
  refine congrArg (Prog.call _) (funext fun r => ?_)
  rcases r with e | row
  · rfl
  · cases row <;> rfl

/-- The result of `listCases`, from the reply to its query. -/
def listOfReply : Except SqlxError (List CaseRow) → Except CaseServiceError (List PersistedCase)
  | .error e => .error (.storage e)
  | .ok rows => rows.mapM caseFromRow

/-- `listCases` is one query. -/
theorem listCases_run_eq (context : TenantContext) :
    (listCases context).run =
      (request (.selectCases context.tenantId) >>= fun r => pure (listOfReply r)) := by
  refine congrArg (Prog.call _) (funext fun r => ?_)
  cases r <;> rfl

/-- `mutationResult` is the query of `getCase` and, when a case was read, the query for the
event. -/
theorem mutationResult_run_eq (context : TenantContext) (mutation : MutationRow) :
    (mutationResult context mutation).run =
      (request (.selectCase context.tenantId mutation.caseId) >>= fun r => match caseOfReply r with
        | .error e => pure (.error e)
        | .ok case => request (.selectEvent context.tenantId mutation.eventId) >>= fun r =>
            pure (resultOfReply mutation case r)) := by
  rw [mutationResult, ExceptT.run_bind, getCase_run_eq, bind_assoc]
  simp only [pure_bind]
  refine congrArg (request _ >>= ·) (funext fun r => ?_)
  cases caseOfReply r with
  | error e => rfl
  | ok case =>
    refine congrArg (Prog.call _) (funext fun r => ?_)
    rcases r with e | row
    · rfl
    · cases row <;> rfl

/-- `commit` is the SQL call and, when it answers a row, `mutationResult`. -/
theorem commit_run_eq (context : TenantContext) (m : SqlMutation) :
    (commit context m).run =
      (request (.mutate m) >>= fun r => match r with
        | .error e => pure (.error (mapSqlError e))
        | .ok row => (mutationResult context row).run) := by
  refine congrArg (Prog.call _) (funext fun r => ?_)
  cases r <;> rfl

/-! ### Complete executions -/

/-- The complete executions of `commit`. -/
inductive CommitRun (context : TenantContext) (m : SqlMutation) :
    History sql → Except CaseServiceError CaseMutationResult → Prop
  | refused {i : Input} {w : World} {e : SqlxError}
      (h : Obs.reply (M := apiMachine sql) ⟨i, w, .mutate m⟩ = .error e) :
      CommitRun context m [⟨i, w, .mutate m⟩] (.error (mapSqlError e))
  | unread {i i' : Input} {w w' : World} {row : MutationRow} {e : CaseServiceError}
      (h : Obs.reply (M := apiMachine sql) ⟨i, w, .mutate m⟩ = .ok row)
      (h' : caseOfReply (Obs.reply (M := apiMachine sql)
        ⟨i', w', .selectCase context.tenantId row.caseId⟩) = .error e) :
      CommitRun context m
        [⟨i, w, .mutate m⟩, ⟨i', w', .selectCase context.tenantId row.caseId⟩] (.error e)
  | read {i i' i'' : Input} {w w' w'' : World} {row : MutationRow} {case : PersistedCase}
      (h : Obs.reply (M := apiMachine sql) ⟨i, w, .mutate m⟩ = .ok row)
      (h' : caseOfReply (Obs.reply (M := apiMachine sql)
        ⟨i', w', .selectCase context.tenantId row.caseId⟩) = .ok case) :
      CommitRun context m
        [⟨i, w, .mutate m⟩, ⟨i', w', .selectCase context.tenantId row.caseId⟩,
          ⟨i'', w'', .selectEvent context.tenantId row.eventId⟩]
        (resultOfReply row case (Obs.reply (M := apiMachine sql)
          ⟨i'', w'', .selectEvent context.tenantId row.eventId⟩))

/-- **Inversion of a complete execution of `commit`.** -/
theorem commit_run {context : TenantContext} {m : SqlMutation} {h : History sql}
    {r : Except CaseServiceError CaseMutationResult}
    (hf : Follows (commit context m).run h (.pure r)) : CommitRun context m h r := by
  rw [commit_run_eq] at hf
  obtain ⟨i, w, t, rfl, hk⟩ := hf.of_perform
  cases hr : Obs.reply (M := apiMachine sql) ⟨i, w, .mutate m⟩ with
  | error e =>
    rw [hr] at hk
    obtain ⟨rfl, rfl⟩ := Follows.of_pure hk
    exact .refused hr
  | ok row =>
    rw [hr] at hk
    replace hk : Follows (mutationResult context row).run t (.pure r) := hk
    rw [mutationResult_run_eq] at hk
    obtain ⟨i', w', t, rfl, hk'⟩ := hk.of_perform
    cases hc : caseOfReply (Obs.reply (M := apiMachine sql)
      ⟨i', w', .selectCase context.tenantId row.caseId⟩) with
    | error e =>
      rw [hc] at hk'
      obtain ⟨rfl, rfl⟩ := Follows.of_pure hk'
      exact .unread hr hc
    | ok case =>
      rw [hc] at hk'
      obtain ⟨i'', w'', t, rfl, hk''⟩ := Follows.of_perform hk'
      obtain ⟨rfl, rfl⟩ := Follows.of_pure hk''
      exact .read hr hc

/-- **A successful execution of `commit`**: the SQL call answered a row, the case of that row was
read, live, and decoded, and the event was read. -/
theorem CommitRun.ok {context : TenantContext} {m : SqlMutation} {h : History sql}
    {result : CaseMutationResult} (hrun : CommitRun context m h (.ok result)) :
    ∃ (o o' o'' : Observed sql) (row : MutationRow) (caseRow : CaseRow), h = [o, o', o''] ∧
      (∃ i w, o = ⟨i, w, .mutate m⟩ ∧
        Obs.reply (M := apiMachine sql) ⟨i, w, .mutate m⟩ = .ok row) ∧
      o'.call = .selectCase context.tenantId row.caseId ∧
      (∃ t e, o''.call = .selectEvent t e) ∧
      o'.pre.db.selectCase context.tenantId row.caseId = some caseRow ∧
      caseFromRow caseRow = .ok result.case ∧ result.replayed = row.replayed := by
  generalize hr : (Except.ok result : Except CaseServiceError CaseMutationResult) = r at hrun
  cases hrun with
  | refused => cases hr
  | unread => cases hr
  | @read i i' i'' w w' w'' row case hm hcase =>
    obtain ⟨event, -, rfl⟩ := resultOfReply_eq_ok hr.symm
    obtain ⟨caseRow, hreply, hdecode⟩ := caseOfReply_eq_ok hcase
    exact ⟨_, _, _, row, caseRow, rfl, ⟨i, w, rfl, hm⟩, rfl, ⟨_, _, rfl⟩,
      (selectCase_reply_ok hreply).symm, hdecode, rfl⟩

/-! ### Open executions -/

/-- **What a successful mutation read**: the row of its SQL call, the case and the event of that
row, and its result is made of these. -/
structure Answered (context : TenantContext) (m : SqlMutation) (h : History sql)
    (result : CaseMutationResult) (row : MutationRow) : Prop where
  mutated : Got h (.mutate m) (.ok row)
  case : ∃ caseRow, Got h (.selectCase context.tenantId row.caseId) (.ok (some caseRow)) ∧
    caseFromRow caseRow = .ok result.case
  event : ∃ event, Got h (.selectEvent context.tenantId row.eventId) (.ok (some event)) ∧
    result.event = receipt row event
  replayed : result.replayed = row.replayed

/-- **The calls of `commit`**, and what its success and its failure show: it succeeds when it
answered, and fails before it has read an event. -/
theorem commit_wp {G : History sql → Observed sql → Prop} (context : TenantContext)
    (m : SqlMutation) (h : History sql) (hM : ∀ i w, G h ⟨i, w, .mutate m⟩)
    (hC : ∀ h', h ⊆ h' → ∀ i w c, G h' ⟨i, w, .selectCase context.tenantId c⟩)
    (hE : ∀ h', h ⊆ h' → ∀ i w e, G h' ⟨i, w, .selectEvent context.tenantId e⟩) :
    wp G (fun h' r => h ⊆ h' ∧ (∀ result, r = .ok result →
          ∃ row, Answered context m h' result row) ∧
        ∀ e, r = .error e → ∀ t i event, Got h' (.selectEvent t i) (.ok (some event)) →
          Got h (.selectEvent t i) (.ok (some event)))
      (commit context m).run h := by
  simp only [commit_run_eq, wp_bind, wp_request]
  intro i w
  refine ⟨hM i w, ?_⟩
  have hm := Got.concat h i w (.mutate m)
  -- the calls before the query for the event have read no event
  have hnone : ∀ {t e : Uuid} {event : EventRow},
      Got (h ++ [⟨i, w, .mutate m⟩]) (.selectEvent t e) (.ok (some event)) →
        Got h (.selectEvent t e) (.ok (some event)) := by
    intro t e event hg
    rcases hg.of_concat with hg | ⟨i', w', ho, -⟩
    · exact hg
    · cases ho
  cases hr : Obs.reply (M := apiMachine sql) ⟨i, w, .mutate m⟩ with
  | error e => exact ⟨by simp, by simp, fun _ _ _ _ _ hg => hnone hg⟩
  | ok row =>
    rw [hr] at hm
    simp only [mutationResult_run_eq, wp_bind, wp_request]
    intro i' w'
    refine ⟨hC _ (by simp) i' w' row.caseId, ?_⟩
    have hc := @Got.concat sql (h ++ [⟨i, w, .mutate m⟩]) i' w'
      (.selectCase context.tenantId row.caseId)
    have hnone' : ∀ {t e : Uuid} {event : EventRow},
        Got (h ++ [⟨i, w, .mutate m⟩] ++ [⟨i', w', .selectCase context.tenantId row.caseId⟩])
          (.selectEvent t e) (.ok (some event)) →
          Got h (.selectEvent t e) (.ok (some event)) := by
      intro t e event hg
      rcases hg.of_concat with hg | ⟨i'', w'', ho, -⟩
      · exact hnone hg
      · cases ho
    cases hcase : caseOfReply (Obs.reply (M := apiMachine sql)
        ⟨i', w', .selectCase context.tenantId row.caseId⟩) with
    | error e => exact ⟨by simp, by simp, fun _ _ _ _ _ hg => hnone' hg⟩
    | ok case =>
      simp only [wp_bind, wp_request, wp_pure]
      intro i'' w''
      refine ⟨hE _ (by simp) i'' w'' row.eventId, by simp, fun result hresult => ⟨row, ?_⟩, ?_⟩
      · have he := @Got.concat sql (h ++ [⟨i, w, .mutate m⟩] ++
          [⟨i', w', .selectCase context.tenantId row.caseId⟩]) i'' w''
          (.selectEvent context.tenantId row.eventId)
        obtain ⟨event, hevent, rfl⟩ := resultOfReply_eq_ok hresult
        obtain ⟨caseRow, hreply, hdecode⟩ := caseOfReply_eq_ok hcase
        rw [hreply] at hc
        rw [hevent] at he
        exact ⟨hm.mono (by simp), ⟨caseRow, hc.mono (by simp), hdecode⟩, ⟨event, he, rfl⟩, rfl⟩
      · intro e he t id event hg
        rcases hg.of_concat with hg | ⟨i₁, w₁, ho, hreply⟩
        · exact hnone' hg
        · obtain ⟨rfl, rfl, hcall⟩ := Obs.mk.inj ho
          obtain ⟨rfl, rfl⟩ := Call.selectEvent.inj hcall
          rw [hreply] at he
          cases he

end CaseService

end ApmeApi
