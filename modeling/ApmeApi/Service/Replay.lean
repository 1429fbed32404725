import ApmeApi.Service.DefiniteErrors

/-!
# Retries of a committed mutation

A retry is a later call of the same operation by the same user in the same tenant with the same
key, command and case (`SameCall`); role, session and clock may differ. Once a mutation has
committed, its idempotency record and its event stay (`Committed`, a stable fact), so the SQL
call of a retry is a replay and the receipt is read again.

What is read besides is the case itself, and what is checked before is the command: the retry
gets its receipt as long as the case can be read and, for a creation, the command still validates
at its own time, and an error otherwise (`replay_stable`). After retention has tombstoned the
case the retry is answered with `notFound` (`not_replay_stable`). A retry never changes anything.
-/

namespace ApmeApi

open Interaction CaseService

variable {sql : SqlFunctions}

/-- The call committed the first use of a key; its answer arrived or was lost. -/
def Commits (o : Observed sql) (m : SqlMutation) (row : MutationRow) : Prop :=
  ∃ i w db, o = ⟨i, w, .mutate m⟩ ∧ (i.fault = .none ∨ i.fault = .ackLost) ∧
    sql.mutate m i.draw w.db = .ok (db, row) ∧ row.replayed = false

/-- A call that answered a first use of a key committed it. -/
theorem commits_of_reply {i : Input} {w : World} {m : SqlMutation} {row : MutationRow}
    (h : Obs.reply (M := apiMachine sql) ⟨i, w, .mutate m⟩ = .ok row)
    (hr : row.replayed = false) : Commits (⟨i, w, .mutate m⟩ : Observed sql) m row := by
  obtain ⟨hfault, db, hok, -⟩ := World.transaction_ok h
  exact ⟨i, w, db, rfl, .inl hfault, hok, hr⟩

/-- What a commit leaves is what the SQL function made. -/
theorem Commits.exec {o : Observed sql} {m : SqlMutation} {row : MutationRow}
    (hc : Commits o m row) :
    ∃ i w, o = ⟨i, w, .mutate m⟩ ∧ sql.mutate m i.draw w.db = .ok ((Obs.post o).db, row) ∧
      row.replayed = false := by
  obtain ⟨i, w, db, rfl, hfault, hok, hfresh⟩ := hc
  have hpost : (Obs.post (M := apiMachine sql) ⟨i, w, .mutate m⟩).db = db := by
    change (w.transaction i.fault (sql.mutate m i.draw w.db)).2.db = db
    rw [hok]
    rcases hfault with hf | hf <;> rw [hf] <;> rfl
  exact ⟨i, w, rfl, by rw [hpost, hok], hfresh⟩

/-- The first mutation of a history that answered a row. -/
def answeredMutation (h : History sql) : Option (SqlMutation × MutationRow) :=
  h.findSome? fun o => match o with
    | ⟨i, w, .mutate m⟩ =>
      (Obs.reply (M := apiMachine sql) ⟨i, w, .mutate m⟩).toOption.map fun row => (m, row)
    | _ => none

theorem answeredMutation_eq_some {h : History sql} {m : SqlMutation} {row : MutationRow}
    (ha : answeredMutation h = some (m, row)) : Got h (.mutate m) (.ok row) := by
  obtain ⟨o, ho, hrow⟩ := List.exists_of_findSome?_eq_some ha
  split at hrow
  · rename_i i w m'
    obtain ⟨row', hreply, hpair⟩ := Option.map_eq_some_iff.mp hrow
    obtain ⟨rfl, rfl⟩ := Prod.mk.inj hpair
    refine ⟨i, w, ho, ?_⟩
    cases hr : Obs.reply (M := apiMachine sql) ⟨i, w, .mutate m'⟩ with
    | error e =>
      rw [hr] at hreply
      cases hreply
    | ok row =>
      rw [hr] at hreply
      rw [Option.some.inj hreply]
  · cases hrow

/-- A history that answered a first use of a key has a commit. -/
theorem commits_of_answered {h : History sql} {m : SqlMutation} {row : MutationRow}
    (ha : answeredMutation h = some (m, row)) (hr : row.replayed = false) :
    ∃ o ∈ h, Commits o m row := by
  obtain ⟨i, w, ho, hreply⟩ := answeredMutation_eq_some ha
  exact ⟨_, ho, commits_of_reply hreply hr⟩

/-- The record and the event of a committed mutation are stored. -/
structure Committed (m : SqlMutation) (row : MutationRow) (event : EventRow) (w : World) :
    Prop where
  record : w.db.findKey m.key = some (row.record m)
  event : w.db.selectEvent m.tenantId row.eventId = some event

/-- Whenever the case was looked up and the query was answered, it had a live row that decodes. -/
def Readable (caseId : Uuid) (h : History sql) : Prop :=
  ∀ t found, Got h (.selectCase t caseId) (.ok found) → ∃ case, caseOfReply (.ok found) = .ok case

/-- The same operation by the same user in the same tenant, with the same key, command and
case. -/
def SameCall : CaseRequest → CaseRequest → Prop
  | .createCase c s k command _, .createCase c' s' k' command' _ =>
    c.tenantId = c'.tenantId ∧ s.sharedUserId = s'.sharedUserId ∧ k = k' ∧ command = command'
  | .transitionCase c s id k command _, .transitionCase c' s' id' k' command' _ =>
    c.tenantId = c'.tenantId ∧ s.sharedUserId = s'.sharedUserId ∧ id = id' ∧ k = k' ∧
      command = command'
  | .rotateEncryptedObject c s id k command _, .rotateEncryptedObject c' s' id' k' command' _ =>
    c.tenantId = c'.tenantId ∧ s.sharedUserId = s'.sharedUserId ∧ id = id' ∧ k = k' ∧
      command = command'
  | _, _ => False

/-! ### The record of a commit -/

section Contract

variable (hsql : SqlContract sql)
include hsql

/-- **A commit leaves its record and its event.** -/
theorem committed_post {o : Observed sql} {m : SqlMutation} {row : MutationRow}
    (hc : Commits o m row) :
    ∃ event, event.caseId = row.caseId ∧ event.caseVersion = row.caseVersion ∧
      Committed m row event o.post := by
  obtain ⟨i, w, rfl, hok, hfresh⟩ := hc.exec
  have hkey := (hsql.first hok (hsql.findKey_of_fresh hok hfresh)).2
  obtain ⟨event, hevent, hid, hversion⟩ := hsql.eventStored hok hfresh
  exact ⟨event, hid, hversion, hkey, hevent⟩

/-- A retry that reaches the SQL call is answered with the recorded row. -/
theorem mutate_reply_replay {i : Input} {w : World} {m m' : SqlMutation} {row : MutationRow}
    {event : EventRow} (hw : Committed m row event w) (hkey : m'.key = m.key)
    (hhash : m'.requestHash = m.requestHash) (hfault : i.fault = .none) :
    Obs.reply (M := apiMachine sql) ⟨i, w, .mutate m'⟩ = .ok { row with replayed := true } := by
  have hrecord : w.db.findKey m'.key = some (row.record m) := hkey ▸ hw.record
  have hok := hsql.replay (d := i.draw) hrecord hhash.symm
  change (w.transaction i.fault (sql.mutate m' i.draw w.db)).1 = _
  rw [hok, hfault]
  rfl

omit hsql in
/-- The event of a committed mutation is read back. -/
theorem selectEvent_reply_committed {i : Input} {w : World} {m : SqlMutation}
    {row : MutationRow} {event : EventRow} (hw : Committed m row event w)
    (hfault : i.fault = .none) :
    Obs.reply (M := apiMachine sql) ⟨i, w, .selectEvent m.tenantId row.eventId⟩ =
      .ok (some event) := by
  change i.fault.answer (w.db.selectEvent m.tenantId row.eventId) = _
  rw [hfault, hw.event]
  rfl

omit hsql in
/-- **The original** is answered, if at all, with the receipt of its commit. -/
theorem original_receipt {o : Observed sql} {m m' : SqlMutation} {row : MutationRow}
    {event : EventRow} {context : TenantContext} {h : History sql} (hc : Commits o m row)
    (htenant : m.tenantId = context.tenantId)
    (hpair : h.Pairwise fun o₁ o₂ => o₁ = o → Committed m row event o₂.pre) (ho : o ∈ h)
    {r : Except CaseServiceError CaseMutationResult} (hrun : CommitRun context m' h r)
    {result : CaseMutationResult} (hr : r = .ok result) : result.event = receipt row event := by
  obtain ⟨i, w, db, rfl, -, hok, -⟩ := hc
  cases hrun with
  | refused => cases hr
  | unread => cases hr
  | @read i₁ i₂ i₃ w₁ w₂ w₃ row' case hm hcase =>
    simp only [List.mem_cons, List.not_mem_nil, Obs.mk.injEq, Call.mutate.injEq, reduceCtorEq,
      and_false, or_false] at ho
    obtain ⟨rfl, rfl, rfl⟩ := ho
    obtain ⟨db', hok', -⟩ := mutate_reply_ok hm
    have hrow : row = row' := by
      rw [hok] at hok'
      exact (Prod.mk.inj (Except.ok.inj hok')).2
    subst hrow
    obtain ⟨event', hreply, rfl⟩ := resultOfReply_eq_ok hr
    have hw₃ : Committed m row event w₃ := by
      have hfirst := (List.pairwise_cons.mp hpair).1
      exact hfirst ⟨i₃, w₃, .selectEvent context.tenantId row.eventId⟩ (by simp) rfl
    have hevent := selectEvent_reply_ok hreply
    rw [← htenant, hw₃.event] at hevent
    rw [Option.some.inj hevent]

/-- **A retry** that finds the record changes nothing, is answered with the receipt exactly when
it can read the case, and otherwise with an error. -/
theorem retry_run {m m' : SqlMutation} {row : MutationRow} {event : EventRow}
    {context : TenantContext} (hkey : m'.key = m.key) (hhash : m'.requestHash = m.requestHash)
    (htenant : m'.tenantId = context.tenantId) {h : History sql}
    (hfound : ∀ o ∈ h, Committed m row event o.pre) (hfault : ∀ o ∈ h, o.input.fault = .none)
    {r : Except CaseServiceError CaseMutationResult} (hrun : CommitRun context m' h r) :
    CommittedNothing h ∧
      ((∃ case, r = .ok ⟨case, receipt row event, true⟩) ↔ Readable row.caseId h) ∧
        (¬ Readable row.caseId h → ∃ e, r = .error e) := by
  cases hrun with
  | @refused i w e hm =>
    -- not in this run: the call is answered with the record
    have hreply := mutate_reply_replay hsql (hfound _ List.mem_cons_self) hkey hhash
      (hfault _ List.mem_cons_self)
    cases hm.symm.trans hreply
  | @unread i i' w w' row' e hm hcase =>
    have hreply := mutate_reply_replay hsql (hfound _ List.mem_cons_self) hkey hhash
      (hfault _ List.mem_cons_self)
    obtain rfl := Except.ok.inj (hm.symm.trans hreply)
    refine ⟨fun o ho => ?_, iff_of_false ?_ fun hreadable => ?_, fun _ => ⟨e, rfl⟩⟩
    · rcases List.mem_cons.mp ho with rfl | ho
      · exact mutate_replayed hsql hm rfl
      · obtain rfl := List.mem_singleton.mp ho
        rfl
    · rintro ⟨case, hr⟩
      cases hr
    · -- the query was answered, so it is the case that cannot be read
      have hquery : Obs.reply (M := apiMachine sql)
          ⟨i', w', .selectCase context.tenantId row.caseId⟩ =
            .ok (w'.db.selectCase context.tenantId row.caseId) := by
        have hnone : i'.fault = .none :=
          hfault _ (List.mem_cons_of_mem _ List.mem_cons_self)
        change i'.fault.answer _ = _
        rw [hnone]
        rfl
      obtain ⟨case, hc⟩ := hreadable _ _
        ⟨i', w', List.mem_cons_of_mem _ List.mem_cons_self, hquery⟩
      cases (hc.symm.trans (congrArg caseOfReply hquery.symm)).trans hcase
  | @read i i' i'' w w' w'' row' case hm hcase =>
    have hreply := mutate_reply_replay hsql (hfound _ List.mem_cons_self) hkey hhash
      (hfault _ List.mem_cons_self)
    obtain rfl := Except.ok.inj (hm.symm.trans hreply)
    have hreadable : Readable row.caseId [(⟨i, w, .mutate m'⟩ : Observed sql),
        ⟨i', w', .selectCase context.tenantId row.caseId⟩,
        ⟨i'', w'', .selectEvent context.tenantId row.eventId⟩] := by
      rintro t found ⟨i₁, w₁, hmem, hr⟩
      simp only [List.mem_cons, List.not_mem_nil, Obs.mk.injEq, Call.selectCase.injEq,
        reduceCtorEq, and_false, or_false, false_or] at hmem
      obtain ⟨rfl, rfl, rfl, -⟩ := hmem
      exact ⟨case, hr ▸ hcase⟩
    refine ⟨fun o ho => ?_, iff_of_true ⟨case, ?_⟩ hreadable, fun hnot => absurd hreadable hnot⟩
    · rcases List.mem_cons.mp ho with rfl | ho
      · exact mutate_replayed hsql hm rfl
      · rcases List.mem_cons.mp ho with rfl | ho
        · rfl
        · obtain rfl := List.mem_singleton.mp ho
          rfl
    · have htenant' : context.tenantId = m.tenantId := by
        rw [← htenant, SqlMutation.tenantId, hkey]
        rfl
      have hlast : ∀ {a b c : Observed sql}, c ∈ [a, b, c] := by simp
      have hevent := @selectEvent_reply_committed sql i'' w'' m row event (hfound _ hlast)
        (hfault _ hlast)
      rw [htenant', hevent]
      rfl

end Contract

section Requests

variable [ApmeInterfaces]

/-- The role of the caller permits the operation. -/
def Permitted : CaseRequest → Prop
  | .createCase c _ _ _ _ => requireMutator c = .ok ()
  | .transitionCase c _ _ _ _ _ => requireMutator c = .ok ()
  | .rotateEncryptedObject c _ _ _ _ _ => requireExporter c = .ok ()
  | _ => True

/-- The command of a creation validates at the time of the call. -/
def Timely : CaseRequest → Prop
  | .createCase _ _ _ command now => ApmeInterfaces.validateCreate command now = .ok ()
  | _ => True

variable [Sha2]

/-- A checked mutation is one of the tenant of its context. -/
theorem mutation_tenant {q : CaseRequest} {context : TenantContext} {m : SqlMutation}
    (hq : q.mutation = some (context, .ok m)) : m.tenantId = context.tenantId := by
  cases q with
  | createCase =>
    obtain ⟨rfl, hm⟩ := Prod.mk.inj (Option.some.inj hq)
    obtain ⟨-, -, -, rfl⟩ := createMutation_eq_ok.mp hm
    rfl
  | transitionCase =>
    obtain ⟨rfl, hm⟩ := Prod.mk.inj (Option.some.inj hq)
    obtain ⟨-, -, -, rfl⟩ := transitionMutation_eq_ok.mp hm
    rfl
  | rotateEncryptedObject =>
    obtain ⟨rfl, hm⟩ := Prod.mk.inj (Option.some.inj hq)
    obtain ⟨-, -, -, -, rfl⟩ := rotateMutation_eq_ok.mp hm
    rfl
  | getCase => cases hq
  | applyRetention => cases hq

/-- **The checks of a retry pass**: they depend on the role, on the command and, for a creation,
on the clock. -/
theorem mutation_retry {q q' : CaseRequest} {context : TenantContext} {m : SqlMutation}
    (hq : q.mutation = some (context, .ok m)) (hsame : SameCall q q') (hp : Permitted q')
    (ht : Timely q') : ∃ context' m', q'.mutation = some (context', .ok m') := by
  cases q <;> cases q' <;> try exact hsame.elim
  case createCase.createCase =>
    obtain ⟨-, -, rfl, rfl⟩ := hsame
    obtain ⟨-, hkey, -, -⟩ := createMutation_eq_ok.mp (Prod.mk.inj (Option.some.inj hq)).2
    exact ⟨_, _, congrArg some (congrArg (Prod.mk _)
      (createMutation_eq_ok.mpr ⟨hp, hkey, ht, rfl⟩))⟩
  case transitionCase.transitionCase =>
    obtain ⟨-, -, rfl, rfl, rfl⟩ := hsame
    obtain ⟨-, hkey, hversion, -⟩ :=
      transitionMutation_eq_ok.mp (Prod.mk.inj (Option.some.inj hq)).2
    exact ⟨_, _, congrArg some (congrArg (Prod.mk _)
      (transitionMutation_eq_ok.mpr ⟨hp, hkey, hversion, rfl⟩))⟩
  case rotateEncryptedObject.rotateEncryptedObject =>
    obtain ⟨-, -, rfl, rfl, rfl⟩ := hsame
    obtain ⟨-, hkey, hversion, hdocument, -⟩ :=
      rotateMutation_eq_ok.mp (Prod.mk.inj (Option.some.inj hq)).2
    exact ⟨_, _, congrArg some (congrArg (Prod.mk _)
      (rotateMutation_eq_ok.mpr ⟨hp, hkey, hversion, hdocument, rfl⟩))⟩

/-- The checks of a creation pass only when its command validates. -/
theorem timely_of_mutation {q : CaseRequest} {context : TenantContext} {m : SqlMutation}
    (hq : q.mutation = some (context, .ok m)) : Timely q := by
  cases q with
  | createCase => exact (createMutation_eq_ok.mp (Prod.mk.inj (Option.some.inj hq)).2).2.2.1
  | transitionCase => trivial
  | rotateEncryptedObject => trivial
  | getCase => trivial
  | applyRetention => trivial

/-- **A retry uses the same record** with the same hash. -/
theorem mutation_same {q q' : CaseRequest} {context context' : TenantContext}
    {m m' : SqlMutation} (hq : q.mutation = some (context, .ok m)) (hsame : SameCall q q')
    (hq' : q'.mutation = some (context', .ok m')) :
    m'.key = m.key ∧ m'.requestHash = m.requestHash := by
  cases q <;> cases q' <;> try exact hsame.elim
  case createCase.createCase =>
    obtain ⟨htenant, huser, rfl, rfl⟩ := hsame
    obtain ⟨-, -, -, rfl⟩ := createMutation_eq_ok.mp (Prod.mk.inj (Option.some.inj hq)).2
    obtain ⟨-, -, -, rfl⟩ := createMutation_eq_ok.mp (Prod.mk.inj (Option.some.inj hq')).2
    simp only [createCaseCall, SqlMutation.key, SqlMutation.requestHash, htenant, huser, and_self]
  case transitionCase.transitionCase =>
    obtain ⟨htenant, huser, rfl, rfl, rfl⟩ := hsame
    obtain ⟨-, -, -, rfl⟩ := transitionMutation_eq_ok.mp (Prod.mk.inj (Option.some.inj hq)).2
    obtain ⟨-, -, -, rfl⟩ := transitionMutation_eq_ok.mp (Prod.mk.inj (Option.some.inj hq')).2
    simp only [transitionCaseCall, SqlMutation.key, SqlMutation.requestHash, htenant, huser,
      and_self]
  case rotateEncryptedObject.rotateEncryptedObject =>
    obtain ⟨htenant, huser, rfl, rfl, rfl⟩ := hsame
    obtain ⟨-, -, -, -, rfl⟩ := rotateMutation_eq_ok.mp (Prod.mk.inj (Option.some.inj hq)).2
    obtain ⟨-, -, -, -, rfl⟩ := rotateMutation_eq_ok.mp (Prod.mk.inj (Option.some.inj hq')).2
    simp only [rotateCaseObjectCall, SqlMutation.key, SqlMutation.requestHash, htenant, huser,
      and_self]

/-- **The mutations a request makes** are those it checked. -/
theorem mutates_wp (q : CaseRequest) :
    wp (fun (_ : History sql) o => ∀ m, o.call = .mutate m →
        ∃ context, q.mutation = some (context, .ok m))
      (fun _ _ => True) q.run [] := by
  cases hq : q.mutation with
  | some x =>
    obtain ⟨context, checked⟩ := x
    rw [CaseRequest.run_eq hq, wp_bind, wp_run_bind, wp_run_ofExcept]
    cases checked with
    | error e => trivial
    | ok m =>
      refine wp_post (commit_wp context m [] (fun i w m' hm => ?_) (fun h _ i w c m' hm => ?_)
        (fun h _ i w e m' hm => ?_)) fun h r _ => trivial
      · exact ⟨context, by rw [Call.mutate.inj hm]⟩
      · cases hm
      · cases hm
  | none =>
    cases q with
    | createCase => cases hq
    | transitionCase => cases hq
    | rotateEncryptedObject => cases hq
    | getCase context caseId =>
      rw [CaseRequest.run, getCase_run_eq]
      exact fun i w => ⟨fun m hm => (by cases hm), trivial⟩
    | applyRetention now actor =>
      rw [CaseRequest.run, CaseService.applyRetention]
      simp only [wp_bind, wp_run_bind, wp_run_lift, wp_request]
      exact fun i w => ⟨fun m hm => (by cases hm), trivial⟩

/-! ### Every run -/

section Runs

variable (hsql : SqlContract sql)
include hsql

/-- Nothing withdraws a record and its event. -/
theorem committed_stable (m : SqlMutation) (row : MutationRow) (event : EventRow) :
    Config.Stable (serviceSystem sql) (Committed m row event) where
  exec i c w h :=
    have hkeeps := exec_keeps hsql i c w
    ⟨hkeeps.key h.record, hkeeps.event h.event⟩
  env e w h :=
    have hkeeps := env_keeps e w
    ⟨hkeeps.key h.record, hkeeps.event h.event⟩

omit hsql in
/-- A mutation in the history of a task is the one its request checked. -/
theorem mutation_of_mem {w : World} {as : List (Action (serviceSystem sql))} {i : ℕ}
    {t : Task (serviceSystem sql)} (ht : ((Config.initial w).run as).tasks[i]? = some t)
    {o : Observed sql} (ho : o ∈ t.history) {m : SqlMutation} (hm : o.call = .mutate m) :
    ∃ context, t.request.mutation = some (context, .ok m) := by
  have hf := Config.run_follows (Y := serviceSystem sql) w as ht
  obtain ⟨h₁, h₂, hh⟩ := List.append_of_mem ho
  exact hf.guarantee (mutates_wp t.request) hh m hm

/-- What the commit `o` left is found from then on. -/
theorem committed_since {o : Observed sql} {m : SqlMutation} {row : MutationRow}
    {event : EventRow} (hpost : Committed m row event o.post) :
    (∀ o₁ : Observed sql, Config.Stable (serviceSystem sql)
      fun s => o₁ = o → Committed m row event s) ∧
      ∀ o₁ : Observed sql, o₁ = o → Committed m row event o₁.post := by
  have hstable := committed_stable hsql m row event
  refine ⟨fun o₁ => ⟨fun i c s h ho => ?_, fun e s h ho => ?_⟩, fun o₁ ho => ?_⟩
  · exact hstable.exec i c s (h ho)
  · exact hstable.env e s (h ho)
  · rwa [ho]

/-- **The original**: in every run that makes the commit, its answer carries the receipt. -/
theorem original_answer {w : World} {as : List (Action (serviceSystem sql))} {i : ℕ}
    {t : Task (serviceSystem sql)} (ht : ((Config.initial w).run as).tasks[i]? = some t)
    {o : Observed sql} (ho : o ∈ t.history) {m : SqlMutation} {row : MutationRow}
    (hc : Commits o m row) {event : EventRow} (hpost : Committed m row event o.post)
    {result : CaseMutationResult} (hr : t.result = some (.mutation (.ok result))) :
    result.event = receipt row event := by
  have hf := Config.run_follows (Y := serviceSystem sql) w as ht
  rw [Task.result_eq_some.mp hr] at hf
  have hpair := Config.run_pairwise (committed_since hsql hpost).1 (committed_since hsql hpost).2
    w as (List.mem_of_getElem? ht)
  obtain ⟨context, hq⟩ : ∃ context, t.request.mutation = some (context, .ok m) := by
    obtain ⟨i', w', db, rfl, -⟩ := hc
    exact mutation_of_mem ht ho rfl
  obtain ⟨context', checked, hq', ⟨e, -, -, he⟩ | ⟨m', -, hrun⟩⟩ :=
    CaseRequest.ended (h := (t.history : History sql)) hf
  · cases he
  · have hcontext := (Prod.mk.inj (Option.some.inj (hq.symm.trans hq'))).1
    exact original_receipt hc (hcontext ▸ mutation_tenant hq) hpair ho hrun rfl

/-- **A retry**: started where the record is found, it changes nothing, is answered with the
receipt exactly when its checks pass and it can read the case, and otherwise with an error. -/
theorem retry_answer {m : SqlMutation} {row : MutationRow}
    {event : EventRow} {q : CaseRequest} {context : TenantContext}
    (hq : q.mutation = some (context, .ok m)) {u : Task (serviceSystem sql)}
    (hf : Follows u.request.run u.history u.prog)
    (hfound : ∀ o ∈ u.history, Committed m row event o.pre)
    (hfault : ∀ o ∈ u.history, o.input.fault = .none)
    {r : Except CaseServiceError CaseMutationResult} (hr : u.result = some (.mutation r))
    (hsame : SameCall q u.request) (hp : Permitted u.request) :
    CommittedNothing (u.history : History sql) ∧
      ((∃ case, r = .ok ⟨case, receipt row event, true⟩) ↔
        Timely u.request ∧ Readable row.caseId (u.history : History sql)) ∧
      (¬ (Timely u.request ∧ Readable row.caseId (u.history : History sql)) →
        ∃ e, r = .error e) := by
  rw [Task.result_eq_some.mp hr] at hf
  obtain ⟨context', checked, hq', ⟨e, rfl, hh, rfl⟩ | ⟨m', rfl, hrun⟩⟩ :=
    CaseRequest.ended (h := (u.history : History sql)) hf
  · rw [hh]
    refine ⟨fun o ho => (by cases ho), iff_of_false (fun ⟨case, hok⟩ => (by cases hok)) ?_,
      fun _ => ⟨e, rfl⟩⟩
    rintro ⟨htimely, -⟩
    obtain ⟨context'', m', hm'⟩ := mutation_retry hq hsame hp htimely
    cases hq'.symm.trans hm'
  · obtain ⟨hkey, hhash⟩ := mutation_same hq hsame hq'
    have htimely := timely_of_mutation hq'
    obtain ⟨hnothing, hiff, herror⟩ :=
      retry_run hsql hkey hhash (mutation_tenant hq') hfound hfault hrun
    exact ⟨hnothing, hiff.trans (iff_and_self.mpr fun _ => htimely),
      fun hnot => herror fun hreadable => hnot ⟨htimely, hreadable⟩⟩

/-- **Replay is stable as long as the case can be read.** A commit has one receipt. The original
is answered, if at all, with that receipt. Every later retry, whatever happened in between,
changes nothing, is answered with that receipt and `replayed = true` exactly when its command
validates at its own time and its case can be read, and with an error otherwise. -/
theorem replay_stable (w : World) (as₁ : List (Action (serviceSystem sql))) {i : ℕ}
    {t : Task (serviceSystem sql)} {o : Observed sql} {m : SqlMutation} {row : MutationRow}
    (ht : ((Config.initial w).run as₁).tasks[i]? = some t) (ho : o ∈ t.history)
    (hc : Commits o m row) :
    ∃ rcpt : CaseEventReceipt, (rcpt.eventId = row.eventId ∧ rcpt.caseId = row.caseId ∧
        rcpt.caseVersion = row.caseVersion ∧ rcpt.eventHash = row.eventHash) ∧
      ∀ as₂ : List (Action (serviceSystem sql)),
        (∀ t' result, (((Config.initial w).run as₁).run as₂).tasks[i]? = some t' →
          t'.result = some (.mutation (.ok result)) → result.event = rcpt) ∧
        ∀ j u r, ((Config.initial w).run as₁).tasks.length ≤ j →
          (((Config.initial w).run as₁).run as₂).tasks[j]? = some u →
          u.result = some (.mutation r) → SameCall t.request u.request → Permitted u.request →
          (∀ o ∈ u.history, o.input.fault = .none) →
            CommittedNothing (u.history : History sql) ∧
              ((∃ case, r = .ok ⟨case, rcpt, true⟩) ↔
                Timely u.request ∧ Readable row.caseId (u.history : History sql)) ∧
              (¬ (Timely u.request ∧ Readable row.caseId (u.history : History sql)) →
                ∃ e, r = .error e) := by
  obtain ⟨event, hcase, hversion, hpost⟩ := committed_post hsql hc
  obtain ⟨context, hq⟩ : ∃ context, t.request.mutation = some (context, .ok m) := by
    obtain ⟨i', w', db, rfl, -⟩ := hc
    exact mutation_of_mem ht ho rfl
  refine ⟨receipt row event, ⟨rfl, hcase, hversion, rfl⟩, fun as₂ => ⟨?_, ?_⟩⟩
  · intro t' result ht' hr
    obtain ⟨t'', h₂, ht'', -, hh, -⟩ := Config.run_extends Config.Stable.true trivial as₂ ht
    obtain rfl := Option.some.inj (ht'.symm.trans ht'')
    rw [← Config.run_append] at ht'
    have ho' : o ∈ t'.history := by
      rw [hh]
      exact List.mem_append_left _ ho
    exact original_answer hsql ht' ho' hc hpost hr
  · intro j u r hj hu hr hsame hpermitted hfault
    -- record and event were there before the retry began, so all its calls find them
    have hpresent : Committed m row event ((Config.initial w).run as₁).state :=
      Config.run_recorded Config.Stable.true (committed_since hsql hpost).1
        (fun o₁ _ => (committed_since hsql hpost).2 o₁) trivial as₁ (List.mem_of_getElem? ht) ho rfl
    have hfound : ∀ o ∈ u.history, Committed m row event o.pre := fun o ho =>
      Config.run_later (committed_stable hsql m row event) hpresent as₂ hj hu ho
    rw [← Config.run_append] at hu
    exact retry_answer hsql hq (Config.run_follows (Y := serviceSystem sql) w _ hu) hfound hfault
      hr hsame hpermitted

end Runs

end Requests

/-! ### Retention between the original and the retry -/

section Tombstoned

open Reference

/-- A transition at time `now` of the case with the nil id. -/
def briefTransition (now : DateTime) : CaseRequest :=
  .transitionCase ⟨Uuid.nil, Uuid.nil, .administrator⟩ ⟨"user", "session"⟩ Uuid.nil "next"
    ⟨1, .collectingDocuments⟩ now

/-- A case is created and its transition commits. -/
def transitionedRun : List (Action (serviceSystem Reference.sql)) :=
  [.start (briefCreation (instant 1)), .call 0 {}, .start (briefTransition (instant 2)),
    .call 1 { draw := fun _ => ⟨1⟩ }]

/-- The transition is answered, retried and answered again; then retention tombstones the case,
and the transition is retried once more. -/
def retriedRun : List (Action (serviceSystem Reference.sql)) :=
  [.call 1 {}, .call 1 {}, .start (briefTransition (instant 5)), .call 2 {}, .call 2 {}, .call 2 {},
    .start (.applyRetention (instant 61) "retention"), .call 3 {},
    .start (briefTransition (instant 62)), .call 4 {}, .call 4 {}]

/-- The versions of snapshot and receipt in an answer, and whether it is a replay. -/
def CaseResponse.versions : CaseResponse → Option (ℤ × ℤ × Bool)
  | .mutation (.ok result) => some (result.case.version, result.event.caseVersion, result.replayed)
  | _ => none

theorem CaseResponse.versions_eq_some {r : CaseResponse} {v v' : ℤ} {replayed : Bool}
    (h : r.versions = some (v, v', replayed)) : ∃ result, r = .mutation (.ok result) ∧
      result.case.version = v ∧ result.event.caseVersion = v' ∧ result.replayed = replayed := by
  unfold versions at h
  split at h
  · obtain ⟨rfl, hrest⟩ := Prod.mk.inj (Option.some.inj h)
    obtain ⟨rfl, rfl⟩ := Prod.mk.inj hrest
    exact ⟨_, rfl, rfl, rfl, rfl⟩
  · cases h

/-- The transition commits version two. -/
theorem transitionedRun_commit :
    (((Config.initial opened).run transitionedRun).tasks[1]?).map
      (fun t => (t.request, (answeredMutation (t.history : History Reference.sql)).map
        fun x => x.2.replayed)) = some (briefTransition (instant 2), some false) := by
  decide +kernel

/-- The first retry is answered. -/
theorem retriedRun_answered :
    ((((Config.initial opened).run transitionedRun).run retriedRun).tasks[2]?).map (fun u =>
      (u.request, u.result.bind CaseResponse.versions,
        decide (∀ o ∈ (u.history : History Reference.sql), o.input.fault = .none))) =
        some (briefTransition (instant 5), some (2, 2, true), true) := by
  decide +kernel

/-- The retry after retention finds no case. -/
theorem retriedRun_refused :
    ((((Config.initial opened).run transitionedRun).run retriedRun).tasks[4]?).map (fun u =>
      (u.request, u.result,
        decide (∀ o ∈ (u.history : History Reference.sql), o.input.fault = .none))) =
        some (briefTransition (instant 62), some (.mutation (.error .notFound)), true) := by
  decide +kernel

/-- The committed transition and its two retries, as tasks of the run. -/
theorem exists_retried : ∃ (t : Task (serviceSystem Reference.sql)) (o : Observed Reference.sql)
    (m : SqlMutation) (row : MutationRow) (u u' : Task (serviceSystem Reference.sql))
    (result : CaseMutationResult),
    ((Config.initial opened).run transitionedRun).tasks[1]? = some t ∧
      o ∈ t.history ∧ Commits o m row ∧ t.request = briefTransition (instant 2) ∧
      (((Config.initial opened).run transitionedRun).run retriedRun).tasks[2]? = some u ∧
      u.request = briefTransition (instant 5) ∧ u.result = some (.mutation (.ok result)) ∧
      (∀ o ∈ u.history, o.input.fault = .none) ∧
      (((Config.initial opened).run transitionedRun).run retriedRun).tasks[4]? = some u' ∧
      u'.request = briefTransition (instant 62) ∧
      u'.result = some (.mutation (.error .notFound)) ∧
      ∀ o ∈ u'.history, o.input.fault = .none := by
  obtain ⟨t, ht, hcommit⟩ := Option.map_eq_some_iff.mp transitionedRun_commit
  obtain ⟨u, hu, hanswer⟩ := Option.map_eq_some_iff.mp retriedRun_answered
  obtain ⟨u', hu', hretry⟩ := Option.map_eq_some_iff.mp retriedRun_refused
  obtain ⟨htreq, hrow⟩ := Prod.mk.inj hcommit
  obtain ⟨hureq, hanswered⟩ := Prod.mk.inj hanswer
  obtain ⟨hversions, hfault⟩ := Prod.mk.inj hanswered
  obtain ⟨hureq', hrest⟩ := Prod.mk.inj hretry
  obtain ⟨hresult, hfault'⟩ := Prod.mk.inj hrest
  obtain ⟨r, hr, hvalues⟩ := Option.bind_eq_some_iff.mp hversions
  obtain ⟨result, rfl, -⟩ := CaseResponse.versions_eq_some hvalues
  obtain ⟨⟨m, row⟩, hanswered, hfresh⟩ := Option.map_eq_some_iff.mp hrow
  obtain ⟨o, ho, hc⟩ := commits_of_answered hanswered hfresh
  exact ⟨t, o, m, row, u, u', result, ht, ho, hc, htreq, hu, hureq, hr, of_decide_eq_true hfault,
    hu', hureq', hresult, of_decide_eq_true hfault'⟩

/-- A retry is one of the same call, and its role permits it. -/
theorem briefTransition_retry {q q' : CaseRequest} {now now' : DateTime}
    (hq : q = briefTransition now) (hq' : q' = briefTransition now') :
    SameCall q q' ∧ Permitted q' := by
  subst hq hq'
  exact ⟨⟨rfl, rfl, rfl, rfl, rfl⟩, rfl⟩

/-- **A retry that is not answered with the receipt**, although its command validates. -/
theorem not_replay_stable : ¬ ∀ (w : World) (as₁ as₂ : List (Action (serviceSystem Reference.sql)))
    (i j : ℕ) (t u : Task (serviceSystem Reference.sql)) (o : Observed Reference.sql)
    (m : SqlMutation) (row : MutationRow) (r : Except CaseServiceError CaseMutationResult),
    ((Config.initial w).run as₁).tasks[i]? = some t → o ∈ t.history → Commits o m row →
      ((Config.initial w).run as₁).tasks.length ≤ j →
      (((Config.initial w).run as₁).run as₂).tasks[j]? = some u →
      u.result = some (.mutation r) → SameCall t.request u.request → Permitted u.request →
      (∀ o ∈ u.history, o.input.fault = .none) →
        ∃ case rcpt, r = .ok ⟨case, rcpt, true⟩ := by
  intro hall
  obtain ⟨t, o, m, row, -, u, -, ht, ho, hc, htreq, -, -, -, -, hu, hureq, hr, hfault⟩ :=
    exists_retried
  obtain ⟨hsame, hpermitted⟩ := briefTransition_retry htreq hureq
  obtain ⟨case, rcpt, hok⟩ := hall _ _ _ 1 4 t u o m row _ ht ho hc (by decide +kernel) hu hr hsame
    hpermitted hfault
  cases hok

/-- On that run the first retry is answered with the receipt of the commit and the second with an
error; neither changes anything. -/
theorem replay_stable_tombstoned : ∃ (u u' : Task (serviceSystem Reference.sql))
    (row : MutationRow) (rcpt : CaseEventReceipt) (case : PersistedCase),
    rcpt.eventId = row.eventId ∧ rcpt.caseVersion = row.caseVersion ∧
      u.result = some (.mutation (.ok ⟨case, rcpt, true⟩)) ∧
      CommittedNothing (u.history : History Reference.sql) ∧
      u'.result = some (.mutation (.error .notFound)) ∧
      CommittedNothing (u'.history : History Reference.sql) ∧
      ¬ Readable row.caseId (u'.history : History Reference.sql) := by
  obtain ⟨t, o, m, row, u, u', result, ht, ho, hc, htreq, hu, hureq, hr, hfault, hu', hureq', hr',
    hfault'⟩ := exists_retried
  obtain ⟨hsame, hpermitted⟩ := briefTransition_retry htreq hureq
  obtain ⟨hsame', hpermitted'⟩ := briefTransition_retry htreq hureq'
  obtain ⟨rcpt, ⟨hid, -, hversion, -⟩, hruns⟩ :=
    replay_stable Reference.contract _ transitionedRun ht ho hc
  have hretries := (hruns retriedRun).2
  obtain ⟨hnothing, hiff, herror⟩ := hretries 2 u _ (by decide +kernel) hu hr hsame hpermitted
    hfault
  obtain ⟨hnothing', hiff', -⟩ := hretries 4 u' _ (by decide +kernel) hu' hr' hsame' hpermitted'
    hfault'
  -- an answer is no error, so it is the receipt
  have hpositive : Timely u.request ∧ Readable row.caseId (u.history : History Reference.sql) := by
    by_contra hnot
    obtain ⟨e, he⟩ := herror hnot
    cases he
  obtain ⟨case, hok⟩ := hiff.mpr hpositive
  have htimely : Timely u'.request := by
    rw [hureq']
    trivial
  refine ⟨u, u', row, rcpt, case, hid, hversion, by rw [hr, hok], hnothing, hr', hnothing',
    fun hreadable => ?_⟩
  obtain ⟨case', hok'⟩ := hiff'.mpr ⟨htimely, hreadable⟩
  cases hok'

end Tombstoned

end ApmeApi
