import ApmeApi.Service.Fingerprint
import ApmeApi.Service.Publication

/-!
# What a request mutates

A request of a mutation handler makes one mutation, that of its own command, for the caller that it
authorized, under the key of its own header (`mutation_asked`). Its idempotency key therefore names
one request: two requests whose mutations were answered under one key ask for the same, were
answered with the same ids, and at most one of them committed (`key_names_one_request`).
-/

namespace ApmeApi

open Interaction CaseService

variable {sql : SqlFunctions}

/-- The headers of a mutation request, and what it asks for. -/
def ApiRequest.asks : ApiRequest → Option (HeaderMap × MutationRequest)
  | .createCase headers command => some (headers, .createCase command)
  | .transitionCase id headers command => some (headers, .transitionCase id command)
  | .rotateEncryptedObject id headers command => some (headers, .rotateEncryptedObject id command)
  | _ => none

/-- The requests of the mutation handlers ask for a mutation. -/
theorem ApiRequest.asks_of_isMutation {q : ApiRequest} (hq : q.isMutation = true) :
    ∃ headers r, q.asks = some (headers, r) := by
  cases q <;> first | exact ⟨_, _, rfl⟩ | cases hq

section

variable [SharedAuth] [ApmeInterfaces] [Sha2]

/-- **The mutation is the one asked for**: its checks passed, for the caller that the calls before
it authorized with the headers of the request, and under the key of these headers. -/
structure AskedFor (state : AppState) (headers : HeaderMap) (r : MutationRequest) (h : History sql)
    (subject : VerifiedSubject) (context : TenantContext) (key : String) (now : DateTime)
    (m : SqlMutation) : Prop where
  tenant : tenantId headers = .ok context.tenantId
  keyed : idempotencyKey headers = .ok key
  authorized : Authorized state headers [casesWriteScope] h subject context
  checked : r.mutation context subject key now = .ok m

/-- A mutation that was asked for is one of the tenant, the user and the key of its request. -/
theorem AskedFor.mutation_key {state : AppState} {headers : HeaderMap} {r : MutationRequest}
    {h : History sql} {subject : VerifiedSubject} {context : TenantContext} {key : String}
    {now : DateTime} {m : SqlMutation} (ha : AskedFor state headers r h subject context key now m) :
    m.key = ⟨context.tenantId, subject.sharedUserId, key⟩ := by
  have hm := ha.checked
  cases r with
  | createCase command =>
    obtain ⟨-, -, -, rfl⟩ := createMutation_eq_ok.mp hm
    rfl
  | transitionCase id command =>
    obtain ⟨-, -, -, rfl⟩ := transitionMutation_eq_ok.mp hm
    rfl
  | rotateEncryptedObject id command =>
    obtain ⟨-, -, -, -, rfl⟩ := rotateMutation_eq_ok.mp hm
    rfl

/-- A mutation of the request at hand was asked for. -/
def MutatesAsAsked (state : AppState) (q : ApiRequest) (h : History sql) (o : Observed sql) :
    Prop :=
  ∀ m, o.call = .mutate m → ∃ headers r subject context key now,
    q.asks = some (headers, r) ∧ AskedFor state headers r h subject context key now m

/-- A request that asks for a mutation runs the common handler with the checks of what it asks, and
answers with the result of the mutation. -/
theorem ApiRequest.run_asks (state : AppState) {q : ApiRequest} {headers : HeaderMap}
    {r : MutationRequest} (hq : q.asks = some (headers, r)) :
    ∃ (α : Type) (answer : CaseMutationResult → α) (f : α → HttpResponse), q.run state =
      (Http.mutationHandler state headers
        (fun context subject key now => r.mutation context subject key now) answer).run >>=
          (fun x => pure (respond f x)) ∧
      ∀ result, (f (answer result)).body = .json (ApmeInterfaces.mutationResultJson result) := by
  cases q with
  | createCase headers command =>
    obtain ⟨rfl, rfl⟩ := Prod.mk.inj (Option.some.inj hq)
    exact ⟨_, _, _, by rw [run, Http.createCase_eq]; rfl, fun _ => rfl⟩
  | transitionCase id headers command =>
    obtain ⟨rfl, rfl⟩ := Prod.mk.inj (Option.some.inj hq)
    exact ⟨_, _, _, by rw [run, Http.transitionCase_eq]; rfl, fun _ => rfl⟩
  | rotateEncryptedObject id headers command =>
    obtain ⟨rfl, rfl⟩ := Prod.mk.inj (Option.some.inj hq)
    exact ⟨_, _, _, by rw [run, Http.rotateEncryptedObject_eq]; rfl, fun _ => rfl⟩
  | _ => cases hq

/-- **Every request** mutates as it was asked to. -/
theorem run_asked (state : AppState) (q : ApiRequest) :
    wp (fun (h : History sql) o => MutatesAsAsked state q h o) (fun _ _ => True) (q.run state)
      [] := by
  by_cases hq : q.isMutation = true
  · obtain ⟨headers, r, hasks⟩ := ApiRequest.asks_of_isMutation hq
    obtain ⟨α, answer, f, hrun, -⟩ := q.run_asks state hasks
    rw [hrun, wp_bind]
    refine wp_post (mutationHandler_wp (Q := fun _ _ => True) state headers _ answer
      (fun h o _ ho m hm => ?_)
      (fun _ _ _ => trivial) ?_) fun _ _ _ => trivial
    · rw [hm] at ho
      cases ho
    · intro h subject context key now m hpre htenant hkey hauth hchecked
      refine wp_post (commit_wp context m h (fun i w m' hm => ?_) (fun _ _ _ _ _ m' hm => ?_)
        (fun _ _ _ _ _ m' hm => ?_)) ?_
      · obtain rfl := Call.mutate.inj hm
        exact ⟨headers, r, subject, context, key, now, hasks, htenant, hkey, hauth, hchecked⟩
      · cases hm
      · cases hm
      · rintro h' x -
        rcases x with e | mutation
        · trivial
        · dsimp only
          split
          · trivial
          · exact fun i w => ⟨fun m' hm => (by cases hm), trivial⟩
  · refine wp_mono (run_quiet state (Bool.eq_false_iff.mpr hq)) (fun _ o ho m hm => ?_)
      fun _ _ _ => trivial
    rw [hm] at ho
    cases ho

/-- **A mutation of a run was asked for** by the request of its task. -/
theorem mutation_asked {state : AppState} {w : World} {as : List (Action (apiSystem sql state))}
    {i : ℕ} {t : Task (apiSystem sql state)}
    (ht : ((Config.initial w).run as).tasks[i]? = some t) {o : Observed sql} (ho : o ∈ t.history)
    {m : SqlMutation} (hm : o.call = .mutate m) :
    ∃ headers r h subject context key now, t.request.asks = some (headers, r) ∧
      h ⊆ t.history ∧ AskedFor state headers r h subject context key now m := by
  obtain ⟨h₁, h₂, hh⟩ := List.append_of_mem ho
  obtain ⟨headers, r, subject, context, key, now, hasks, hasked⟩ :=
    (Config.run_follows (Y := apiSystem sql state) w as ht).guarantee
      (run_asked state t.request) hh m hm
  refine ⟨headers, r, h₁, subject, context, key, now, hasks, ?_, hasked⟩
  rw [hh]
  exact List.subset_append_left _ _

end

/-! ### Keys -/

/-- The record of the key of a mutation is stored, and answers the row of that mutation. -/
def KeyRecorded (m : SqlMutation) (row : MutationRow) (w : World) : Prop :=
  ∃ rec, w.db.findKey m.key = some rec ∧ rec.requestHash = m.requestHash ∧
    rec.replayRow = { row with replayed := true }

/-- Two answers from one record are answers to one request, with the same ids. -/
theorem KeyRecorded.same {m m' : SqlMutation} {row row' : MutationRow} {w : World}
    (h : KeyRecorded m row w) (h' : KeyRecorded m' row' w) (hkey : m'.key = m.key) :
    m'.requestHash = m.requestHash ∧ row'.caseId = row.caseId ∧
      row'.caseVersion = row.caseVersion ∧ row'.eventId = row.eventId ∧
        row'.eventHash = row.eventHash := by
  obtain ⟨rec, hfound, hhash, hrow⟩ := h
  obtain ⟨rec', hfound', hhash', hrow'⟩ := h'
  rw [hkey] at hfound'
  obtain rfl := Option.some.inj (hfound.symm.trans hfound')
  obtain ⟨hid, hversion, hevent, heventHash, -⟩ := MutationRow.mk.inj (hrow'.symm.trans hrow)
  exact ⟨hhash'.symm.trans hhash, hid, hversion, hevent, heventHash⟩

section Keys

variable [SharedAuth] [ApmeInterfaces] [Sha2] {state : AppState} (hsql : SqlContract sql)
include hsql

/-- **An answered mutation is on record** from then on. -/
theorem key_recorded {w : World} {as : List (Action (apiSystem sql state))} {i : ℕ}
    {t : Task (apiSystem sql state)} (ht : ((Config.initial w).run as).tasks[i]? = some t)
    {m : SqlMutation} {row : MutationRow}
    (hgot : Got (t.history : History sql) (.mutate m) (.ok row)) :
    KeyRecorded m row ((Config.initial w).run as).state := by
  obtain ⟨i₁, w₁, hmem, hreply⟩ := hgot
  refine Config.run_recorded (Y := apiSystem sql state) (F := fun _ => True)
    (R := fun o s => o = ⟨i₁, w₁, .mutate m⟩ → KeyRecorded m row s) Config.Stable.true
    (fun o => ⟨fun input c s h ho => ?_, fun e s h ho => ?_⟩) (fun o _ ho => ?_) trivial as
    (List.mem_of_getElem? ht) hmem rfl
  · obtain ⟨rec, hfound, hrest⟩ := h ho
    exact ⟨rec, (exec_keeps hsql input c s).key hfound, hrest⟩
  · obtain ⟨rec, hfound, hrest⟩ := h ho
    exact ⟨rec, (env_keeps e s).key hfound, hrest⟩
  · subst ho
    obtain ⟨db, hok, hpost⟩ := mutate_reply_ok hreply
    obtain ⟨rec, hfound, hrest⟩ := hsql.mutate_recorded hok
    refine ⟨rec, ?_, hrest⟩
    rw [hpost]
    exact hfound

/-- **A key is used first once**: two commits of a run under one key are of one task. -/
theorem key_committed_once {w : World} {as : List (Action (apiSystem sql state))} {i j : ℕ}
    {t u : Task (apiSystem sql state)} {o o' : Observed sql} {m m' : SqlMutation}
    {row row' : MutationRow} (ht : ((Config.initial w).run as).tasks[i]? = some t)
    (hu : ((Config.initial w).run as).tasks[j]? = some u) (ho : o ∈ t.history)
    (ho' : o' ∈ u.history) (hc : Commits o m row) (hc' : Commits o' m' row')
    (hkey : m'.key = m.key) : i = j := by
  obtain ⟨k, hk⟩ := List.mem_iff_getElem?.mp ho
  obtain ⟨k', hk'⟩ := List.mem_iff_getElem?.mp ho'
  refine (Config.run_token_unique (T := IdempotencyKey)
    (P := fun x (s : World) => ∃ rec, s.db.findKey x = some rec)
    (R := fun (o : Observed sql) x => ∃ m row, Commits o m row ∧ x = m.key) ?_ ?_ ?_ w as ht hk hu
    hk' ⟨m, row, hc, rfl⟩ ⟨m', row', hc', hkey.symm⟩).1
  · exact fun x => ⟨fun i c s ⟨rec, hrec⟩ => ⟨rec, (exec_keeps hsql i c s).key hrec⟩,
      fun e s ⟨rec, hrec⟩ => ⟨rec, (env_keeps e s).key hrec⟩⟩
  · rintro o x ⟨m, row, ⟨i, w, db, rfl, -, hok, hfresh⟩, rfl⟩ ⟨rec, hrec⟩
    cases hrec.symm.trans (hsql.findKey_of_fresh hok hfresh)
  · rintro o x ⟨m, row, hc, rfl⟩
    obtain ⟨event, -, -, hpost⟩ := committed_post hsql hc
    exact ⟨_, hpost.record⟩

/-- **A key names one request.** In every run from any world: two requests whose mutations were
answered under one key of one user in one tenant ask for the same operation on the same case with
the same command, unless their different texts have one digest; they were answered with the same
case, version, event and hash; and at most one of them committed. -/
theorem key_names_one_request (hstatus : Function.Injective ApmeInterfaces.statusJson)
    (hretention : Function.Injective ApmeInterfaces.retentionJson)
    (hdateTime : Function.Injective ApmeInterfaces.dateTimeJson) (w : World)
    (as : List (Action (apiSystem sql state))) {i j : ℕ} {t u : Task (apiSystem sql state)}
    (ht : ((Config.initial w).run as).tasks[i]? = some t)
    (hu : ((Config.initial w).run as).tasks[j]? = some u) {m m' : SqlMutation}
    {row row' : MutationRow} (hgot : Got (t.history : History sql) (.mutate m) (.ok row))
    (hgot' : Got (u.history : History sql) (.mutate m') (.ok row')) (hkey : m'.key = m.key) :
    (∃ headers headers' r r', t.request.asks = some (headers, r) ∧
        u.request.asks = some (headers', r') ∧
        (r' = r ∨ r'.canonical.render ≠ r.canonical.render ∧
          canonicalHash r'.canonical = canonicalHash r.canonical)) ∧
      row'.caseId = row.caseId ∧ row'.caseVersion = row.caseVersion ∧
      row'.eventId = row.eventId ∧ row'.eventHash = row.eventHash ∧
      (row.replayed = false → row'.replayed = false → i = j) := by
  obtain ⟨hhash, hcase, hversion, hevent, heventHash⟩ :=
    (key_recorded hsql ht hgot).same (key_recorded hsql hu hgot') hkey
  obtain ⟨i₁, w₁, hmem, hreply⟩ := hgot
  obtain ⟨i₂, w₂, hmem', hreply'⟩ := hgot'
  obtain ⟨headers, r, _, _, _, _, _, hasks, -, hasked⟩ := mutation_asked ht hmem rfl
  obtain ⟨headers', r', _, _, _, _, _, hasks', -, hasked'⟩ := mutation_asked hu hmem' rfl
  refine ⟨⟨headers, headers', r, r', hasks, hasks', ?_⟩, hcase, hversion, hevent, heventHash,
    fun hfresh hfresh' => ?_⟩
  · rw [MutationRequest.requestHash_mutation hasked.checked,
      MutationRequest.requestHash_mutation hasked'.checked] at hhash
    by_cases htext : r'.canonical.render = r.canonical.render
    · exact .inl (MutationRequest.canonical_injective hstatus hretention hdateTime
        (Json.render_injective htext))
    · exact .inr ⟨htext, hhash⟩
  · exact key_committed_once hsql ht hu hmem hmem' (commits_of_reply hreply hfresh)
      (commits_of_reply hreply' hfresh') hkey

end Keys

/-! ### A retry -/

section Retry

open Reference

theorem Reference.statusJson_injective : Function.Injective Reference.statusJson := by
  intro a b h
  cases a <;> cases b <;> first | rfl | exact absurd h (by decide)

theorem Reference.retentionJson_injective : Function.Injective Reference.retentionJson := by
  intro a b h
  cases a <;> cases b <;> first | rfl | exact absurd h (by decide)

/-- The creation that failed after its commit and its retry ask for the same. -/
theorem key_names_one_request_retry :
    ∃ (t u : Task (apiSystem Reference.sql Reference.state)) (headers headers' : HeaderMap)
      (r : MutationRequest),
      ((Config.initial (World.initial office 1)).run lostReadRun).tasks[0]? = some t ∧
      ((Config.initial (World.initial office 1)).run lostReadRun).tasks[1]? = some u ∧
      t.request.asks = some (headers, r) ∧ u.request.asks = some (headers', r) := by
  obtain ⟨t, ht, hcommit⟩ := Option.map_eq_some_iff.mp lostReadRun_commit
  obtain ⟨u, hu, hretry⟩ := Option.map_eq_some_iff.mp lostReadRun_retry
  obtain ⟨⟨m, row⟩, hanswered, hmrow⟩ := Option.map_eq_some_iff.mp (Prod.mk.inj hcommit).1
  obtain ⟨⟨m', row'⟩, hanswered', hmrow'⟩ := Option.map_eq_some_iff.mp (Prod.mk.inj hretry).1
  have hkey : m'.key = m.key := (Prod.mk.inj hmrow').1.trans (Prod.mk.inj hmrow).1.symm
  obtain ⟨⟨headers, headers', r, r', hasks, hasks', hsame | ⟨htext, hhash⟩⟩, -⟩ :=
    key_names_one_request Reference.contract Reference.statusJson_injective
      Reference.retentionJson_injective Reference.dateTimeJson_injective _ lostReadRun ht hu
      (answeredMutation_eq_some hanswered) (answeredMutation_eq_some hanswered') hkey
  · exact ⟨t, u, headers, headers', r, ht, hu, hasks, hsame ▸ hasks'⟩
  · -- the digest of the reference is the text itself
    exact absurd hhash htext

end Retry

end ApmeApi
