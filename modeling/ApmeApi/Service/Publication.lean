import ApmeApi.Service.Handlers
import ApmeApi.Service.Replay

/-!
# Publication of committed mutations

A mutation handler sends the event of a mutation on the broadcast channel after its commit and
the two reads that follow it, and only when the commit answered `replayed = false`.

Safety is unconditional: an event is published by the request that committed it, after the
commit, and at most once (`publication_sound`, `published_le_one`). Liveness is not: the request
that committed publishes exactly when it gets through both reads (`FollowedUp`), and nobody else
ever does, since every retry is answered as a replay. A request that has not ended, or whose
handler was dropped, has published nothing. `published_once_iff` is the exact
condition.
-/

namespace ApmeApi

open Interaction CaseService

variable {sql : SqlFunctions}

/-! ### Publications in a history -/

/-- The event that a call publishes. -/
def Call.published : Call → List TenantEvent
  | .publish e => [e]
  | _ => []

/-- The events that the calls of a history published. -/
def published (h : History sql) : List TenantEvent := h.flatMap fun o => o.call.published

/-- Whether an event is the one that a mutation answered. -/
def isEventOf (m : SqlMutation) (row : MutationRow) (e : TenantEvent) : Bool :=
  e.event.tenantId = m.tenantId && e.event.eventId = row.eventId

/-- **The mutation was followed up**: the row of its SQL call arrived, the case of that row was
read and decoded, and its event was read. -/
structure FollowedUp (h : History sql) (m : SqlMutation) (row : MutationRow) : Prop where
  mutated : Got h (.mutate m) (.ok row)
  case : ∃ caseRow case, Got h (.selectCase m.tenantId row.caseId) (.ok (some caseRow)) ∧
    caseFromRow caseRow = .ok case
  event : ∃ event, Got h (.selectEvent m.tenantId row.eventId) (.ok (some event))

theorem FollowedUp.mono {h h' : History sql} {m : SqlMutation} {row : MutationRow} (hs : h ⊆ h')
    (hf : FollowedUp h m row) : FollowedUp h' m row := by
  obtain ⟨hm, ⟨caseRow, case, hcase, hdecode⟩, event, hevent⟩ := hf
  exact ⟨hm.mono hs, ⟨caseRow, case, hcase.mono hs, hdecode⟩, event, hevent.mono hs⟩

/-- The calls that only mutations make. -/
def Call.isMutating : Call → Bool
  | .mutate _ => true
  | .selectEvent _ _ => true
  | .publish _ => true
  | _ => false

theorem Call.isMutating_of_isPreliminary {tenant : Option Uuid} {c : Call}
    (h : c.isPreliminary tenant = true) : c.isMutating = false := by
  cases c <;> first | rfl | cases h

/-- **When a request publishes and mutates**: it makes no call after it has published; it
publishes only the event of its own first use of a key that it followed up; and it mutates only
once. -/
structure PublicationGuarded (h : History sql) (o : Observed sql) : Prop where
  silent : published h = []
  publish : ∀ e, o.call = .publish e →
    ∃ m row, FollowedUp h m row ∧ row.replayed = false ∧ isEventOf m row e = true
  mutate : ∀ m, o.call = .mutate m → ∀ o' ∈ h, ∀ m', o'.call ≠ .mutate m'

/-- **What an ended request published**: it followed its mutation up, and published if that was a
first use; or it never read an event. -/
def PublicationEnded (h : History sql) : Prop :=
  (∃ m row, FollowedUp h m row ∧ (row.replayed = false → published h ≠ [])) ∨
    ∀ t e event, ¬ Got h (.selectEvent t e) (.ok (some event))

theorem published_eq_nil {h : History sql} (hh : ∀ o ∈ h, o.call.isMutating = false) :
    published h = [] := by
  refine List.flatMap_eq_nil_iff.mpr fun o ho => ?_
  have hc := hh o ho
  cases hcall : o.call with
  | publish e =>
    rw [hcall] at hc
    cases hc
  | _ => rfl

theorem publicationGuarded_of_isMutating {h : History sql} {o : Observed sql}
    (hh : ∀ o ∈ h, o.call.isMutating = false) (ho : o.call.isMutating = false) :
    PublicationGuarded h o := by
  refine ⟨published_eq_nil hh, fun e he => ?_, fun m hm => ?_⟩
  · rw [he] at ho
    cases ho
  · rw [hm] at ho
    cases ho

theorem not_got_of_isMutating {h : History sql} (hh : ∀ o ∈ h, o.call.isMutating = false)
    {c : Call} (hc : c.isMutating = true) (r : c.Reply) : ¬ Got h c r := by
  rintro ⟨i, w, hm, -⟩
  have := hh _ hm
  rw [hc] at this
  cases this

/-! ### The requests -/

/-- The event that a handler publishes is that of the mutation it answers. -/
theorem isEventOf_answered {context : TenantContext} {m : SqlMutation} {h : History sql}
    {result : CaseMutationResult} {row : MutationRow} (ha : Answered context m h result row)
    (htenant : m.tenantId = context.tenantId) :
    FollowedUp h m row ∧
      isEventOf m row ⟨result.case.tenantId, result.case.id, result.event⟩ = true := by
  obtain ⟨hm, ⟨caseRow, hcase, hdecode⟩, ⟨event, hevent, hreceipt⟩, -⟩ := ha
  rw [← htenant] at hcase hevent
  refine ⟨⟨hm, ⟨caseRow, result.case, hcase, hdecode⟩, event, hevent⟩, ?_⟩
  obtain ⟨i, w, -, hreply⟩ := hevent
  have hselect := selectEvent_reply_ok hreply
  have htenant' := (Db.selectEvent_eq_some hselect.symm).1
  simp [isEventOf, hreceipt, receipt, htenant']

section

variable [SharedAuth]

/-- **A mutation handler** publishes the event of its own first use, once. -/
theorem mutationHandler_publication {α : Type} (state : AppState) (headers : HeaderMap)
    {checked : TenantContext → VerifiedSubject → String → DateTime →
      Except CaseServiceError SqlMutation} (answer : CaseMutationResult → α)
    (hchecked : ∀ context subject key now m, checked context subject key now = .ok m →
      m.tenantId = context.tenantId) :
    wp PublicationGuarded (fun (h : History sql) _ => PublicationEnded h)
      (Http.mutationHandler state headers checked answer).run [] := by
  have hquiet : ∀ {h : History sql}, Preliminary (tenantId headers).toOption h →
      ∀ o ∈ h, o.call.isMutating = false := fun hpre o ho =>
    Call.isMutating_of_isPreliminary (hpre o ho)
  refine mutationHandler_wp state headers checked answer
    (fun h o hpre ho => publicationGuarded_of_isMutating (hquiet hpre)
      (Call.isMutating_of_isPreliminary ho))
    (fun h e hpre => .inr fun t id event => not_got_of_isMutating (hquiet hpre) rfl _) ?_
  intro h subject context key now m hpre _ _ _ hm
  have htenant := hchecked context subject key now m hm
  -- up to the end of `commit` nothing is published, and its first call is the mutation
  have hcommit := wp_track (C := fun o : Observed sql => ∀ e, o.call ≠ .publish e)
    (fun _ _ hg => hg.1) (commit_wp
      (G := fun h' o => (∀ e, o.call ≠ .publish e) ∧ ∀ m', o.call = .mutate m' → h' = h)
      context m h (fun i w => ⟨fun _ hc => (by cases hc), fun _ _ => rfl⟩)
      (fun h' _ i w c => ⟨fun _ hc => (by cases hc), fun _ hc => (by cases hc)⟩)
      (fun h' _ i w e => ⟨fun _ hc => (by cases hc), fun _ hc => (by cases hc)⟩))
  have hnil : ∀ {t : History sql}, (∃ t', h ++ t = h ++ t' ∧ ∀ o ∈ t', ∀ e, o.call ≠ .publish e) →
      published (h ++ t) = [] := by
    rintro t ⟨t', ht', hsilent⟩
    obtain rfl : t = t' := List.append_cancel_left ht'
    refine List.flatMap_eq_nil_iff.mpr fun o ho => ?_
    rcases List.mem_append.mp ho with ho | ho
    · exact List.flatMap_eq_nil_iff.mp (published_eq_nil (hquiet hpre)) o ho
    · cases hcall : o.call with
      | publish e => exact absurd hcall (hsilent o ho e)
      | _ => rfl
  refine wp_mono hcommit (fun t o ho =>
    ⟨hnil ho.1, fun e he => absurd he (ho.2.1 e), fun m' hm' => ?_⟩) ?_
  · rw [ho.2.2 m' hm']
    intro o' ho' m'' hmutate
    have hc := hquiet hpre o' ho'
    rw [hmutate] at hc
    cases hc
  · rintro t r ⟨hsilent, -, hok, herror⟩
    rcases r with e | result
    · exact .inr fun t id event hg =>
        not_got_of_isMutating (hquiet hpre) rfl _ (herror e rfl t id event hg)
    · obtain ⟨row, hanswered⟩ := hok result rfl
      obtain ⟨hfollowed, hevent⟩ := isEventOf_answered hanswered htenant
      dsimp only
      cases hrep : result.replayed with
      | true =>
        refine .inl ⟨m, row, hfollowed, fun hfresh => ?_⟩
        rw [← hanswered.replayed, hrep] at hfresh
        cases hfresh
      | false =>
        simp only [Bool.false_eq_true, if_false, publishMutation]
        refine fun i w => ⟨⟨hnil hsilent, fun e he => ?_, fun m' hm' => (by cases hm')⟩,
          .inl ⟨m, row, ?_, ?_⟩⟩
        · obtain rfl := Call.publish.inj he
          exact ⟨m, row, hfollowed, by rw [← hanswered.replayed, hrep], hevent⟩
        · exact hfollowed.mono (by simp)
        · intro _
          simp [published, Call.published]

omit [SharedAuth] in
/-- A request without the calls of mutations publishes nothing. -/
theorem publication_of_quiet {α : Type} {p : Prog apiSig α}
    (hp : wp (fun (_ : History sql) o => o.call.isMutating = false) (fun _ _ => True) p []) :
    wp PublicationGuarded (fun (h : History sql) _ => PublicationEnded h) p [] := by
  refine wp_mono (wp_track (C := fun o : Observed sql => o.call.isMutating = false)
    (fun _ _ hc => hc) hp) ?_ ?_
  · rintro t o ⟨⟨t', ht', hquiet⟩, ho⟩
    exact publicationGuarded_of_isMutating (fun o' ho' => hquiet o' (by rwa [ht'] at ho')) ho
  · rintro t a ⟨⟨t', ht', hquiet⟩, -⟩
    exact .inr fun t id event =>
      not_got_of_isMutating (fun o' ho' => hquiet o' (by rwa [ht'] at ho')) rfl _

variable [ApmeInterfaces] [Sha2]

/-- A mutation request publishes the event of its own first use, once. -/
theorem mutation_publication (state : AppState) {q : ApiRequest} (hq : q.isMutation = true) :
    wp PublicationGuarded (fun (h : History sql) _ => PublicationEnded h) (q.run state) [] := by
  obtain ⟨α, headers, checked, answer, f, hrun, -, -, hchecked⟩ :=
    ApiRequest.run_mutation state hq
  rw [hrun, wp_bind]
  exact mutationHandler_publication state headers answer fun context subject key now m hm =>
    (hchecked context subject key now m hm).2.2.1

/-- The other requests make none of the calls of mutations. -/
theorem run_quiet (state : AppState) {q : ApiRequest} (hq : q.isMutation = false) :
    wp (fun (_ : History sql) o => o.call.isMutating = false) (fun _ _ => True) (q.run state)
      [] := by
  have hpre : ∀ {tenant : Option Uuid} (h : History sql) (o : Observed sql),
      o.call.isPreliminary tenant = true → o.call.isMutating = false :=
    fun h o ho => Call.isMutating_of_isPreliminary ho
  cases q with
  | listCases headers =>
    rw [ApiRequest.run, wp_bind]
    exact wp_post (listCases_wp state headers hpre fun _ _ _ _ _ _ _ => rfl) fun _ _ _ => trivial
  | getCase id headers =>
    rw [ApiRequest.run, wp_bind]
    exact wp_post (getCase_wp state id headers hpre fun _ _ _ _ _ _ _ => ⟨rfl, fun _ _ _ => rfl⟩)
      fun _ _ _ => trivial
  | createCase headers command => cases hq
  | transitionCase id headers command => cases hq
  | rotateEncryptedObject id headers command => cases hq
  | websocket query headers =>
    rw [ApiRequest.run, wp_bind]
    exact wp_post (websocket_wp state query headers hpre fun _ _ _ _ _ _ _ _ => rfl)
      fun _ _ _ => trivial
  | metrics =>
    rw [ApiRequest.run, wp_bind, Http.metrics, wp_run_bind, wp_run_lift, wp_request]
    refine fun i w => ⟨rfl, ?_⟩
    cases Obs.reply (M := apiMachine sql) ⟨i, w, .countCases⟩ <;> trivial
  | connection config =>
    rw [ApiRequest.run, wp_bind, Tcp.serveConnection]
    refine wp_post (Tcp.serveRequests_wp state (fun _ _ _ => rfl) (fun _ _ _ _ => rfl)
      (fun h i w frame _ => ?_) _ []) fun _ _ _ => trivial
    -- each frame is executed after what the connection did before
    have hexecute := wp_frame (Tcp.execute_calls
      (G := fun (_ : History sql) o => o.call.isMutating = false) state frame
      (fun req _ => hpre) fun _ _ _ _ _ _ _ _ _ _ _ _ => rfl)
      (h ++ [⟨i, w, .readFrame Tcp.codec⟩])
    rw [List.append_nil] at hexecute
    refine wp_mono hexecute (fun t o ho => ?_) fun _ _ _ => trivial
    obtain ⟨-, -, ho⟩ := ho
    exact ho

/-- **Every request** publishes the event of its own first use, once. -/
theorem run_publication (state : AppState) (q : ApiRequest) :
    wp PublicationGuarded (fun (h : History sql) _ => PublicationEnded h) (q.run state) [] := by
  by_cases hq : q.isMutation = true
  · exact mutation_publication state hq
  · exact publication_of_quiet (run_quiet state (Bool.eq_false_iff.mpr hq))

end

/-! ### One history -/

section History

variable {h : History sql}
  (hg : ∀ h₁ o h₂, h = h₁ ++ o :: h₂ → PublicationGuarded h₁ o)
include hg

/-- A history publishes nothing, or one event of a first use that it followed up. The induction
is on the calls from the last one. -/
theorem published_cases : published h = [] ∨ ∃ m row e, published h = [e] ∧ FollowedUp h m row ∧
    row.replayed = false ∧ isEventOf m row e = true := by
  induction h using List.reverseRecOn with
  | nil => exact .inl rfl
  | append_singleton h o ih =>
    have hprefix : ∀ h₁ o₁ h₂, h = h₁ ++ o₁ :: h₂ → PublicationGuarded h₁ o₁ := by
      intro h₁ o₁ h₂ he
      exact hg h₁ o₁ (h₂ ++ [o]) (by simp [he])
    have happend : published (h ++ [o]) = published h ++ o.call.published := by
      simp [published]
    have hlast := hg h o [] rfl
    cases hcall : o.call with
    | publish e =>
      obtain ⟨m, row, hfollowed, hfresh, hevent⟩ := hlast.publish e hcall
      refine .inr ⟨m, row, e, ?_, hfollowed.mono (by simp), hfresh, hevent⟩
      rw [happend, hlast.silent, hcall]
      rfl
    | _ =>
      have hsame : published (h ++ [o]) = published h := by
        rw [happend, hcall]
        exact List.append_nil _
      rcases ih hprefix with hnil | ⟨m, row, e, he, hfollowed, hfresh, hevent⟩
      · exact .inl (hsame.trans hnil)
      · exact .inr ⟨m, row, e, hsame.trans he, hfollowed.mono (by simp), hfresh, hevent⟩

/-- A history mutates once. -/
theorem mutate_unique {o o' : Observed sql} {m m' : SqlMutation} (ho : o ∈ h) (ho' : o' ∈ h)
    (hm : o.call = .mutate m) (hm' : o'.call = .mutate m') : o = o' := by
  obtain ⟨h₁, h₂, hh⟩ := List.append_of_mem ho
  rw [hh] at ho'
  rcases List.mem_append.mp ho' with hbefore | hsame
  · exact absurd hm' ((hg h₁ o h₂ hh).mutate m hm o' hbefore m')
  · rcases List.mem_cons.mp hsame with rfl | hafter
    · rfl
    · obtain ⟨a, b, rfl⟩ := List.append_of_mem hafter
      have hsplit : h = (h₁ ++ o :: a) ++ o' :: b := by simp [hh]
      exact absurd hm ((hg _ o' b hsplit).mutate m' hm' o (by simp) m)

/-- What a history with a commit followed up is that commit. -/
theorem followedUp_unique {o : Observed sql} {m m' : SqlMutation} {row row' : MutationRow}
    (ho : o ∈ h) (hc : Commits o m row) (hf : FollowedUp h m' row') : m' = m ∧ row' = row := by
  obtain ⟨i, w, db, rfl, -, hok, -⟩ := hc
  obtain ⟨i', w', hmem, hreply⟩ := hf.mutated
  have hsame := mutate_unique hg ho hmem rfl rfl
  obtain ⟨rfl, rfl, hcall⟩ := Obs.mk.inj hsame
  obtain rfl := Call.mutate.inj hcall
  obtain ⟨db', hok', -⟩ := mutate_reply_ok hreply
  rw [hok] at hok'
  exact ⟨rfl, (Prod.mk.inj (Except.ok.inj hok')).2.symm⟩

/-- **A request with a commit** publishes its event at most once, and exactly when it followed the
commit up, once it has ended. -/
theorem published_commit {o : Observed sql} {m : SqlMutation} {row : MutationRow} (ho : o ∈ h)
    (hc : Commits o m row) :
    (published h).countP (isEventOf m row) ≤ 1 ∧
      (PublicationEnded h → ((published h).countP (isEventOf m row) = 1 ↔ FollowedUp h m row)) := by
  rcases published_cases hg with hnil | ⟨m', row', e, he, hfollowed, -, hevent⟩
  · rw [hnil]
    refine ⟨by simp, fun hended => iff_of_false (by simp) fun hf => ?_⟩
    rcases hended with ⟨m', row', hf', hne⟩ | hnone
    · obtain ⟨rfl, rfl⟩ := followedUp_unique hg ho hc hf'
      obtain ⟨i, w, db, -, -, -, hfresh⟩ := hc
      exact hne hfresh hnil
    · obtain ⟨event, hevent⟩ := hf.event
      exact hnone _ _ _ hevent
  · obtain ⟨rfl, rfl⟩ := followedUp_unique hg ho hc hfollowed
    have hone : (published h).countP (isEventOf m' row') = 1 := by simp [he, hevent]
    exact ⟨hone.le, fun _ => iff_of_true hone hfollowed⟩

end History

/-! ### Every run -/

/-- The published events are those of the calls. -/
theorem published_post (o : Observed sql) :
    (Obs.post o).published = o.pre.published ++ o.call.published := by
  obtain ⟨i, w, c⟩ := o
  cases c with
  | publish e => rfl
  | mutate m => exact (World.transaction_published ..).trans (List.append_nil _).symm
  | appendAudit a => exact (World.transaction_published ..).trans (List.append_nil _).symm
  | applyRetention now actor =>
    exact (World.transaction_published ..).trans (List.append_nil _).symm
  | _ => exact (List.append_nil _).symm

section Runs

variable [SharedAuth] [ApmeInterfaces] [Sha2] {state : AppState}

/-- **The log of the stream** consists of what the requests have published. -/
theorem published_perm (db : Db) (clock : DateTime) (as : List (Action (apiSystem sql state))) :
    (((Config.initial (World.initial db clock)).run as).state.published).Perm
      (((Config.initial (World.initial db clock)).run as).tasks.flatMap fun t =>
        published (t.history : History sql)) := by
  have hlog := Config.run_log (Y := apiSystem sql state) (L := World.published)
    (E := fun o : Observed sql => o.call.published) published_post
    (fun e s => by cases e <;> rfl) (World.initial db clock) as
  exact hlog

/-- A task guards its publications. -/
theorem publication_guarded {w : World} {as : List (Action (apiSystem sql state))} {i : ℕ}
    {t : Task (apiSystem sql state)} (ht : ((Config.initial w).run as).tasks[i]? = some t)
    (h₁ : History sql) (o : Observed sql) (h₂ : History sql) (hh : t.history = h₁ ++ o :: h₂) :
    PublicationGuarded h₁ o :=
  (Config.run_follows (Y := apiSystem sql state) w as ht).guarantee
    (run_publication state t.request) hh

/-- A task that has not ended has published nothing. -/
theorem published_of_not_ended {w : World} {as : List (Action (apiSystem sql state))} {i : ℕ}
    {t : Task (apiSystem sql state)} (ht : ((Config.initial w).run as).tasks[i]? = some t)
    (hr : ¬ ∃ r, t.result = some r) : published (t.history : History sql) = [] := by
  have hf := Config.run_follows (Y := apiSystem sql state) w as ht
  cases hp : t.prog with
  | pure r => exact absurd ⟨r, Task.result_eq_some.mpr hp⟩ hr
  | call c k =>
    rw [hp] at hf
    -- whatever its next call finds, nothing was published before it
    exact ((hf.snoc {} w).guarantee (run_publication state t.request) rfl).silent

/-- An ended task published what it followed up. -/
theorem publication_ended {w : World} {as : List (Action (apiSystem sql state))} {i : ℕ}
    {t : Task (apiSystem sql state)} (ht : ((Config.initial w).run as).tasks[i]? = some t)
    {r : ApiResponse} (hr : t.result = some r) : PublicationEnded (t.history : History sql) := by
  have hf := Config.run_follows (Y := apiSystem sql state) w as ht
  rw [Task.result_eq_some.mp hr] at hf
  exact hf.result (run_publication state t.request)

variable (hsql : SqlContract sql)
include hsql

/-- **An event is committed once**: two commits of a run with the same tenant and event id are the
same call of the same task. -/
theorem commit_unique {w : World} {as : List (Action (apiSystem sql state))} {i j : ℕ}
    {t u : Task (apiSystem sql state)} {o o' : Observed sql} {m m' : SqlMutation}
    {row row' : MutationRow} (ht : ((Config.initial w).run as).tasks[i]? = some t)
    (hu : ((Config.initial w).run as).tasks[j]? = some u) (ho : o ∈ t.history)
    (ho' : o' ∈ u.history) (hc : Commits o m row) (hc' : Commits o' m' row')
    (htenant : m'.tenantId = m.tenantId) (hevent : row'.eventId = row.eventId) : i = j := by
  obtain ⟨k, hk⟩ := List.mem_iff_getElem?.mp ho
  obtain ⟨k', hk'⟩ := List.mem_iff_getElem?.mp ho'
  refine (Config.run_token_unique (T := Uuid × Uuid)
    (P := fun x (s : World) => ∃ event, s.db.selectEvent x.1 x.2 = some event)
    (R := fun (o : Observed sql) x =>
      ∃ m row, Commits o m row ∧ x = (m.tenantId, row.eventId)) ?_ ?_ ?_ w as ht hk hu hk'
    ⟨m, row, hc, rfl⟩ ⟨m', row', hc', by rw [htenant, hevent]⟩).1
  · exact fun x => ⟨fun i c s ⟨event, he⟩ => ⟨event, (exec_keeps hsql i c s).event he⟩,
      fun e s ⟨event, he⟩ => ⟨event, (env_keeps e s).event he⟩⟩
  · rintro o x ⟨m, row, ⟨i, w, db, rfl, -, hok, hfresh⟩, rfl⟩ ⟨event, he⟩
    cases he.symm.trans (hsql.eventFresh hok hfresh)
  · rintro o x ⟨m, row, hc, rfl⟩
    obtain ⟨event, -, -, hpost⟩ := committed_post hsql hc
    exact ⟨event, hpost.event⟩

/-- **Only the request that committed publishes**: the publications of the event of a commit are
those in the history of its task. -/
theorem countP_published {db : Db} {clock : DateTime}
    {as : List (Action (apiSystem sql state))} {i : ℕ} {t : Task (apiSystem sql state)}
    (ht : ((Config.initial (World.initial db clock)).run as).tasks[i]? = some t)
    {o : Observed sql} (ho : o ∈ t.history) {m : SqlMutation} {row : MutationRow}
    (hc : Commits o m row) :
    (((Config.initial (World.initial db clock)).run as).state.published.countP
      (isEventOf m row)) = (published (t.history : History sql)).countP (isEventOf m row) := by
  refine ((published_perm db clock as).countP_eq _).trans ?_
  refine Config.countP_flatMap_of_unique ht fun j u hu hj => ?_
  obtain hnil | ⟨m', row', e, he, hfollowed, hfresh, hevent⟩ :=
    published_cases (publication_guarded hu)
  · exact (congrArg (List.countP _) hnil).trans rfl
  · refine (congrArg (List.countP _) he).trans ?_
    -- the event of another commit is another event
    have hother : isEventOf m row e = false := by
      by_contra hmine
      simp only [isEventOf, Bool.and_eq_true, decide_eq_true_eq, Bool.not_eq_false] at hevent hmine
      obtain ⟨i', w', hmem, hreply⟩ := hfollowed.mutated
      exact hj (commit_unique hsql ht hu ho hmem hc (commits_of_reply hreply hfresh)
        (hevent.1.symm.trans hmine.1) (hevent.2.symm.trans hmine.2)).symm
    simp [hother]

/-- A request with the key has returned a success response. -/
def SucceededWith (t : Task (apiSystem sql state)) (key : IdempotencyKey) : Prop :=
  (∃ o ∈ t.history, ∃ m, o.call = .mutate m ∧ m.key = key) ∧
    ∃ r, t.result = some (.http r) ∧ r.status < 300

/-- **Publication, exactly.** The event of a commit is published at most once in every run. It is
published exactly once, given that some request with its key succeeded, if and only if, given
that, the request that committed has ended and followed its commit up. -/
theorem published_once_iff {db : Db} {clock : DateTime}
    {as : List (Action (apiSystem sql state))} {i : ℕ} {t : Task (apiSystem sql state)}
    (ht : ((Config.initial (World.initial db clock)).run as).tasks[i]? = some t)
    {o : Observed sql} (ho : o ∈ t.history) {m : SqlMutation} {row : MutationRow}
    (hc : Commits o m row) :
    ((Config.initial (World.initial db clock)).run as).state.published.countP
        (isEventOf m row) ≤ 1 ∧
      (((∃ u ∈ ((Config.initial (World.initial db clock)).run as).tasks,
            SucceededWith u m.key) →
          ((Config.initial (World.initial db clock)).run as).state.published.countP
            (isEventOf m row) = 1) ↔
        ((∃ u ∈ ((Config.initial (World.initial db clock)).run as).tasks,
            SucceededWith u m.key) →
          (∃ r, t.result = some r) ∧ FollowedUp (t.history : History sql) m row)) := by
  have hcommit := published_commit (publication_guarded ht) ho hc
  rw [countP_published hsql ht ho hc]
  refine ⟨hcommit.1, imp_congr_right fun _ => ?_⟩
  by_cases hended : ∃ r, t.result = some r
  · obtain ⟨r, hr⟩ := hended
    exact (hcommit.2 (publication_ended ht hr)).trans (and_iff_right ⟨r, hr⟩).symm
  · refine iff_of_false ?_ fun hboth => hended hboth.1
    simp [published_of_not_ended ht hended]

end Runs

/-! ### A lost read after the commit -/

section LostRead

open Reference

/-- The status of a response. -/
def ApiResponse.status : ApiResponse → Option ℕ
  | .http r => some r.status
  | .connection _ => none

/-- A creation commits, and the connection to the database is lost before the read of its case;
the client retries, and is answered. -/
def lostReadRun : List (Action (apiSystem Reference.sql Reference.state)) :=
  let create := ApiRequest.createCase (headers "key") briefCommand
  let lost : Input := { input with fault := .lost .io }
  [.start create, .call 0 input, .call 0 input, .call 0 input, .call 0 input, .call 0 input,
    .call 0 input, .call 0 lost,
    .start create, .call 1 input, .call 1 input, .call 1 input, .call 1 input, .call 1 input,
    .call 1 input, .call 1 input, .call 1 input]

/-- The creation ended after its commit. -/
theorem lostReadRun_commit :
    (((Config.initial (World.initial office 1)).run lostReadRun).tasks[0]?).map (fun t =>
      ((answeredMutation (t.history : History Reference.sql)).map fun x => (x.1.key, x.2.replayed),
        t.result.bind ApiResponse.status)) =
      some (some (⟨Uuid.nil, "user", "key"⟩, false), some 503) := by
  decide +kernel

/-- The retry succeeded. -/
theorem lostReadRun_retry :
    (((Config.initial (World.initial office 1)).run lostReadRun).tasks[1]?).map (fun t =>
      ((answeredMutation (t.history : History Reference.sql)).map fun x => (x.1.key, x.2.replayed),
        t.result.bind ApiResponse.status)) =
      some (some (⟨Uuid.nil, "user", "key"⟩, true), some 200) := by
  decide +kernel

/-- Nothing was published. -/
theorem lostReadRun_published :
    ((Config.initial (World.initial office 1)).run lostReadRun).state.published = [] := by
  decide +kernel

/-- The commit and the retry, as tasks of the run. -/
theorem exists_lost_read : ∃ (t u : Task (apiSystem Reference.sql Reference.state))
    (o : Observed Reference.sql) (m : SqlMutation) (row : MutationRow) (r : ApiResponse),
    ((Config.initial (World.initial office 1)).run lostReadRun).tasks[0]? = some t ∧
      o ∈ t.history ∧ Commits o m row ∧ t.result = some r ∧
      u ∈ ((Config.initial (World.initial office 1)).run lostReadRun).tasks ∧
      SucceededWith u m.key := by
  obtain ⟨t, ht, hcommit⟩ := Option.map_eq_some_iff.mp lostReadRun_commit
  obtain ⟨u, hu, hretry⟩ := Option.map_eq_some_iff.mp lostReadRun_retry
  obtain ⟨htrow, htstatus⟩ := Prod.mk.inj hcommit
  obtain ⟨hurow, hustatus⟩ := Prod.mk.inj hretry
  obtain ⟨⟨m, row⟩, hanswered, hmrow⟩ := Option.map_eq_some_iff.mp htrow
  obtain ⟨⟨m', row'⟩, hanswered', hmrow'⟩ := Option.map_eq_some_iff.mp hurow
  obtain ⟨hkey, hfresh⟩ := Prod.mk.inj hmrow
  obtain ⟨hkey', -⟩ := Prod.mk.inj hmrow'
  obtain ⟨o, ho, hc⟩ := commits_of_answered hanswered hfresh
  obtain ⟨i', w', ho', -⟩ := answeredMutation_eq_some hanswered'
  obtain ⟨r, hr, -⟩ := Option.bind_eq_some_iff.mp htstatus
  obtain ⟨r', hr', hstatus⟩ := Option.bind_eq_some_iff.mp hustatus
  refine ⟨t, u, o, m, row, r, ht, ho, hc, hr, List.mem_of_getElem? hu,
    ⟨_, ho', m', rfl, hkey'.trans hkey.symm⟩, ?_⟩
  cases r' with
  | connection r' => cases hstatus
  | http r' =>
    refine ⟨r', hr', ?_⟩
    rw [Option.some.inj hstatus]
    decide

/-- **A committed mutation that is never published**, although a request with its key succeeds. -/
theorem not_published_once : ¬ ∀ (db : Db) (clock : DateTime)
    (as : List (Action (apiSystem Reference.sql Reference.state))) (i : ℕ)
    (t : Task (apiSystem Reference.sql Reference.state)) (o : Observed Reference.sql)
    (m : SqlMutation) (row : MutationRow) (r : ApiResponse),
    ((Config.initial (World.initial db clock)).run as).tasks[i]? = some t → o ∈ t.history →
      Commits o m row → t.result = some r →
      (∃ u ∈ ((Config.initial (World.initial db clock)).run as).tasks, SucceededWith u m.key) →
        ((Config.initial (World.initial db clock)).run as).state.published.countP
          (isEventOf m row) = 1 := by
  intro hall
  obtain ⟨t, u, o, m, row, r, ht, ho, hc, hr, hu, hsucceeded⟩ := exists_lost_read
  have hone := hall _ _ _ 0 t o m row r ht ho hc hr ⟨u, hu, hsucceeded⟩
  rw [lostReadRun_published] at hone
  cases hone

/-- The exact condition on that run, where it does not hold. -/
theorem published_once_iff_lost_read :
    ∃ (t : Task (apiSystem Reference.sql Reference.state)) (m : SqlMutation) (row : MutationRow),
      ((Config.initial (World.initial office 1)).run lostReadRun).tasks[0]? = some t ∧
        (((∃ u ∈ ((Config.initial (World.initial office 1)).run lostReadRun).tasks,
              SucceededWith u m.key) →
            ((Config.initial (World.initial office 1)).run lostReadRun).state.published.countP
              (isEventOf m row) = 1) ↔
          ((∃ u ∈ ((Config.initial (World.initial office 1)).run lostReadRun).tasks,
              SucceededWith u m.key) → (∃ r, t.result = some r) ∧
                FollowedUp (t.history : History Reference.sql) m row)) := by
  obtain ⟨t, u, o, m, row, r, ht, ho, hc, hr, -, -⟩ := exists_lost_read
  exact ⟨t, m, row, ht, (published_once_iff Reference.contract ht ho hc).2⟩

end LostRead

end ApmeApi
