import ApmeApi.Lib.Unwinding
import ApmeApi.Service.DefiniteErrors
import ApmeApi.Service.Noninterference
import ApmeApi.Store.Confinement

/-!
# Tenants that share the process

What the requests of one tenant see of a run does not depend on what the requests of the others do.
A request calls for the tenants that it names only (`run_named`), a call for another tenant leaves
worlds that the tenant cannot tell apart (`exec_confined`), and so all requests of the others can be
taken out of a run, wherever they were interleaved, without a difference to the tenant
(`others_silenced`).
-/

namespace ApmeApi

open Interaction CaseService

variable {sql : SqlFunctions}

/-! ### The tenants of a call -/

/-- The tenant whose rows a call is about. -/
def Call.tenant : Call → Option Uuid
  | .selectMembership t _ => some t
  | .selectCases t => some t
  | .selectCase t _ => some t
  | .selectEvent t _ => some t
  | .appendAudit a => some a.tenantId
  | .mutate m => some m.tenantId
  | _ => none

/-- The calls that are about all tenants. -/
def Call.isGlobal : Call → Bool
  | .countCases => true
  | .applyRetention _ _ => true
  | _ => false

theorem Call.concerns_iff {t : Uuid} {c : Call} :
    c.concerns t = true ↔ (∀ t', c.tenant = some t' → t' = t) ∧ c.isGlobal = false := by
  cases c <;> simp [concerns, tenant, isGlobal]

/-- A preliminary call is about the tenant that the request names. -/
theorem Call.tenant_of_isPreliminary {tenant : Option Uuid} {c : Call}
    (h : c.isPreliminary tenant = true) :
    (∀ t, c.tenant = some t → tenant = some t) ∧ c.isGlobal = false := by
  cases c with
  | selectMembership t u =>
    have ht : tenant = some t := by simpa [isPreliminary] using h
    exact ⟨fun t' ht' => by rw [ht]; exact ht', rfl⟩
  | guardCheck | introspect | unixNow | utcNow => exact ⟨fun t ht => (by cases ht), rfl⟩
  | _ => cases h

/-- **The tenants that a request names**: on a route by its header or its query, on a connection by
a frame that it has read. -/
inductive Names (q : ApiRequest) (h : History sql) (t : Uuid) : Prop
  | route {headers : HeaderMap} (hq : q.named = some (headers, t))
  | frame {config : Tcp.Config} {frame : List UInt8} {req : Tcp.FrameRequest}
      (hq : q = .connection config) (hread : Got h (.readFrame Tcp.codec) (.frame frame))
      (hframe : Tcp.FrameRequest.decode frame = some req) (ht : req.tenantId = t)

theorem Names.mono {q : ApiRequest} {h h' : History sql} {t : Uuid} (hn : Names q h t)
    (hsub : h ⊆ h') : Names q h' t := by
  cases hn with
  | route hq => exact .route hq
  | frame hq hread hframe ht =>
    obtain ⟨i, w, hmem, hr⟩ := hread
    exact .frame hq ⟨i, w, hsub hmem, hr⟩ hframe ht

/-- A request that is not a connection names one tenant. -/
theorem Names.eq_of_named {q : ApiRequest} {h : History sql} {t t' : Uuid}
    (hq : q.named.map Prod.snd = some t) (hn : Names q h t') : t' = t := by
  cases hn with
  | route hq' =>
    rw [hq'] at hq
    exact Option.some.inj hq
  | frame hq' =>
    subst hq'
    cases hq

/-- A call is about a tenant that the request at hand names, or about all of them for the
metrics. -/
structure CallNamed (q : ApiRequest) (h : History sql) (o : Observed sql) : Prop where
  tenant : ∀ t, o.call.tenant = some t → Names q h t
  overall : o.call.isGlobal = true → o.call = .countCases ∧ q = .metrics

theorem CallNamed.of_concerns {q : ApiRequest} {h : History sql} {o : Observed sql} {t : Uuid}
    (hn : Names q h t) (ho : o.call.concerns t = true) : CallNamed q h o where
  tenant t' ht' := by
    obtain rfl := (Call.concerns_iff.mp ho).1 t' ht'
    exact hn
  overall hg := by cases hg.symm.trans (Call.concerns_iff.mp ho).2

theorem CallNamed.of_isPreliminary {q : ApiRequest} {h : History sql} {o : Observed sql}
    (ho : o.call.isPreliminary none = true) : CallNamed q h o where
  tenant t ht := by cases (Call.tenant_of_isPreliminary ho).1 t ht
  overall hg := by cases hg.symm.trans (Call.tenant_of_isPreliminary ho).2

section

variable [SharedAuth] [ApmeInterfaces]

/-- A frame makes calls for the tenant that it names. -/
theorem execute_named {state : AppState} {config : Tcp.Config} {frame : List UInt8}
    (h : History sql) {i : Input} {w : World}
    (hread : Obs.reply (M := apiMachine sql) ⟨i, w, .readFrame Tcp.codec⟩ = .frame frame) :
    wp (CallNamed (.connection config)) (fun _ _ => True) (Tcp.execute state frame)
      (h ++ [⟨i, w, .readFrame Tcp.codec⟩]) := by
  have hexecute : wp (fun (_ : History sql) o => ∃ req, Tcp.FrameRequest.decode frame = some req ∧
      o.call.concerns req.tenantId = true) (fun _ _ => True) (Tcp.execute state frame) [] := by
    refine Tcp.execute_calls state frame (fun req hreq _ o ho => ?_) ?_
    · exact ⟨req, hreq, Call.concerns_of_isPreliminary ho⟩
    · intro req headers _ subject context i w hreq _ htenant _ _
      exact ⟨req, hreq, by simp [Call.concerns, htenant]⟩
  have hframed := wp_frame hexecute (h ++ [⟨i, w, .readFrame Tcp.codec⟩])
  rw [List.append_nil] at hframed
  refine wp_mono hframed ?_ fun _ _ _ => trivial
  rintro h' o ⟨t, -, req, hreq, ho⟩
  exact .of_concerns (.frame rfl ⟨i, w, by simp, hread⟩ hreq rfl) ho

variable [Sha2]

/-- **Every request** makes calls for the tenants that it names. -/
theorem run_named (state : AppState) (q : ApiRequest) :
    wp (fun (h : History sql) o => CallNamed q h o) (fun _ _ => True) (q.run state) [] := by
  -- with a malformed header only the caller is authenticated
  have hnone : ∀ {headers : HeaderMap},
      ((tenantId headers).toOption.map fun t => (headers, t)) = none →
        (tenantId headers).toOption = none := fun h => Option.map_eq_none_iff.mp h
  have habsurd : ∀ {headers : HeaderMap} {t : Uuid}, (tenantId headers).toOption = none →
      tenantId headers ≠ .ok t := fun h ht => by
    rw [ht] at h
    cases h
  cases hq : q.named with
  | some x =>
    obtain ⟨headers, t⟩ := x
    exact wp_mono (run_concerns state hq) (fun h o ho => .of_concerns (.route hq) ho)
      fun _ _ _ => trivial
  | none =>
    have hmutation : ∀ q' : ApiRequest, q'.named = none → q'.isMutation = true →
        wp (fun (h : History sql) o => CallNamed q' h o) (fun _ _ => True) (q'.run state) [] := by
      intro q' hq' hm
      obtain ⟨α, headers, checked, answer, f, hrun, hnamed, -⟩ := ApiRequest.run_mutation state hm
      have ht := hnone (hnamed.symm.trans hq')
      rw [hrun, wp_bind]
      refine wp_post (mutationHandler_wp (Q := fun _ _ => True) state headers checked answer
        (fun h o _ ho => ?_) (fun _ _ _ => trivial) fun h subject context key now m _ htenant => ?_)
        fun _ _ _ => trivial
      · rw [ht] at ho
        exact .of_isPreliminary ho
      · exact absurd htenant (habsurd ht)
    cases q with
    | listCases headers =>
      have ht := hnone hq
      rw [ApiRequest.run, wp_bind]
      refine wp_post (listCases_wp state headers (fun h o ho => ?_)
        fun h subject context i w htenant => absurd htenant (habsurd ht)) fun _ _ _ => trivial
      rw [ht] at ho
      exact .of_isPreliminary ho
    | getCase id headers =>
      have ht := hnone hq
      rw [ApiRequest.run, wp_bind]
      refine wp_post (getCase_wp state id headers (fun h o ho => ?_)
        fun h subject context i w htenant => absurd htenant (habsurd ht)) fun _ _ _ => trivial
      rw [ht] at ho
      exact .of_isPreliminary ho
    | createCase headers command => exact hmutation _ hq rfl
    | transitionCase id headers command => exact hmutation _ hq rfl
    | rotateEncryptedObject id headers command => exact hmutation _ hq rfl
    | websocket query headers => cases hq
    | metrics =>
      rw [ApiRequest.run, wp_bind, Http.metrics, wp_run_bind, wp_run_lift, wp_request]
      refine fun i w => ⟨⟨fun t ht => (by cases ht), fun _ => ⟨rfl, rfl⟩⟩, ?_⟩
      cases Obs.reply (M := apiMachine sql) ⟨i, w, .countCases⟩ <;> trivial
    | connection config =>
      rw [ApiRequest.run, wp_bind, Tcp.serveConnection]
      have hexchange : ∀ {o : Observed sql} (h : History sql), o.call.tenant = none →
          o.call.isGlobal = false → CallNamed (.connection config) h o := fun h ht hg =>
        ⟨fun t ht' => (by cases ht.symm.trans ht'), fun hg' => (by cases hg.symm.trans hg')⟩
      exact wp_post (Tcp.serveRequests_wp state (fun h _ _ => hexchange h rfl rfl)
        (fun h _ _ _ => hexchange h rfl rfl) (fun h i w frame hread => execute_named h hread) _ [])
        fun _ _ _ => trivial

end

/-! ### Calls of other tenants -/

namespace Indistinguishable

variable {t : Uuid} {w w' w'' : World}

theorem refl (t : Uuid) (w : World) : Indistinguishable t w w := ⟨.refl t w.db, rfl⟩

theorem symm (h : Indistinguishable t w w') : Indistinguishable t w' w :=
  ⟨h.db.symm, h.clock.symm⟩

theorem trans (h : Indistinguishable t w w') (h' : Indistinguishable t w' w'') :
    Indistinguishable t w w'' := ⟨h.db.trans h'.db, h.clock.trans h'.clock⟩

end Indistinguishable

/-- A transaction that leaves the rows of a tenant. -/
theorem transaction_confined {α : Type} {t : Uuid} (w : World) (fault : Fault)
    {r : Except String (Db × α)} (hr : ∀ db a, r = .ok (db, a) → Db.Agree t w.db db) :
    Indistinguishable t w (w.transaction fault r).2 := by
  rcases w.transaction_cases fault r with ⟨hpost, -⟩ | ⟨db, a, hok, hpost, -⟩
  · rw [hpost]
    exact .refl t w
  · rw [hpost]
    exact ⟨hr db a hok, rfl⟩

/-- **A call that is not about a tenant** leaves a world that the tenant cannot tell apart from the
one it found. -/
theorem exec_confined (hconfined : SqlConfined sql) {t : Uuid} (i : Input) {c : Call} (w : World)
    (htenant : c.tenant ≠ some t) (hglobal : c.isGlobal = true → c = .countCases) :
    Indistinguishable t w (exec sql i c w).2 := by
  cases c with
  | mutate m =>
    refine transaction_confined w i.fault fun db row h => hconfined.mutate h t ?_
    rintro rfl
    exact htenant rfl
  | appendAudit a =>
    refine transaction_confined w i.fault fun db x h => ?_
    cases ha : sql.apmeAppendAudit a i.draw w.db with
    | error e =>
      rw [ha] at h
      cases h
    | ok db' =>
      rw [ha] at h
      obtain ⟨rfl, -⟩ := Prod.mk.inj (Except.ok.inj h)
      refine hconfined.audit ha t ?_
      rintro rfl
      exact htenant rfl
  | applyRetention now actor => cases hglobal rfl
  | publish e => exact ⟨.refl t w.db, rfl⟩
  | onUpgrade s => exact ⟨.refl t w.db, rfl⟩
  | _ => exact .refl t w

/-! ### Runs -/

section Runs

variable [SharedAuth] [ApmeInterfaces] [Sha2] {state : AppState}

/-- **Indistinguishability unwinds** for the calls of the tenant. -/
theorem indistinguishable_unwinds (hsql : SqlTenantLocal sql) (t : Uuid) :
    Unwinding (apiSystem sql state) (Indistinguishable t) (fun c => c.concerns t = true) where
  exec i c w w' hc hw := exec_indistinguishable hsql i c w w' hc hw
  env e w w' hw := by
    obtain ⟨⟨htenants, hmemberships, hcases, hevents, hkeys, haudit⟩, hclock⟩ := hw
    cases e with
    | tenants rows => exact ⟨⟨rfl, hmemberships, hcases, hevents, hkeys, haudit⟩, hclock⟩
    | memberships rows => exact ⟨⟨htenants, rfl, hcases, hevents, hkeys, haudit⟩, hclock⟩
    | clock now => exact ⟨⟨htenants, hmemberships, hcases, hevents, hkeys, haudit⟩, rfl⟩
    | _ => exact ⟨⟨htenants, hmemberships, hcases, hevents, hkeys, haudit⟩, hclock⟩
  stands _ _ _ h h' := h.symm.trans h'

/-- The calls of a run are about tenants that their tasks name. -/
theorem trace_named (w : World) (as : List (Action (apiSystem sql state)))
    {x : ℕ × Observed sql} (hx : x ∈ (Config.initial w).trace as) :
    ∃ u, ((Config.initial w).run as).tasks[x.1]? = some u ∧ CallNamed u.request u.history x.2 := by
  obtain ⟨u, hu, ho⟩ := Config.exists_task_of_mem_trace w as hx
  obtain ⟨h₁, h₂, hh⟩ := List.append_of_mem ho
  have hnamed := (Config.run_follows (Y := apiSystem sql state) w as hu).guarantee
    (run_named state u.request) hh
  have hsub : h₁ ⊆ u.history := by
    rw [hh]
    exact List.subset_append_left _ _
  exact ⟨u, hu, fun t ht => (hnamed.tenant t ht).mono hsub, hnamed.overall⟩

/-- **The others can be silenced.** In every run, let some of the requests name one tenant only, and
let no other request name it. Without the calls of the others, and from any world that the tenant
cannot tell apart from the first, the same actions lead to a world that the tenant cannot tell apart
from the first run's, and each of its requests makes the same calls and is answered alike. -/
theorem others_silenced (hsql : SqlTenantLocal sql) (hconfined : SqlConfined sql) {t : Uuid}
    {w w' : World} (hw : Indistinguishable t w w') (as : List (Action (apiSystem sql state)))
    (own : ℕ → Bool) (hown : ∀ i u, ((Config.initial w).run as).tasks[i]? = some u → own i = true →
      u.request ≠ .metrics ∧ ∀ t', Names u.request (u.history : History sql) t' → t' = t)
    (hother : ∀ i u, ((Config.initial w).run as).tasks[i]? = some u → own i = false →
      ¬ Names u.request (u.history : History sql) t) :
    Indistinguishable t ((Config.initial w).run as).state
        ((Config.initial w').run (silence own as)).state ∧
      ∀ i u, own i = true → ((Config.initial w).run as).tasks[i]? = some u →
        ∃ u', ((Config.initial w').run (silence own as)).tasks[i]? = some u' ∧
          u'.request = u.request ∧ u'.history.map (·.call) = u.history.map (·.call) ∧
          u'.result = u.result := by
  have hcalls : ∀ x ∈ (Config.initial w).trace as, own x.1 = true →
      x.2.call.concerns t = true := by
    intro x hx hi
    obtain ⟨u, hu, hnamed⟩ := trace_named w as hx
    obtain ⟨hmetrics, honly⟩ := hown x.1 u hu hi
    refine Call.concerns_iff.mpr ⟨fun t' ht' => honly t' (hnamed.tenant t' ht'), ?_⟩
    exact Bool.eq_false_iff.mpr fun hg => hmetrics (hnamed.overall hg).2
  have hothers : ∀ x ∈ (Config.initial w).trace as, own x.1 = false →
      Indistinguishable t x.2.pre (Obs.post x.2) := by
    intro x hx hi
    obtain ⟨u, hu, hnamed⟩ := trace_named w as hx
    exact exec_confined hconfined x.2.input x.2.pre
      (fun ht => hother x.1 u hu hi (hnamed.tenant t ht)) fun hg => (hnamed.overall hg).1
  have hempty : SameView (Y := apiSystem sql state) own (.initial w) (.initial w') :=
    ⟨rfl, fun _ _ => rfl⟩
  obtain ⟨hstate, hview⟩ :=
    (indistinguishable_unwinds hsql t).silence hw hempty as hcalls hothers
  refine ⟨hstate, fun i u hi hu => ?_⟩
  have hobserved := hview.observed i hi
  rw [hu] at hobserved
  obtain ⟨u', hu', heq⟩ := Option.map_eq_some_iff.mp hobserved.symm
  obtain ⟨hrequest, hrest⟩ := Prod.mk.inj heq
  obtain ⟨hmade, hprog⟩ := Prod.mk.inj hrest
  exact ⟨u', hu', hrequest, hmade, by rw [Task.result, Task.result, hprog]⟩

end Runs

/-! ### Two offices -/

section Offices

open Reference

/-- The databases of two tenants with one member. -/
def twoOffices : Db :=
  { office with
    tenants := office.tenants ++ [⟨⟨1⟩, ⟨1⟩⟩]
    memberships := office.memberships ++ [⟨⟨1⟩, "user", "administrator", true⟩] }

/-- The headers of a request to the second tenant. -/
def secondHeaders : HeaderMap :=
  ⟨[("authorization", Text.utf8 "Bearer token".toList),
    (tenantHeader, Text.utf8 (Uuid.mk 1).display),
    (idempotencyHeader, Text.utf8 "key".toList)]⟩

/-- A case of the second tenant is created while the cases of the first are listed. -/
def officesRun : List (Action (apiSystem Reference.sql Reference.state)) :=
  [.start (.createCase secondHeaders briefCommand), .start (.listCases (headers "key"))] ++
    List.replicate 4 (.call 0 input) ++ List.replicate 3 (.call 1 input) ++
    List.replicate 5 (.call 0 input) ++ List.replicate 3 (.call 1 input)

theorem officesRun_tasks :
    ((Config.initial (World.initial twoOffices 1)).run officesRun).tasks.map
      (fun u => u.request.named.map Prod.snd) = [some ⟨1⟩, some Uuid.nil] := by
  decide +kernel

/-- The list is answered as without the creation, which commits. -/
theorem others_silenced_offices : ∃ u u',
    ((Config.initial (World.initial twoOffices 1)).run officesRun).tasks[1]? = some u ∧
      ((Config.initial (World.initial twoOffices 1)).run
        (silence (fun i => i = 1) officesRun)).tasks[1]? = some u' ∧
      u'.result = u.result ∧
      ((Config.initial (World.initial twoOffices 1)).run officesRun).state.db.cases.length = 1 ∧
      ((Config.initial (World.initial twoOffices 1)).run
        (silence (fun i => i = 1) officesRun)).state.db.cases.length = 0 := by
  have hnamed : ∀ (i : ℕ) (u : Task (apiSystem Reference.sql Reference.state)),
      ((Config.initial (World.initial twoOffices 1)).run officesRun).tasks[i]? = some u →
        [some (Uuid.mk 1), some Uuid.nil][i]? = some (u.request.named.map Prod.snd) := by
    intro i u hu
    rw [← officesRun_tasks, List.getElem?_map, hu]
    rfl
  have hlist : ∃ u,
      ((Config.initial (World.initial twoOffices 1)).run officesRun).tasks[1]? = some u :=
    Option.isSome_iff_exists.mp (by decide +kernel)
  obtain ⟨u, hu⟩ := hlist
  have hsilenced := others_silenced (t := Uuid.nil) Reference.tenantLocal Reference.confined
    (.refl _ (World.initial twoOffices 1)) officesRun (fun i => i = 1) (fun i u hu hi => ?_)
    fun i u hu hi hn => ?_
  · obtain ⟨u', hu', -, -, hresult⟩ := hsilenced.2 1 u rfl hu
    exact ⟨u, u', hu, hu', hresult, by decide +kernel, by decide +kernel⟩
  · obtain rfl := of_decide_eq_true hi
    have hq := (Option.some.inj (hnamed 1 u hu)).symm
    refine ⟨fun hmetrics => ?_, fun t' hn => hn.eq_of_named hq⟩
    rw [hmetrics] at hq
    cases hq
  · have hq := hnamed i u hu
    match i, hi with
    | 0, _ => cases hn.eq_of_named (Option.some.inj hq).symm
    | 1, hi => cases hi
    | i + 2, _ => cases hq

end Offices

end ApmeApi
