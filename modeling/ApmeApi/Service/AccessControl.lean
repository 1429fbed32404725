import ApmeApi.Service.Handlers
import ApmeApi.Service.Reference

/-!
# Access control over every avenue

An access is a call on the cases of a tenant: a read, a mutation, an audit record, or an event
subscription (`Call.access`). `access_authorized` says of every run of the process that a task
makes an access only when the request at hand, on a route, as a handshake or in a frame,
presented credentials (`Presents`) with which the caller was authenticated for the scope of the
request and found an active member of the tenant in a role that permits it (`ActsFor`), all in the
calls of that same request.
-/

namespace ApmeApi

open Interaction CaseService

variable {sql : SqlFunctions}

/-! ### Accesses -/

/-- The tenant on whose cases a call acts. -/
def Call.access : Call → Option Uuid
  | .selectCases t => some t
  | .selectCase t _ => some t
  | .selectEvent t _ => some t
  | .appendAudit a => some a.tenantId
  | .mutate m => some m.tenantId
  | .onUpgrade s => some s.tenantId
  | _ => none

theorem Call.access_of_isPreliminary {tenant : Option Uuid} {c : Call}
    (h : c.isPreliminary tenant = true) : c.access = none := by
  cases c <;> first | rfl | cases h

/-- `Presents q h headers t h'`: the request at hand after the calls `h` of a task names the
tenant `t` under the credentials of `headers`, and `h'` are its calls. On a route these are all
calls of the task; on a connection they are those since the last frame was read. -/
inductive Presents (q : ApiRequest) : History sql → HeaderMap → Uuid → History sql → Prop
  | route {h : History sql} {headers : HeaderMap} {t : Uuid}
      (hq : q.named = some (headers, t)) : Presents q h headers t h
  | frame {h h' : History sql} {i : Input} {w : World} {config : Tcp.Config}
      {frame : List UInt8} {req : Tcp.FrameRequest} {headers : HeaderMap}
      (hq : q = .connection config)
      (hread : Obs.reply (M := apiMachine sql) ⟨i, w, .readFrame Tcp.codec⟩ = .frame frame)
      (hlast : ∀ o ∈ h', o.call ≠ .readFrame Tcp.codec)
      (hframe : Tcp.FrameRequest.decode frame = some req)
      (hheaders : tokenHeaders req.bearerToken = some headers) :
      Presents q (h ++ ⟨i, w, .readFrame Tcp.codec⟩ :: h') headers req.tenantId h'

/-- An active membership row of the subject in the tenant, with the role, was read. -/
def ActiveMember (h : History sql) (tenantId : Uuid) (subject : VerifiedSubject)
    (role : TenantRole) : Prop :=
  ∃ o ∈ h, o.call = .selectMembership tenantId subject.sharedUserId ∧
    ∃ row ∈ o.pre.db.memberships, row.tenantId = tenantId ∧
      row.sharedUserId = subject.sharedUserId ∧ row.active = true ∧ parseRole row.role = .ok role

/-- The answer to a membership query comes from an active row. -/
theorem Member.active {h : History sql} {tenantId : Uuid} {subject : VerifiedSubject}
    {role : TenantRole} (hm : Member h tenantId subject role) :
    ActiveMember h tenantId subject role := by
  obtain ⟨organizationId, roleName, ⟨i, w, hmem, hreply⟩, hrole⟩ := hm
  have hselect := (Fault.answer_ok hreply).2
  obtain ⟨row, hrow, ht, hu, ha, rfl⟩ := Db.selectMembership_eq_some hselect.symm
  exact ⟨_, hmem, rfl, row, hrow, ht, hu, ha, hrole⟩

/-- **The call is made for an authorized caller**: in the calls `h` of the request the subject
was authenticated with its credentials for its scopes, and found an active member of the tenant,
in a role that may make the request; and what the call records, it records of the subject. -/
structure ActsFor [SharedAuth] [ApmeInterfaces] (state : AppState) (q : ApiRequest)
    (headers : HeaderMap) (h : History sql) (c : Call) (tenantId : Uuid)
    (subject : VerifiedSubject) (role : TenantRole) : Prop where
  authenticated : Authenticated state.auth headers q.scopes h subject
  member : ActiveMember h tenantId subject role
  permitted : q.permits role
  mutation : ∀ m, c = .mutate m → q.mutates m ∧ m.key.sharedUserId = subject.sharedUserId
  audit : ∀ a, c = .appendAudit a → a.actor = subject.sharedUserId

/-- An access is made for a caller that the request at hand authorized. -/
def AccessGuarded [SharedAuth] [ApmeInterfaces] (state : AppState) (q : ApiRequest)
    (h : History sql) (o : Observed sql) : Prop :=
  ∀ tenantId, o.call.access = some tenantId → ∃ headers h' subject role,
    Presents q h headers tenantId h' ∧ ActsFor state q headers h' o.call tenantId subject role

section

variable [SharedAuth] [ApmeInterfaces] {state : AppState} {q : ApiRequest}

theorem accessGuarded_of_access_eq_none {h : History sql} {o : Observed sql}
    (ho : o.call.access = none) : AccessGuarded state q h o := by
  intro tenantId ht
  cases ho.symm.trans ht

/-- An access for the caller that `authorizedTenant` returned. -/
theorem accessGuarded_of_authorized {headers : HeaderMap} {h : History sql}
    {subject : VerifiedSubject} {context : TenantContext} {o : Observed sql}
    (hq : q.named = some (headers, context.tenantId))
    (hauth : Authorized state headers q.scopes h subject context)
    (hp : q.permits context.role)
    (haccess : ∀ t, o.call.access = some t → t = context.tenantId)
    (hm : ∀ m, o.call = .mutate m → q.mutates m ∧ m.key.sharedUserId = subject.sharedUserId)
    (ha : ∀ a, o.call = .appendAudit a → a.actor = subject.sharedUserId) :
    AccessGuarded state q h o := by
  intro tenantId ht
  obtain rfl := haccess tenantId ht
  exact ⟨headers, h, subject, context.role, .route hq, hauth.authenticated, hauth.member.active,
    hp, hm, ha⟩

/-! ### The requests -/

/-- **A mutation handler** accesses for the caller only, when its checks include that of the role
and lead to the mutation of the request. -/
theorem mutationHandler_accessGuarded {α : Type} {headers : HeaderMap}
    {checked : TenantContext → VerifiedSubject → String → DateTime →
      Except CaseServiceError SqlMutation} (answer : CaseMutationResult → α)
    (hq : q.named = (tenantId headers).toOption.map fun t => (headers, t))
    (hscopes : q.scopes = [casesWriteScope])
    (hchecked : ∀ context subject key now m, checked context subject key now = .ok m →
      q.permits context.role ∧ q.mutates m ∧ m.tenantId = context.tenantId ∧
        m.key.sharedUserId = subject.sharedUserId) :
    wp (fun (h : History sql) o => AccessGuarded state q h o) (fun _ _ => True)
      (Http.mutationHandler state headers checked answer).run [] := by
  refine mutationHandler_wp state headers checked answer
    (fun h o _ ho => accessGuarded_of_access_eq_none (Call.access_of_isPreliminary ho))
    (fun _ _ _ => trivial) ?_
  intro h subject context key now m _ htenant _ hauth hm
  obtain ⟨hpermits, hmutates, hmt, huser⟩ := hchecked context subject key now m hm
  have hnamed : q.named = some (headers, context.tenantId) := by
    rw [hq, named_of_tenantId htenant]
  rw [← hscopes] at hauth
  -- every later call of the request is made for the same caller
  have hguarded : ∀ h', h ⊆ h' → ∀ o : Observed sql,
      (∀ t, o.call.access = some t → t = context.tenantId) →
      (∀ m, o.call = .mutate m → q.mutates m ∧ m.key.sharedUserId = subject.sharedUserId) →
      (∀ a, o.call = .appendAudit a → a.actor = subject.sharedUserId) →
        AccessGuarded state q h' o := fun h' hsub o haccess hmut haudit =>
    accessGuarded_of_authorized hnamed (hauth.mono hsub) hpermits haccess hmut haudit
  refine wp_post (commit_wp context m h (fun i w => ?_) (fun h' hsub i w c => ?_)
    (fun h' hsub i w e => ?_)) ?_
  · refine hguarded h (List.Subset.refl h) _ (fun t ht => ?_) (fun m' hm' => ?_)
      (fun a ha => by cases ha)
    · rw [← hmt]
      exact (Option.some.inj ht).symm
    · obtain rfl := Call.mutate.inj hm'
      exact ⟨hmutates, huser⟩
  · exact hguarded h' hsub _ (fun t ht => (Option.some.inj ht).symm) (fun m hm => by cases hm)
      (fun a ha => by cases ha)
  · exact hguarded h' hsub _ (fun t ht => (Option.some.inj ht).symm) (fun m hm => by cases hm)
      (fun a ha => by cases ha)
  · rintro h' r -
    rcases r with e | mutation
    · trivial
    · dsimp only
      split
      · trivial
      · exact fun i w => ⟨accessGuarded_of_access_eq_none rfl, trivial⟩

/-- **A frame** accesses for the caller of its token only. -/
theorem execute_accessGuarded {config : Tcp.Config} {frame : List UInt8} (h : History sql)
    {i : Input} {w : World}
    (hread : Obs.reply (M := apiMachine sql) ⟨i, w, .readFrame Tcp.codec⟩ = .frame frame) :
    wp (AccessGuarded state (.connection config)) (fun _ _ => True) (Tcp.execute state frame)
      (h ++ [⟨i, w, .readFrame Tcp.codec⟩]) := by
  have hexecute : wp (fun h' o => AccessGuarded state (.connection config)
      (h ++ ⟨i, w, Call.readFrame Tcp.codec⟩ :: h') o) (fun _ _ => True)
      (Tcp.execute state frame) [] := by
    refine Tcp.execute_calls state frame (fun req _ h' o ho => ?_) ?_
    · exact accessGuarded_of_access_eq_none (Call.access_of_isPreliminary ho)
    · intro req headers h' subject context i' w' hframe hheaders htenant hpre hauth t ht
      obtain rfl : context.tenantId = t := Option.some.inj ht
      have hlast : ∀ o ∈ h', o.call ≠ Call.readFrame Tcp.codec := by
        intro o ho hc
        have hp := hpre o ho
        rw [hc] at hp
        cases hp
      have hpresents := Presents.frame (h := h) (q := .connection config) rfl hread hlast hframe
        hheaders
      rw [← htenant] at hpresents
      exact ⟨headers, h', subject, context.role, hpresents, hauth.authenticated,
        hauth.member.active, trivial, fun m hm => (by cases hm), fun a ha => (by cases ha)⟩
  have hframed := wp_frame hexecute (h ++ [⟨i, w, .readFrame Tcp.codec⟩])
  rw [List.append_nil] at hframed
  refine wp_mono hframed (fun t o ho => ?_) fun _ _ _ => trivial
  obtain ⟨t', ht', hg⟩ := ho
  rw [ht', List.append_assoc]
  exact hg

variable [Sha2]

/-- A mutation request accesses for the caller only. -/
theorem mutation_accessGuarded (state : AppState) {q : ApiRequest} (hq : q.isMutation = true) :
    wp (fun (h : History sql) o => AccessGuarded state q h o) (fun _ _ => True)
      (q.run state) [] := by
  obtain ⟨α, headers, checked, answer, f, hrun, hnamed, hscopes, hchecked⟩ :=
    ApiRequest.run_mutation state hq
  rw [hrun, wp_bind]
  exact wp_post (mutationHandler_accessGuarded answer hnamed hscopes hchecked) fun _ _ _ => trivial

/-- **Every request** accesses for callers that it authorized only. -/
theorem run_accessGuarded (state : AppState) (q : ApiRequest) :
    wp (fun (h : History sql) o => AccessGuarded state q h o) (fun _ _ => True)
      (q.run state) [] := by
  have hpre : ∀ {tenant : Option Uuid} (h : History sql) (o : Observed sql),
      o.call.isPreliminary tenant = true → AccessGuarded state q h o :=
    fun h o ho => accessGuarded_of_access_eq_none (Call.access_of_isPreliminary ho)
  cases q with
  | listCases headers =>
    rw [ApiRequest.run, wp_bind]
    refine wp_post (listCases_wp state headers hpre ?_) fun _ _ _ => trivial
    intro h subject context i w htenant hauth
    exact accessGuarded_of_authorized (named_of_tenantId htenant) hauth trivial
      (fun t ht => (Option.some.inj ht).symm) (fun m hm => by cases hm) (fun a ha => by cases ha)
  | getCase id headers =>
    rw [ApiRequest.run, wp_bind]
    refine wp_post (getCase_wp state id headers hpre ?_) fun _ _ _ => trivial
    intro h subject context i w htenant hauth
    refine ⟨accessGuarded_of_authorized (named_of_tenantId htenant) hauth trivial
      (fun t ht => (Option.some.inj ht).symm) (fun m hm => by cases hm)
      (fun a ha => by cases ha), fun a hat hactor => ?_⟩
    -- the audit entry is of the same tenant, and its actor is the caller
    refine accessGuarded_of_authorized (named_of_tenantId htenant) hauth trivial
      (fun t ht => ?_) (fun m hm => by cases hm) (fun a' ha' => ?_)
    · rw [← hat]
      exact (Option.some.inj ht).symm
    · rw [← Call.appendAudit.inj ha']
      exact hactor
  | createCase headers command => exact mutation_accessGuarded state rfl
  | transitionCase id headers command => exact mutation_accessGuarded state rfl
  | rotateEncryptedObject id headers command => exact mutation_accessGuarded state rfl
  | websocket query headers =>
    rw [ApiRequest.run, wp_bind]
    refine wp_post (websocket_wp state query headers hpre ?_) fun _ _ _ => trivial
    intro h subject role i w _ hauth hmember t ht
    obtain rfl : query.tenantId = t := Option.some.inj ht
    exact ⟨headers, h, subject, role, .route rfl, hauth, hmember.active, trivial,
      fun m hm => (by cases hm), fun a ha => (by cases ha)⟩
  | metrics =>
    rw [ApiRequest.run, wp_bind, Http.metrics, wp_run_bind, wp_run_lift, wp_request]
    refine fun i w => ⟨accessGuarded_of_access_eq_none rfl, ?_⟩
    cases Obs.reply (M := apiMachine sql) ⟨i, w, .countCases⟩ <;> trivial
  | connection config =>
    rw [ApiRequest.run, wp_bind, Tcp.serveConnection]
    refine wp_post (Tcp.serveRequests_wp state (fun _ _ _ => accessGuarded_of_access_eq_none rfl)
      (fun _ _ _ _ => accessGuarded_of_access_eq_none rfl)
      (fun h i w frame hread => execute_accessGuarded h hread) _ []) fun _ _ _ => trivial

/-- **Authorization soundness.** In every run of the process, whatever guard, introspection and
the membership table answer: an access of a task is made for an authorized caller of the request
at hand. -/
theorem access_authorized (w : World) (as : List (Action (apiSystem sql state))) {i : ℕ}
    {t : Task (apiSystem sql state)} (ht : ((Config.initial w).run as).tasks[i]? = some t)
    {h₁ h₂ : History sql} {o : Observed sql} (hh : t.history = h₁ ++ o :: h₂) {tenant : Uuid}
    (ho : o.call.access = some tenant) :
    ∃ headers h subject role, Presents t.request h₁ headers tenant h ∧
      ActsFor state t.request headers h o.call tenant subject role :=
  (Config.run_follows (Y := apiSystem sql state) w as ht).guarantee
    (run_accessGuarded state t.request) hh tenant ho

end

/-! ### A list -/

section Listed

open Reference

/-- The user lists the cases of the tenant. -/
def listRun : List (Action (apiSystem Reference.sql Reference.state)) :=
  [.start (.listCases (headers "key")), .call 0 input, .call 0 input, .call 0 input,
    .call 0 input, .call 0 input]

/-- The last call of the request is the list query. -/
theorem listRun_access :
    (((Config.initial (World.initial office 0)).run listRun).tasks[0]?.bind fun t =>
      (t.history.getLast?).bind fun (o : Observed Reference.sql) => o.call.access) =
        some Uuid.nil := by
  decide +kernel

/-- The access of that run is authorized. -/
theorem access_authorized_list : ∃ (t : Task (apiSystem Reference.sql Reference.state))
    (h₁ : History Reference.sql) (o : Observed Reference.sql) (headers : HeaderMap)
    (h : History Reference.sql) (subject : VerifiedSubject) (role : TenantRole),
    ((Config.initial (World.initial office 0)).run listRun).tasks[0]? = some t ∧
      t.history = h₁ ++ [o] ∧ Presents t.request h₁ headers Uuid.nil h ∧
        ActsFor Reference.state t.request headers h o.call Uuid.nil subject role := by
  obtain ⟨t, ht, hlast⟩ := Option.bind_eq_some_iff.mp listRun_access
  obtain ⟨o, ho, haccess⟩ := Option.bind_eq_some_iff.mp hlast
  have hh : t.history = t.history.dropLast ++ o :: [] :=
    (List.dropLast_append_getLast? o ho).symm
  obtain ⟨headers, h, subject, role, hpresents, hacts⟩ := access_authorized _ listRun ht hh haccess
  exact ⟨t, _, o, headers, h, subject, role, ht, hh, hpresents, hacts⟩

end Listed

end ApmeApi
