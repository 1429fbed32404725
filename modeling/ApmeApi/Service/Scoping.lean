import ApmeApi.Service.Provenance
import ApmeApi.Service.Sockets

/-!
# The scope of an event frame

The filter of a socket looks at the envelope of an event only. Since envelope, receipt and
mutation of a published event fit together, that is enough: every frame of a socket is scoped to
its subscription in all its parts, and comes from a request that was authorized for the tenant of
the subscription (`frame_scoped`).
-/

namespace ApmeApi

open Interaction CaseService

variable {sql : SqlFunctions}

/-- **An event within a subscription**: envelope and receipt name the tenant of the subscription
and one case, which is the case of the subscription, if it has one. -/
structure Scoped (subscription : CaseSubscription) (e : TenantEvent) : Prop where
  tenantId : e.tenantId = subscription.tenantId
  receiptTenantId : e.event.tenantId = subscription.tenantId
  receiptCaseId : e.event.caseId = e.caseId
  caseId : ∀ c, subscription.caseId = some c → e.caseId = c

/-- An event that a subscription accepts and that announces a mutation is within it, and so is the
mutation. -/
theorem Announces.scoped {m : SqlMutation} {row : MutationRow} {e : TenantEvent}
    {subscription : CaseSubscription} (ha : Announces m row e)
    (hallows : subscriptionAllows subscription e = true) :
    Scoped subscription e ∧ m.tenantId = subscription.tenantId := by
  rw [subscriptionAllows, Bool.and_eq_true, decide_eq_true_eq] at hallows
  obtain ⟨htenant, hcase⟩ := hallows
  have hmutation : m.tenantId = subscription.tenantId := ha.tenantId.symm.trans htenant.symm
  refine ⟨⟨htenant.symm, ha.receiptTenantId.trans hmutation,
    ha.receiptCaseId.trans ha.caseId.symm, fun c hc => ?_⟩, hmutation⟩
  rw [hc] at hcase
  exact (of_decide_eq_true hcase).symm

section Runs

variable [SharedAuth] [ApmeInterfaces] [Sha2] {state : AppState} (hsql : SqlContract sql)
include hsql

/-- **Scoping, from commit to frame.** In every run, every event frame of a socket is within its
subscription; it comes from a mutation of a case of that tenant, which was committed in a request
authorized for the tenant; and the socket was opened for a subject that the handshake had
authenticated and found an active member of the tenant. -/
theorem frame_scoped (db : Db) (clock : DateTime) (as : List (Action (apiSystem sql state)))
    {k : ℕ} {s : Socket}
    (hs : ((Config.initial (World.initial db clock)).run as).state.sockets[k]? = some s)
    {e : TenantEvent} (he : e ∈ s.sent ++ s.pending) :
    Scoped s.subscription e ∧
      (∃ t ∈ ((Config.initial (World.initial db clock)).run as).tasks, ∃ h₁ o h₂ m row,
        t.history = h₁ ++ o :: h₂ ∧ Commits o m row ∧ row.eventId = e.event.eventId ∧
        (∃ caseRow, Got (t.history : History sql)
            (.selectCase s.subscription.tenantId row.caseId) (.ok (some caseRow)) ∧
          caseRow.tenantId = s.subscription.tenantId ∧ caseRow.id = e.caseId) ∧
        ∃ headers h subject role, Presents t.request h₁ headers s.subscription.tenantId h ∧
          ActsFor state t.request headers h o.call s.subscription.tenantId subject role) ∧
      ∃ t ∈ ((Config.initial (World.initial db clock)).run as).tasks, ∃ h₁ o h₂ headers h subject
          role,
        t.history = h₁ ++ o :: h₂ ∧ o.call = .onUpgrade s.subscription ∧
        o.pre.sockets.length = k ∧
        Presents t.request h₁ headers s.subscription.tenantId h ∧
        Authenticated state.auth headers t.request.scopes h subject ∧
        ActiveMember h s.subscription.tenantId subject role := by
  obtain ⟨t, ht, h₁, o, h₂, headers, h, subject, role, hh, hcall, hposition, hpresents, hacts, -,
    hframes⟩ := socket_authorized db clock as hs
  obtain ⟨hallows, hpublished⟩ := hframes e he
  obtain ⟨i, u, hu, o', ho', m, row, hc, hfollowed, ha⟩ :=
    published_provenance hsql as (List.mem_of_mem_drop hpublished)
  obtain ⟨hscoped, hmutation⟩ := ha.scoped hallows
  refine ⟨hscoped, ⟨u, List.mem_of_getElem? hu, ?_⟩, t, ht, h₁, o, h₂, headers, h, subject, role,
    hh, hcall, hposition, hpresents, hacts.authenticated, hacts.member⟩
  -- the commit is an access to the tenant, so its request was authorized
  obtain ⟨g₁, g₂, hg⟩ := List.append_of_mem ho'
  have haccess : o'.call.access = some s.subscription.tenantId := by
    obtain ⟨i', w', db', rfl, -⟩ := hc
    exact congrArg some hmutation
  obtain ⟨headers', h', subject', role', hpresents', hacts'⟩ :=
    access_authorized _ as hu hg haccess
  obtain ⟨caseRow, -, hcase, -⟩ := hfollowed.case
  rw [hmutation] at hcase
  obtain ⟨i', w', hmem, hreply⟩ := hcase
  obtain ⟨-, htenant, hid, -⟩ := Db.selectCase_eq_some (selectCase_reply_ok hreply).symm
  exact ⟨g₁, o', g₂, m, row, hg, hc, ha.eventId.symm,
    ⟨caseRow, ⟨i', w', hmem, hreply⟩, htenant, hid.trans ha.caseId.symm⟩, headers', h', subject',
    role', hpresents', hacts'⟩

end Runs

/-! ### A frame -/

section Frame

open Reference

/-- The user opens a socket and then creates a case, whose event the loop sends. -/
def frameRun : List (Action (apiSystem Reference.sql Reference.state)) :=
  .start (.websocket ⟨Uuid.nil, some Uuid.nil⟩ (headers "key")) ::
    List.replicate 5 (.call 0 input) ++
    .start (.createCase (headers "key") briefCommand) :: List.replicate 9 (.call 1 input) ++
    [.env (.socket 0 .event), .env (.socket 0 (.written true))]

/-- The socket has sent one frame. -/
theorem frameRun_sent :
    (((Config.initial (World.initial office 1)).run frameRun).state.sockets[0]?).bind
      (fun s => s.sent.head?.map fun e => (s.subscription.caseId, e.event.caseVersion)) =
        some (some Uuid.nil, 1) := by
  decide +kernel

/-- The frame of that run is within the subscription. -/
theorem frame_scoped_created : ∃ s e,
    ((Config.initial (World.initial office 1)).run frameRun).state.sockets[0]? = some s ∧
      e ∈ s.sent ∧ Scoped s.subscription e ∧ e.caseId = Uuid.nil := by
  obtain ⟨s, hs, hsent⟩ := Option.bind_eq_some_iff.mp frameRun_sent
  obtain ⟨e, he, hpair⟩ := Option.map_eq_some_iff.mp hsent
  have hmem : e ∈ s.sent := List.mem_of_head? he
  have hscoped := (frame_scoped Reference.contract office 1 frameRun hs
    (List.mem_append_left _ hmem)).1
  exact ⟨s, e, hs, hmem, hscoped, hscoped.caseId _ (Prod.mk.inj hpair).1⟩

end Frame

end ApmeApi
