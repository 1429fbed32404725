import ApmeApi.Service.AccessControl
import ApmeApi.Service.Publication
import ApmeApi.Service.Stream

/-!
# Open sockets and the authority behind them

The handshake of a WebSocket hands the subscription to the loop, and nothing else: the subject is
used for authorization and dropped. So the loop cannot consult the authority again, and a socket
that was opened before a revocation goes on delivering events (`not_revocation_reaches_sockets`).

What stands behind every open socket is its handshake (`socket_authorized`): the call that opened
it was made for a subject whose session was active and unexpired and whose membership was active
when they were read, in that same request, and the socket carries only events of that tenant
published since.
-/

namespace ApmeApi

open Interaction CaseService Broadcast

variable {sql : SqlFunctions}

/-! ### The call behind a socket -/

/-- The sockets that a call opens on a channel. -/
def Call.opens (log : List TenantEvent) : Call → List Socket
  | .onUpgrade s => [Socket.start (subscribe log) s]
  | _ => []

/-- The sockets are those that the calls opened. -/
theorem sockets_post (o : Observed sql) :
    (Obs.post o).sockets = o.pre.sockets ++ o.call.opens o.pre.published := by
  obtain ⟨i, w, c⟩ := o
  cases c with
  | onUpgrade s => rfl
  | mutate m => exact (World.transaction_sockets ..).trans (List.append_nil _).symm
  | appendAudit a => exact (World.transaction_sockets ..).trans (List.append_nil _).symm
  | applyRetention now actor =>
    exact (World.transaction_sockets ..).trans (List.append_nil _).symm
  | _ => exact (List.append_nil _).symm

/-- **The call that opened a socket**: it found as many sockets as the position of this one says,
and since then the socket has run as a connection subscribed there. -/
structure Opened (o : Observed sql) (k : ℕ) (s : Socket) (log : List TenantEvent) : Prop where
  call : o.call = .onUpgrade s.subscription
  position : o.pre.sockets.length = k
  stream : ∃ as, (Stream.opened o.pre.published s.subscription).run as = ⟨log, s⟩

/-- A socket that is opened has run as a connection that just subscribed. -/
theorem Opened.new (o : Observed sql) {s : Socket} {k : ℕ}
    (hs : (o.call.opens o.pre.published)[k]? = some s) :
    Opened o (o.pre.sockets.length + k) s (Obs.post o).published := by
  obtain ⟨i, w, c⟩ := o
  cases c with
  | onUpgrade sub =>
    have hk : k = 0 := by
      obtain ⟨hlt, -⟩ := List.getElem?_eq_some_iff.mp hs
      simpa [Call.opens] using hlt
    subst hk
    obtain rfl : Socket.start (subscribe w.published) sub = s := Option.some.inj hs
    exact ⟨rfl, rfl, [], rfl⟩
  | _ => cases hs

/-- A publication happens to every connection. -/
theorem Opened.publish {o : Observed sql} {k : ℕ} {s : Socket} {log : List TenantEvent}
    (h : Opened o k s log) (c : Call) : Opened o k s (log ++ c.published) := by
  cases c with
  | publish e =>
    obtain ⟨as, has⟩ := h.stream
    refine ⟨h.call, h.position, as ++ [.publish e], ?_⟩
    rw [Stream.run_concat, has]
    rfl
  | _ => simpa [Call.published] using h

/-- A step of its loop happens to a connection. -/
theorem Opened.loop {o : Observed sql} {k : ℕ} {s : Socket} {log : List TenantEvent}
    (h : Opened o k s log) (i : SocketInput) : Opened o k (s.step log i) log := by
  obtain ⟨as, has⟩ := h.stream
  refine ⟨?_, h.position, as ++ [.loop i], ?_⟩
  · rw [Socket.step_subscription]
    exact h.call
  · rw [Socket.step_subscription, Stream.run_concat, has]
    rfl

/-! ### The session at the handshake -/

/-- Introspection tells the truth: an active response describes a session of the authority that is
not revoked, with its user and its expiry. -/
def Truthful (h : History sql) : Prop :=
  ∀ i w token audience scopes r,
    (⟨i, w, .introspect token audience scopes⟩ : Observed sql) ∈ h →
    Obs.reply (M := apiMachine sql) ⟨i, w, .introspect token audience scopes⟩ = some r →
    r.active = true → ∃ session ∈ w.sessions, r.sid = some session.sessionId ∧
      r.sub = some session.sharedUserId ∧ r.exp = some session.expiresAt ∧
        session.revoked = false

/-- The authority had a session of the subject that was neither revoked nor past its expiry. -/
def SessionFound (h : History sql) (subject : VerifiedSubject) : Prop :=
  ∃ o ∈ h, ∃ session ∈ o.pre.sessions, session.sessionId = subject.sessionId ∧
    session.sharedUserId = subject.sharedUserId ∧ session.revoked = false ∧
    ∃ now, Got h .unixNow now ∧ now < session.expiresAt

/-- An authenticated subject has such a session, when introspection tells the truth. -/
theorem Authenticated.sessionFound [SharedAuth] {service : AuthService} {headers : HeaderMap}
    {scopes : List String} {h : History sql} {subject : VerifiedSubject}
    (ha : Authenticated service headers scopes h subject) (ht : Truthful h) :
    SessionFound h subject := by
  obtain ⟨identity, token, r, now, -, -, -, ⟨i, w, hmem, hreply⟩, hnow, hactive⟩ := ha
  obtain ⟨session, hsession, hsid, hsub, hexp, hrevoked⟩ :=
    ht i w token service.audience scopes r hmem hreply hactive.active
  obtain ⟨expires, hexpires, hlt⟩ := hactive.exp
  have hid := Option.some.inj (hsid.symm.trans hactive.sid)
  have huser := Option.some.inj (hsub.symm.trans hactive.sub)
  have hat := Option.some.inj (hexp.symm.trans hexpires)
  exact ⟨_, hmem, session, hsession, hid, huser, hrevoked, now, hnow, by rwa [hat]⟩

section Runs

variable [SharedAuth] [ApmeInterfaces] [Sha2] {state : AppState}

/-- **Every socket was opened by a call**, in every run. -/
theorem socket_opened (db : Db) (clock : DateTime) (as : List (Action (apiSystem sql state)))
    {k : ℕ} {s : Socket}
    (hs : ((Config.initial (World.initial db clock)).run as).state.sockets[k]? = some s) :
    ∃ t ∈ ((Config.initial (World.initial db clock)).run as).tasks, ∃ o ∈ t.history,
      Opened o k s ((Config.initial (World.initial db clock)).run as).state.published := by
  revert k s
  refine Config.run_invariant (I := fun c : Config (apiSystem sql state) =>
    ∀ {k : ℕ} {s : Socket}, c.state.sockets[k]? = some s →
      ∃ t ∈ c.tasks, ∃ o ∈ t.history, Opened o k s c.state.published) ?_ ?_ ?_ as ?_
  · -- a request arrives
    intro c r hc k s hs
    obtain ⟨t, ht, o, ho, hopened⟩ := hc hs
    exact ⟨t, List.mem_append_left _ ht, o, ho, hopened⟩
  · -- a task makes a call
    intro c i t input cl q hc ht _ k s hs
    have hsockets := sockets_post (⟨input, c.state, cl⟩ : Observed sql)
    have hpublished := published_post (⟨input, c.state, cl⟩ : Observed sql)
    replace hs : (Obs.post (⟨input, c.state, cl⟩ : Observed sql)).sockets[k]? = some s := hs
    rw [hsockets] at hs
    -- a socket from before this call, or the one that it opened
    by_cases hk : k < c.state.sockets.length
    · rw [List.getElem?_append_left hk] at hs
      obtain ⟨t', ht', o, ho, hopened⟩ := hc hs
      obtain ⟨u, hu, -, hsub⟩ := Config.exists_mem_set_advance ht ht'
      refine ⟨u, hu, o, hsub ho, ?_⟩
      have hnow := hopened.publish cl
      exact hpublished ▸ hnow
    · obtain ⟨j, rfl⟩ := Nat.exists_eq_add_of_le (Nat.le_of_not_lt hk)
      rw [List.getElem?_append_right (Nat.le_add_right _ _), Nat.add_sub_cancel_left] at hs
      have hlt := (List.getElem?_eq_some_iff.mp ht).1
      exact ⟨_, List.mem_of_getElem? (List.getElem?_set_self hlt), _,
        List.mem_append_right _ (List.mem_singleton_self _), Opened.new _ hs⟩
  · -- a socket makes a step of its loop
    intro c e hc k s hs
    cases e with
    | socket j i =>
      replace hs : (c.state.sockets.modify j fun s => s.step c.state.published i)[k]? = some s := hs
      rw [List.getElem?_modify] at hs
      obtain ⟨s', hs', hstep⟩ := Option.map_eq_some_iff.mp hs
      obtain ⟨t, ht, o, ho, hopened⟩ := hc hs'
      refine ⟨t, ht, o, ho, ?_⟩
      by_cases hj : j = k
      · rw [if_pos hj] at hstep
        rw [← hstep]
        exact hopened.loop i
      · rw [if_neg hj] at hstep
        rw [← hstep]
        exact hopened
    | _ => exact hc hs
  · intro k s hs
    cases hs

/-- **The authority behind a socket.** In every run, every socket was opened by a call for a
subject that the same request had authenticated and found an active member of the tenant of the
subscription, in a session that was neither revoked nor expired then; and its frames are events
that the subscription accepts, published since. -/
theorem socket_authorized (db : Db) (clock : DateTime) (as : List (Action (apiSystem sql state)))
    {k : ℕ} {s : Socket}
    (hs : ((Config.initial (World.initial db clock)).run as).state.sockets[k]? = some s) :
    ∃ t ∈ ((Config.initial (World.initial db clock)).run as).tasks,
      ∃ h₁ o h₂ headers h subject role,
      t.history = h₁ ++ o :: h₂ ∧ o.call = .onUpgrade s.subscription ∧ o.pre.sockets.length = k ∧
      Presents t.request h₁ headers s.subscription.tenantId h ∧
      ActsFor state t.request headers h o.call s.subscription.tenantId subject role ∧
      (Truthful h → SessionFound h subject) ∧
      ∀ e ∈ s.sent ++ s.pending, subscriptionAllows s.subscription e = true ∧
        e ∈ ((Config.initial (World.initial db clock)).run as).state.published.drop
          o.pre.published.length := by
  obtain ⟨t, ht, o, ho, hcall, hposition, sas, hstream⟩ := socket_opened db clock as hs
  obtain ⟨i, hi⟩ := List.mem_iff_getElem?.mp ht
  obtain ⟨h₁, h₂, hh⟩ := List.append_of_mem ho
  have haccess : o.call.access = some s.subscription.tenantId := by rw [hcall]; rfl
  obtain ⟨headers, h, subject, role, hpresents, hacts⟩ := access_authorized _ as hi hh haccess
  refine ⟨t, ht, h₁, o, h₂, headers, h, subject, role, hh, hcall, hposition, hpresents, hacts,
    hacts.authenticated.sessionFound, fun e he => ?_⟩
  -- the frames are accepted events since the position of the subscription
  have hordered := (Stream.run_ordered o.pre.published s.subscription sas).sublist
  have hsince := Stream.run_since o.pre.published s.subscription sas
  rw [hstream] at hordered hsince
  have hmem := (hordered.trans (Stream.passed_initial _).sublist).subset he
  obtain ⟨hpublished, hallows⟩ := List.mem_filter.mp hmem
  refine ⟨hallows, ?_⟩
  rw [← hsince]
  exact hpublished

end Runs

/-! ### A revocation after the handshake -/

section Revoked

open Reference

/-- The subject is an active member of the tenant, in a session that is neither revoked nor past
its expiry. -/
def StillAuthorized (w : World) (subject : VerifiedSubject) (tenantId : Uuid) : Prop :=
  (∃ row ∈ w.db.memberships, row.tenantId = tenantId ∧
    row.sharedUserId = subject.sharedUserId ∧ row.active = true) ∧
  ∃ session ∈ w.sessions, session.sessionId = subject.sessionId ∧
    session.sharedUserId = subject.sharedUserId ∧ session.revoked = false ∧
    w.clock < session.expiresAt * 1000000000

/-- The user opens a socket; then the membership of the user is deactivated and the session
revoked; then a colleague creates a case, which is published; then the tenant is closed. -/
def revokedRun : List (Action (apiSystem Reference.sql Reference.state)) :=
  let colleague := inputOf "colleague"
  [.env (.sessions [⟨"session", "user", 2000000000, false⟩]),
    .start (.websocket ⟨Uuid.nil, none⟩ (headers "key")), .call 0 input, .call 0 input,
    .call 0 input, .call 0 input, .call 0 input,
    .env (.memberships [⟨Uuid.nil, "user", "administrator", false⟩,
      ⟨Uuid.nil, "colleague", "administrator", true⟩]),
    .env (.sessions [⟨"session", "user", 2000000000, true⟩]),
    .start (.createCase (headers "key") briefCommand), .call 1 colleague, .call 1 colleague,
    .call 1 colleague, .call 1 colleague, .call 1 colleague, .call 1 colleague, .call 1 colleague,
    .call 1 colleague, .call 1 colleague, .env (.memberships [])]

/-- The loop of the socket now starts to send the event. -/
theorem revokedRun_sends :
    (((Config.initial (World.initial office 1)).run revokedRun).state.sockets[0]?).map (fun s =>
      (s.phase, (s.step ((Config.initial (World.initial office 1)).run revokedRun).state.published
        .event).pending.length)) = some (.selecting, 1) := by
  decide +kernel

/-- Nobody is a member any more. -/
theorem revokedRun_memberships :
    ((Config.initial (World.initial office 1)).run revokedRun).state.db.memberships = [] := by
  decide +kernel

/-- **Revocation does not reach live sockets.** -/
theorem not_revocation_reaches_sockets : ¬ ∀ (db : Db) (clock : DateTime)
    (as : List (Action (apiSystem Reference.sql Reference.state))) (k : ℕ) (s : Socket)
    (i : SocketInput) (t : Task (apiSystem Reference.sql Reference.state))
    (h₁ : History Reference.sql) (o : Observed Reference.sql) (h₂ : History Reference.sql)
    (headers : HeaderMap) (h : History Reference.sql) (subject : VerifiedSubject)
    (role : TenantRole),
    ((Config.initial (World.initial db clock)).run as).state.sockets[k]? = some s →
      s.phase = .selecting →
      (s.step ((Config.initial (World.initial db clock)).run as).state.published i).pending ≠ [] →
      t ∈ ((Config.initial (World.initial db clock)).run as).tasks →
      t.history = h₁ ++ o :: h₂ → o.call = .onUpgrade s.subscription →
      o.pre.sockets.length = k → Presents t.request h₁ headers s.subscription.tenantId h →
      ActsFor Reference.state t.request headers h o.call s.subscription.tenantId subject role →
        StillAuthorized ((Config.initial (World.initial db clock)).run as).state subject
          s.subscription.tenantId := by
  intro hall
  obtain ⟨s, hs, hsends⟩ := Option.map_eq_some_iff.mp revokedRun_sends
  obtain ⟨hphase, hpending⟩ := Prod.mk.inj hsends
  obtain ⟨t, ht, h₁, o, h₂, headers, h, subject, role, hh, hcall, hposition, hpresents, hacts, -⟩ :=
    socket_authorized office 1 revokedRun hs
  have hne : (s.step ((Config.initial (World.initial office 1)).run revokedRun).state.published
      .event).pending ≠ [] := by
    intro hnil
    rw [hnil] at hpending
    cases hpending
  obtain ⟨⟨row, hrow, -⟩, -⟩ := hall office 1 revokedRun 0 s .event t h₁ o h₂ headers h subject
    role hs hphase hne ht hh hcall hposition hpresents hacts
  rw [revokedRun_memberships] at hrow
  cases hrow

/-- The authority behind the socket of that run. -/
theorem socket_authorized_revoked :
    ∃ s, ((Config.initial (World.initial office 1)).run revokedRun).state.sockets[0]? = some s ∧
      ∃ t ∈ ((Config.initial (World.initial office 1)).run revokedRun).tasks,
        ∃ o ∈ t.history, o.call = .onUpgrade s.subscription := by
  obtain ⟨s, hs, -⟩ := Option.map_eq_some_iff.mp revokedRun_sends
  obtain ⟨t, ht, h₁, o, h₂, headers, h, subject, role, hh, hcall, -⟩ :=
    socket_authorized office 1 revokedRun hs
  exact ⟨s, hs, t, ht, o, by rw [hh]; simp, hcall⟩

end Revoked

end ApmeApi
