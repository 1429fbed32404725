import ApmeApi.Transport.Listener
import ApmeApi.Transport.StatusProtocol
import ApmeApi.Service.Reference

/-!
# When a transport stops

The loops of `Server.serve` and `Worker.serve` return for two kinds of reasons: because the
process shuts down or their source of work ended, and because a call for one item failed.
`Tcp.Contained` and `Nats.Contained` say that only the first kind happens.

Both loops stop at the first observation of either kind (`serve_stopsAt`), so they are contained
exactly in the runs in which no call failed (`contained_iff`): one failed accept, one message that
cannot be received, and one termination, publication, publication acknowledgement or
acknowledgement that fails end the avenue for good.
-/

namespace ApmeApi.Tcp

open Interaction

section

variable {sql : SqlFunctions} [SharedAuth] [ApmeInterfaces] {state : AppState}
  {config : ListenerConfig}

@[simp]
theorem wp_awaitListener
    {G : List (Obs (listenerMachine sql state config)) → Obs (listenerMachine sql state config) →
      Prop} (c : ListenerCall) {Q : List (Obs (listenerMachine sql state config)) → c.Reply → Prop}
    (h : List (Obs (listenerMachine sql state config))) :
    @wp listenerSig (no_index c.Reply) (listenerMachine sql state config) G Q (awaitListener c) h ↔
      ∀ (i : Selected) (l : Listener sql), G h ⟨i, l, c⟩ ∧ Q (h ++ [⟨i, l, c⟩])
        (Obs.reply (M := listenerMachine sql state config) ⟨i, l, c⟩) :=
  Iff.rfl

/-- The listener is told to shut down, or the channel for it was closed. -/
def EndsServer (o : Obs (listenerMachine sql state config)) : Prop :=
  o.call = .select ∧ (o.input = .shutdown ∨ o.input = .shutdownClosed)

/-- Accepting one connection fails. -/
def FailsServer (o : Obs (listenerMachine sql state config)) : Prop :=
  o.call = .select ∧ o.input = .acceptFailed

/-- **The loop of the listener stops** at a shutdown and at a failed accept. -/
theorem serve_stopsAt (rounds : ℕ) :
    StopsAt (fun o : Obs (listenerMachine sql state config) => EndsServer o ∨ FailsServer o)
      (serve rounds) := by
  refine StopsAt.loop (fun h hfree => ?_) rounds
  simp only [serveRound, wp_run_bind, wp_run_lift, wp_awaitListener]
  refine fun i l => ⟨hfree, ?_⟩
  cases i with
  | shutdown => exact left_iff (.inl ⟨rfl, .inl rfl⟩) (by simp)
  | shutdownClosed => exact left_iff (.inl ⟨rfl, .inr rfl⟩) (by simp)
  | acceptFailed => exact left_iff (.inr ⟨rfl, rfl⟩) (by simp)
  | accepted =>
    have hnext :=
      hfree.concat (o := (⟨.accepted, l, .select⟩ : Obs (listenerMachine sql state config)))
      (by simp [EndsServer, FailsServer])
    simp only [Obs.reply, listenerExec, wp_run_bind, wp_run_lift, wp_awaitListener]
    refine fun i' l' => ⟨hnext, ?_⟩
    have hboth := hnext.concat (o := (⟨i', l', .trySpawn⟩ : Obs (listenerMachine sql state config)))
      (by simp [EndsServer, FailsServer])
    split <;> exact running_iff hboth

end

end ApmeApi.Tcp

namespace ApmeApi.Nats

open Interaction

/-- The worker is told to shut down, the channel for it was closed, or its consumer ended. -/
def EndsWorker (o : Obs brokerMachine) : Prop :=
  o.call = .next ∧ (o.input.next o.pre = .shutdown ∨ o.input.next o.pre = .shutdownClosed ∨
    o.input.next o.pre = .ended)

/-- A call fails: the consumer does not start, a message cannot be received, or a termination, a
publication, its acknowledgement or the acknowledgement of a request fails. -/
def FailsWorker (o : Obs brokerMachine) : Prop :=
  match o with
  | ⟨i, b, .messages⟩ => (exec i .messages b).1.isOk = false
  | ⟨i, b, .next⟩ => i.next b = .failed
  | ⟨i, b, .ackTerm m⟩ => (exec i (.ackTerm m) b).1.isOk = false
  | ⟨i, b, .sendPublish p⟩ => (exec i (.sendPublish p) b).1.isOk = false
  | ⟨i, b, .publishAck ticket⟩ => (exec i (.publishAck ticket) b).1.isOk = false
  | ⟨i, b, .ack m⟩ => (exec i (.ack m) b).1.isOk = false

/-- What makes the loop of a worker return. -/
def StopsWorker (o : Obs brokerMachine) : Prop := EndsWorker o ∨ FailsWorker o

/-- A response is far below the bound that `handle` checks. -/
theorem length_responsePayload (id : Uuid) : (responsePayload id).length ≤ maxResponseBytes := by
  have hid := id.length_quote_toString
  have hnames : (Json.quote "schema").length = 8 ∧ (Json.quote "operation_id").length = 14 ∧
      (Json.quote "status").length = 8 ∧ (Json.quote "service").length = 9 ∧
      (Json.quote "database_ready").length = 16 ∧ (Json.quote responseSchema).length = 31 ∧
      (Json.quote "ok").length = 4 ∧ (Json.quote "apme-api").length = 10 ∧
      (Json.ascii "true").length = 4 := by decide
  simp only [responsePayload, StatusResponse.encode, Json.render, Json.renderMembers,
    List.length_cons, List.length_append, List.length_nil, hid, hnames, maxResponseBytes]
  omega

/-- **What `handle` ends with**: no call failed, or its last call did. -/
theorem handle_stops {m : Message} {h : History} (hfree : Free StopsWorker h) :
    wp (fun h' _ => Free StopsWorker h')
      (fun h' r => match r with
        | .ok _ => Free StopsWorker h'
        | .error _ => ∃ h₁ o, h' = h₁ ++ [o] ∧ StopsWorker o) (handle m).run h := by
  have hgo : ∀ {h : History} {o : Obs brokerMachine}, Free StopsWorker h → o.call ≠ .next →
      ¬ FailsWorker o → Free StopsWorker (h ++ [o]) := fun hh hnext hfails =>
    hh.concat fun hstops => hstops.elim (fun he => hnext he.1) hfails
  rw [handle]
  cases decodeSignal m.payload with
  | none =>
    simp only [wp_run_bind, wp_run_lift, wp_await]
    refine fun i b => ⟨hfree, ?_⟩
    cases hr : Obs.reply (M := brokerMachine) ⟨i, b, .ackTerm m⟩ with
    | error e => exact ⟨h, _, rfl, .inr (congrArg Except.isOk hr)⟩
    | ok u => exact hgo hfree (by simp) (fun hf => by cases hf.symm.trans (congrArg Except.isOk hr))
  | some id =>
    -- the response is never above its bound, so `handle` gets to publish it
    simp only [if_neg (Nat.not_lt.mpr (length_responsePayload id)), wp_run_bind, wp_run_lift,
      wp_await]
    refine fun i b => ⟨hfree, ?_⟩
    cases hr : Obs.reply (M := brokerMachine) ⟨i, b, .sendPublish (response id)⟩ with
    | error e => exact ⟨h, _, rfl, .inr (congrArg Except.isOk hr)⟩
    | ok ticket =>
      have hsent := hgo (o := (⟨i, b, .sendPublish (response id)⟩ : Obs brokerMachine)) hfree
        (by simp) (fun hf => by cases hf.symm.trans (congrArg Except.isOk hr))
      simp only [wp_run_bind, wp_run_lift, wp_await]
      refine fun i' b' => ⟨hsent, ?_⟩
      cases hr' : Obs.reply (M := brokerMachine) ⟨i', b', .publishAck ticket⟩ with
      | error e => exact ⟨_, _, rfl, .inr (congrArg Except.isOk hr')⟩
      | ok u =>
        have hacked := hgo (o := (⟨i', b', .publishAck ticket⟩ : Obs brokerMachine)) hsent
          (by simp) (fun hf => by cases hf.symm.trans (congrArg Except.isOk hr'))
        simp only [wp_run_bind, wp_run_lift, wp_await]
        refine fun i'' b'' => ⟨hacked, ?_⟩
        cases hr'' : Obs.reply (M := brokerMachine) ⟨i'', b'', .ack m⟩ with
        | error e => exact ⟨_, _, rfl, .inr (congrArg Except.isOk hr'')⟩
        | ok u' =>
          exact hgo hacked (by simp)
            (fun hf => by cases hf.symm.trans (congrArg Except.isOk hr''))

/-- A round of the loop stops it where a call ends the worker or fails. -/
theorem serveRound_stopsAt : StopsAt StopsWorker serveRound := by
  intro h hfree
  simp only [serveRound, wp_run_bind, wp_run_lift, wp_await]
  refine fun i b => ⟨hfree, ?_⟩
  cases hnext : Obs.reply (M := brokerMachine) ⟨i, b, .next⟩ with
  | shutdown => exact left_iff (.inl ⟨rfl, .inl hnext⟩) (by simp)
  | shutdownClosed => exact left_iff (.inl ⟨rfl, .inr (.inl hnext)⟩) (by simp)
  | ended => exact left_iff (.inl ⟨rfl, .inr (.inr hnext)⟩) (by simp)
  | failed => exact left_iff (.inr hnext) (by simp)
  | message m =>
    have hreply : i.next b = .message m := hnext
    have hgo : Free StopsWorker (h ++ [(⟨i, b, .next⟩ : Obs brokerMachine)]) := by
      refine hfree.concat ?_
      rintro (⟨-, hends⟩ | hfails)
      · simp [hreply] at hends
      · rw [FailsWorker, hreply] at hfails
        cases hfails
    simp only [wp_run_bind]
    refine wp_post (handle_stops hgo) fun h' r hr => ?_
    cases r with
    | ok u => exact running_iff hr
    | error e =>
      obtain ⟨h₁, o, rfl, ho⟩ := hr
      exact left_iff ho (by simp)

/-- **A worker stops** at a call that ends it and at a call that fails. -/
theorem serve_stopsAt (rounds : ℕ) : StopsAt StopsWorker (serve rounds) := by
  intro h hfree
  simp only [serve, wp_run_bind, wp_run_lift, wp_await]
  refine fun i b => ⟨hfree, ?_⟩
  cases hstart : Obs.reply (M := brokerMachine) ⟨i, b, .messages⟩ with
  | error e => exact left_iff (.inr (congrArg Except.isOk hstart)) (by simp)
  | ok u =>
    refine serveRound_stopsAt.loop rounds _ (hfree.concat ?_)
    rintro (⟨hends, -⟩ | hfails)
    · cases hends
    · cases hfails.symm.trans (congrArg Except.isOk hstart)

/-- A call that fails changes no request. -/
theorem requests_of_fails {o : Obs brokerMachine} (ho : FailsWorker o) :
    o.post.requests = o.pre.requests := by
  have hsettle : ∀ (i : Choice) (m : Message) (d : Disposition) (b : Broker),
      (i.settle m d b).1.isOk = false → (i.settle m d b).2 = b := by
    intro i m d b hf
    cases i <;> first | rfl | cases hf
  obtain ⟨i, b, c⟩ := o
  cases c with
  | messages => rfl
  | next => rfl
  | publishAck ticket => rfl
  | sendPublish p =>
    simp only [Obs.post, exec]
    split <;> rfl
  | ackTerm m => exact congrArg Broker.requests (hsettle i m .terminated b ho)
  | ack m => exact congrArg Broker.requests (hsettle i m .acked b ho)

theorem not_ends_of_fails {o : Obs brokerMachine} (ho : FailsWorker o) : ¬ EndsWorker o := by
  obtain ⟨i, b, c⟩ := o
  rintro ⟨hcall, hends⟩
  cases hcall
  have hfailed : i.next b = .failed := ho
  simp [hfailed] at hends

end ApmeApi.Nats

namespace ApmeApi

open Interaction

/-- **The listener is contained**: its loop has returned only when it was told to. -/
def Tcp.Contained {sql : SqlFunctions} [SharedAuth] [ApmeInterfaces] {state : AppState}
    {config : Tcp.ListenerConfig} (t : Task (Tcp.listenerSystem sql state config)) : Prop :=
  Returned t.prog → ∃ o ∈ t.history, Tcp.EndsServer o

/-- **A worker is contained**: its loop has returned only when it was told to or its consumer
ended, and a call that failed left every request as it was, to be delivered again. -/
structure Nats.Contained {w : Nats.Worker} (t : Task (Nats.statusSystem w)) : Prop where
  returned : Returned t.prog → ∃ o ∈ t.history, Nats.EndsWorker o
  pending : ∀ o ∈ t.history, Nats.FailsWorker o → o.post.requests = o.pre.requests

section

variable [SharedAuth] [ApmeInterfaces]

/-- **Containment, exactly.** In every run of the listener with its connections, the loop is
contained if and only if no accept failed; in every run of workers and broker, a worker is
contained if and only if none of its calls failed. -/
theorem contained_iff (sql : SqlFunctions) (state : AppState) :
    (∀ (config : Tcp.ListenerConfig) (l : Tcp.Listener sql)
      (as : List (Action (Tcp.listenerSystem sql state config))),
      ∀ t ∈ ((Config.initial l).run as).tasks,
        Tcp.Contained t ↔ ∀ o ∈ t.history, ¬ Tcp.FailsServer o) ∧
    (∀ (w : Nats.Worker) (b : Nats.Broker) (as : List (Action (Nats.statusSystem w))),
      ∀ t ∈ ((Config.initial b).run as).tasks,
        Nats.Contained t ↔ ∀ o ∈ t.history, ¬ Nats.FailsWorker o) := by
  constructor
  · intro config l as t ht
    obtain ⟨i, hi⟩ := List.mem_iff_getElem?.mp ht
    have hf := Config.run_follows (Y := Tcp.listenerSystem sql state config) l as hi
    have hstops : StopsAt (fun o : Obs (Tcp.listenerMachine sql state config) =>
        Tcp.EndsServer o ∨ Tcp.FailsServer o) (Tcp.serve t.request) := Tcp.serve_stopsAt t.request
    have hreturned := hstops.returned_iff ⟨.accepted⟩ ⟨l⟩ hf
    constructor
    · intro hc o ho hfails
      obtain ⟨o', ho', hends⟩ := hc (hreturned.mpr ⟨o, ho, .inr hfails⟩)
      -- the loop stops at one call only, and a failed accept does not end the server
      obtain rfl := hstops.unique hf ho ho' (.inr hfails) (.inl hends)
      have hinput := hfails.2
      obtain ⟨-, h | h⟩ := hends <;> cases h.symm.trans hinput
    · intro hnone hr
      obtain ⟨o, ho, hends | hfails⟩ := hreturned.mp hr
      · exact ⟨o, ho, hends⟩
      · exact absurd hfails (hnone o ho)
  · intro w b as t ht
    obtain ⟨i, hi⟩ := List.mem_iff_getElem?.mp ht
    have hf := Config.run_follows (Y := Nats.statusSystem w) b as hi
    have hstops := Nats.serve_stopsAt t.request
    have hreturned := hstops.returned_iff ⟨.success⟩ ⟨b⟩ hf
    constructor
    · intro hc o ho hfails
      obtain ⟨o', ho', hends⟩ := hc.returned (hreturned.mpr ⟨o, ho, .inr hfails⟩)
      obtain rfl := hstops.unique hf ho ho' (.inr hfails) (.inl hends)
      exact Nats.not_ends_of_fails hfails hends
    · refine fun hnone => ⟨fun hr => ?_, fun o _ hfails => Nats.requests_of_fails hfails⟩
      obtain ⟨o, ho, hends | hfails⟩ := hreturned.mp hr
      · exact ⟨o, ho, hends⟩
      · exact absurd hfails (hnone o ho)

end

/-! ### One failure -/

theorem Nats.input_of_ends {o : Obs Nats.brokerMachine} (h : Nats.EndsWorker o) :
    o.input = .shutdown ∨ o.input = .shutdownClosed ∨ o.input = .ended := by
  obtain ⟨i, b, c⟩ := o
  obtain ⟨-, h⟩ := h
  cases i with
  | shutdown => exact .inl rfl
  | shutdownClosed => exact .inr (.inl rfl)
  | ended => exact .inr (.inr rfl)
  | deliver k =>
    simp only [Nats.Choice.next] at h
    cases hr : b.requests[k]? <;> simp [hr] at h
  | _ => simp [Nats.Choice.next] at h

section

open Reference

/-- The streams and the consumer of the avenue, as they have to be. -/
def sampleWorker : Nats.Worker where
  requestStream := ⟨.file, .workQueue, false, ["apme.web_api.outbox.status"], 120⟩
  responseStream := ⟨.file, .limits, true, ["apme.web_api.inbox.status.*"], 120⟩
  consumer := ⟨none, some "apme-api-status", .explicit, "apme.web_api.outbox.status", 5, 256⟩
  name := "apme-api-status"
  request_valid := by decide
  response_valid := by decide
  consumer_valid := by decide

/-- The payload of a valid request. -/
def statusSignal : List UInt8 :=
  Text.utf8 ("\x7b\"schema\":\"apme.async-status-request.v1\"," ++
    "\"operation_id\":\"018f5cc6-6d8b-7b2a-9f38-269e6a7b1f11\"\x7d").toList

/-- A request is delivered, and publishing its response fails once. -/
def failedPublishRun : List (Action (Nats.statusSystem sampleWorker)) :=
  [.env (.request statusSignal), .start 2, .call 0 .success, .call 0 (.deliver 0),
    .call 0 (.failed ⟨"timed out"⟩)]

/-- The worker has returned. -/
theorem failedPublishRun_result :
    (((Config.initial Nats.Broker.initial).run failedPublishRun).tasks[0]?.map fun t =>
      (t.result, t.history.map fun o => o.input)) =
      some (some (.error "publish durable status response"),
        [.success, .deliver 0, .failed ⟨"timed out"⟩]) := by
  decide +kernel

/-- The listening socket fails once. -/
def failedAcceptRun :
    List (Action (Tcp.listenerSystem Reference.sql Reference.state ⟨⟨64⟩, 128, 15⟩)) :=
  [.start 2, .call 0 .acceptFailed]

/-- The listener has returned. -/
theorem failedAcceptRun_result :
    (((Config.initial (Tcp.Listener.initial Reference.sql ⟨⟨64⟩, 128, 15⟩
      (World.initial Db.empty 0))).run failedAcceptRun).tasks[0]?.map fun t =>
        (t.result, t.history.map fun o => o.input)) =
      some (some (.error "accept Apostille Me mTLS connection"), [.acceptFailed]) := by
  decide +kernel

/-- **One failure ends an avenue**: after one failed accept the listener, after one failed
publication the worker has returned, although nobody told it to. -/
theorem not_contained :
    (¬ ∀ (config : Tcp.ListenerConfig) (l : Tcp.Listener Reference.sql)
      (as : List (Action (Tcp.listenerSystem Reference.sql Reference.state config))),
      ∀ t ∈ ((Config.initial l).run as).tasks, Tcp.Contained t) ∧
    ¬ ∀ (w : Nats.Worker) (b : Nats.Broker) (as : List (Action (Nats.statusSystem w))),
      ∀ t ∈ ((Config.initial b).run as).tasks, Nats.Contained t := by
  constructor
  · intro h
    obtain ⟨t, ht, he⟩ := Option.map_eq_some_iff.mp failedAcceptRun_result
    obtain ⟨hresult, hinputs⟩ := Prod.mk.inj he
    obtain ⟨o, ho, -, hends⟩ := h _ _ failedAcceptRun t (List.mem_of_getElem? ht)
      ⟨_, by simp, Task.result_eq_some.mp hresult⟩
    have hinput : o.input ∈ [Tcp.Selected.acceptFailed] := by
      rw [← hinputs]
      exact List.mem_map_of_mem ho
    rw [List.mem_singleton] at hinput
    rcases hends with h | h <;> cases h.symm.trans hinput
  · intro h
    obtain ⟨t, ht, he⟩ := Option.map_eq_some_iff.mp failedPublishRun_result
    obtain ⟨hresult, hinputs⟩ := Prod.mk.inj he
    obtain ⟨o, ho, hends⟩ :=
      (h sampleWorker _ failedPublishRun t (List.mem_of_getElem? ht)).returned
      ⟨_, by simp, Task.result_eq_some.mp hresult⟩
    have hinput : o.input ∈ [Nats.Choice.success, .deliver 0, .failed ⟨"timed out"⟩] := by
      rw [← hinputs]
      exact List.mem_map_of_mem ho
    rcases Nats.input_of_ends hends with h | h | h <;> rw [h] at hinput <;> simp at hinput

end

end ApmeApi
