import ApmeApi.Transport.Nats

/-!
# What holds of the status protocol

`StatusProtocol` states the contract of the durable status avenue over every run of any number
of workers and the broker: a request is acknowledged only when its response is stored, it is
terminated only when it is no valid signal, and the stored responses of one operation are the
same bytes, a duplicate window apart, on the one subject of that operation.

The workers' part of it is `Guarded`, a guarantee of each call given the calls before it
(`serve_guarded`). The broker's part is `Broker.Sound`, an invariant of its states: what is
stored was sent, what has arrived is stored, and publications with one message id lie a window
apart. The contract follows because the message id and the bytes of a response are functions
of the operation.
-/

namespace ApmeApi.Nats

open Interaction MessageStream

/-- The calls of a worker so far. -/
abbrev History := List (Obs brokerMachine)

/-- A call was made and got this reply. -/
def Got (h : History) (c : BrokerCall) (r : c.Reply) : Prop :=
  ∃ i b, (⟨i, b, c⟩ : Obs brokerMachine) ∈ h ∧ (exec i c b).1 = r

theorem Got.mono {h h' : History} (hs : h ⊆ h') {c : BrokerCall} {r : c.Reply} (hg : Got h c r) :
    Got h' c r := by
  obtain ⟨i, b, hm, hr⟩ := hg
  exact ⟨i, b, hs hm, hr⟩

/-! ### Deliveries -/

/-- The message that a call got delivered. -/
def delivered (o : Obs brokerMachine) : Option Message :=
  match o.call with
  | .next => match o.input.next o.pre with
    | .message m => some m
    | _ => none
  | _ => none

/-- The message that a worker handles: the last that was delivered to it. -/
def handled : History → Option Message
  | [] => none
  | o :: h => (handled h).or (delivered o)

theorem handled_append (h h' : History) : handled (h ++ h') = (handled h').or (handled h) := by
  induction h with
  | nil => simp [handled]
  | cons o h ih => rw [List.cons_append, handled, handled, ih, Option.or_assoc]

theorem exists_of_handled {h : History} {m : Message} (hm : handled h = some m) :
    ∃ o ∈ h, delivered o = some m := by
  induction h with
  | nil => cases hm
  | cons o h ih =>
    rw [handled, Option.or_eq_some_iff] at hm
    rcases hm with hm | ⟨-, hm⟩
    · obtain ⟨o', ho', hd⟩ := ih hm
      exact ⟨o', List.mem_cons_of_mem _ ho', hd⟩
    · exact ⟨o, List.mem_cons_self, hm⟩

/-! ### The guarantee of a worker -/

/-- **When a worker terminates, publishes and acknowledges**, given the calls before: it
terminates the message it handles when that is no valid signal; it publishes the response to the
valid signal it handles; it acknowledges that signal after the acknowledgement of the
publication. -/
structure Guarded (h : History) (o : Obs brokerMachine) : Prop where
  term : ∀ m, o.call = .ackTerm m → handled h = some m ∧ decodeSignal m.payload = none
  publish : ∀ p, o.call = .sendPublish p →
    ∃ m id, handled h = some m ∧ decodeSignal m.payload = some id ∧ p = response id
  ack : ∀ m, o.call = .ack m → ∃ id ticket, decodeSignal m.payload = some id ∧
    Got h (.sendPublish (response id)) (.ok ticket) ∧ Got h (.publishAck ticket) (.ok ())

/-- Calls that only wait are made under the guarantee. -/
theorem guarded_of_waits {h : History} {o : Obs brokerMachine}
    (hterm : ∀ m, o.call ≠ .ackTerm m) (hpublish : ∀ p, o.call ≠ .sendPublish p)
    (hack : ∀ m, o.call ≠ .ack m) : Guarded h o :=
  ⟨fun m hm => absurd hm (hterm m), fun p hp => absurd hp (hpublish p),
    fun m hm => absurd hm (hack m)⟩

/-- `handle` keeps the guarantee for the message it was given. -/
theorem handle_guarded {m : Message} {h : History} (hm : handled h = some m) :
    wp Guarded (fun _ _ => True) (handle m).run h := by
  rw [handle]
  cases hdecode : decodeSignal m.payload with
  | none =>
    -- no valid signal: terminated, nothing published
    simp only [wp_run_bind, wp_run_lift, wp_await]
    refine fun i b =>
      ⟨⟨fun m' hm' => ?_, fun p hp => (by cases hp), fun m' hm' => (by cases hm')⟩, ?_⟩
    · obtain rfl := BrokerCall.ackTerm.inj hm'
      exact ⟨hm, hdecode⟩
    · split <;> trivial
  | some id =>
    simp only
    split
    · trivial
    simp only [wp_run_bind, wp_run_lift, wp_await]
    refine fun i b =>
      ⟨⟨fun m' hm' => (by cases hm'), fun p hp => ?_, fun m' hm' => (by cases hm')⟩, ?_⟩
    · obtain rfl := BrokerCall.sendPublish.inj hp
      exact ⟨m, id, hm, hdecode, rfl⟩
    cases hsent : Obs.reply (M := brokerMachine) ⟨i, b, .sendPublish (response id)⟩ with
    | error e => trivial
    | ok ticket =>
      simp only [wp_run_bind, wp_run_lift, wp_await]
      refine fun i' b' => ⟨guarded_of_waits (by simp) (by simp) (by simp), ?_⟩
      cases hacked : Obs.reply (M := brokerMachine) ⟨i', b', .publishAck ticket⟩ with
      | error e => trivial
      | ok u =>
        simp only [wp_run_bind, wp_run_lift, wp_await]
        refine fun i'' b'' => ⟨⟨fun m' hm' => (by cases hm'), fun p hp => (by cases hp),
          fun m' hm' => ?_⟩, ?_⟩
        · obtain rfl := BrokerCall.ack.inj hm'
          exact ⟨id, ticket, hdecode, ⟨i, b, by simp, hsent⟩, ⟨i', b', by simp, hacked⟩⟩
        · split <;> trivial

/-- A round of the loop keeps the guarantee. -/
theorem serveRound_guarded (h : History) :
    wp Guarded (fun _ _ => True) serveRound.run h := by
  simp only [serveRound, wp_run_bind, wp_run_lift, wp_await]
  refine fun i b => ⟨guarded_of_waits (by simp) (by simp) (by simp), ?_⟩
  cases hnext : Obs.reply (M := brokerMachine) ⟨i, b, .next⟩ with
  | message m =>
    have hdelivered : delivered ⟨i, b, .next⟩ = some m := by
      have hreply : i.next b = .message m := hnext
      simp only [delivered, hreply]
    have hm : handled (h ++ [⟨i, b, .next⟩]) = some m := by
      simp [handled_append, handled, hdelivered]
    simp only [wp_run_bind]
    refine wp_post (handle_guarded hm) fun h' r _ => ?_
    split <;> trivial
  | _ => trivial

/-- **A worker keeps the guarantee**, however long it serves. -/
theorem serve_guarded (rounds : ℕ) : wp Guarded (fun _ _ => True) (serve rounds).run [] := by
  simp only [serve, wp_run_bind, wp_run_lift, wp_await]
  refine fun i b => ⟨guarded_of_waits (by simp) (by simp) (by simp), ?_⟩
  cases Obs.reply (M := brokerMachine) ⟨i, b, .messages⟩ with
  | error e => trivial
  | ok u =>
    refine wp_loop (I := fun _ => True) (fun h _ => wp_post (serveRound_guarded h) fun h' r _ => ?_)
      (fun h _ => trivial) rounds trivial
    split <;> trivial

/-! ### The invariant of the broker -/

/-- The publications that were sent, in order. -/
def Broker.publications (b : Broker) : List PublishMessage := b.sent.map Sent.publication

/-- **Broker soundness**: what is stored was sent, what has arrived is stored, and stored messages
with one id lie a duplicate window apart. -/
structure Broker.Sound (window : ℕ) (b : Broker) : Prop where
  stored : ∀ e ∈ b.responses, e.id = e.body.messageId ∧ e.body ∈ b.publications
  arrived : ∀ (k : ℕ) p, b.sent[k]? = some ⟨p, true⟩ → ∃ e ∈ b.responses, e.id = p.messageId
  spaced : Spaced window b.responses

/-- **What is never undone**: sent publications keep their tickets, arrived ones stay arrived, and
requests keep their payloads. -/
structure Broker.Grows (b b' : Broker) : Prop where
  sent : ∀ (k : ℕ) p a, b.sent[k]? = some ⟨p, a⟩ →
    ∃ a', b'.sent[k]? = some ⟨p, a'⟩ ∧ (a = true → a' = true)
  requests : ∀ (k : ℕ) x, b.requests[k]?.map Request.payload = some x →
    b'.requests[k]?.map Request.payload = some x

theorem Broker.Grows.refl (b : Broker) : b.Grows b :=
  ⟨fun _ _ a h => ⟨a, h, fun ha => ha⟩, fun _ _ h => h⟩

theorem Broker.Grows.trans {b b' b'' : Broker} (h : b.Grows b') (h' : b'.Grows b'') :
    b.Grows b'' := by
  refine ⟨fun k p a hk => ?_, fun k x hk => h'.requests k x (h.requests k x hk)⟩
  obtain ⟨a', hk', ha'⟩ := h.sent k p a hk
  obtain ⟨a'', hk'', ha''⟩ := h'.sent k p a' hk'
  exact ⟨a'', hk'', fun ha => ha'' (ha' ha)⟩

theorem Broker.Grows.publications {b b' : Broker} (h : b.Grows b') :
    b.publications ⊆ b'.publications := by
  intro p hp
  obtain ⟨⟨p', a⟩, hs, rfl⟩ := List.mem_map.mp hp
  obtain ⟨k, hk⟩ := List.mem_iff_getElem?.mp hs
  obtain ⟨a', hk', -⟩ := h.sent k p' a hk
  exact List.mem_map.mpr ⟨_, List.mem_of_getElem? hk', rfl⟩

/-- The publications of a call. -/
def publishes (o : Obs brokerMachine) : List PublishMessage :=
  match o.call with
  | .sendPublish p => if o.input = .success then [p] else []
  | _ => []

/-- An acknowledgement settles its request, or it is lost. -/
theorem settle_cases (i : Choice) (m : Message) (d : Disposition) (b : Broker) :
    (i.settle m d b).2 = b ∨ (i.settle m d b).2 = b.settle m d := by
  cases i <;> simp [Choice.settle]

/-- **What a call changes**: it sends its publication or none, and it may settle a request. -/
theorem exec_cases (i : Choice) (c : BrokerCall) (b : Broker) :
    (exec i c b).2.responses = b.responses ∧
    (exec i c b).2.sent = b.sent ++ (publishes ⟨i, b, c⟩).map (⟨·, false⟩) ∧
    ((exec i c b).2.requests = b.requests ∨
      ∃ m d, (exec i c b).2.requests = (b.settle m d).requests) := by
  cases c with
  | messages => simp [exec, publishes]
  | next => simp [exec, publishes]
  | publishAck ticket => simp [exec, publishes]
  | sendPublish p =>
    simp only [exec, publishes]
    split <;> simp
  | ackTerm m =>
    rcases settle_cases i m .terminated b with h | h
    · simp [exec, publishes, h]
    · simp only [exec, publishes, h, List.map_nil, List.append_nil]
      exact ⟨rfl, rfl, .inr ⟨m, .terminated, rfl⟩⟩
  | ack m =>
    rcases settle_cases i m .acked b with h | h
    · simp [exec, publishes, h]
    · simp only [exec, publishes, h, List.map_nil, List.append_nil]
      exact ⟨rfl, rfl, .inr ⟨m, .acked, rfl⟩⟩

theorem settle_payload (b : Broker) (m : Message) (d : Disposition) (k : ℕ) :
    (b.settle m d).requests[k]?.map Request.payload = b.requests[k]?.map Request.payload := by
  rw [Broker.settle, List.getElem?_modify]
  cases b.requests[k]? with
  | none => rfl
  | some r =>
    split
    · change some (Request.payload (if r.disposition = .pending then _ else r)) = some r.payload
      split <;> rfl
    · rfl

theorem exec_grows (i : Choice) (c : BrokerCall) (b : Broker) : b.Grows (exec i c b).2 := by
  obtain ⟨-, hsent, hrequests⟩ := exec_cases i c b
  refine ⟨fun k p a hk => ⟨a, ?_, fun ha => ha⟩, fun k x hk => ?_⟩
  · rw [hsent, List.getElem?_append_left (List.getElem?_eq_some_iff.mp hk).1, hk]
  · rcases hrequests with h | ⟨m, d, h⟩
    · rwa [h]
    · rwa [h, settle_payload]

/-- What an arrival does: nothing, or it marks a publication and publishes it to the stream. -/
theorem arrive_cases (stream : StreamConfig) (b : Broker) (ticket : ℕ) :
    b.arrive stream ticket = b ∨ ∃ p, b.sent[ticket]? = some ⟨p, false⟩ ∧
      b.arrive stream ticket = { b with
        sent := b.sent.set ticket ⟨p, true⟩
        responses := MessageStream.publish stream.duplicateWindow b.clock p.messageId p
          b.responses } := by
  rw [Broker.arrive]
  split
  · rename_i p hp
    split
    · exact .inr ⟨p, hp, rfl⟩
    · exact .inl rfl
  · exact .inl rfl

theorem env_grows (stream : StreamConfig) (e : BrokerAction) (b : Broker) :
    b.Grows (brokerEnv stream e b) := by
  cases e with
  | elapse time => exact ⟨fun _ _ a hk => ⟨a, hk, fun ha => ha⟩, fun _ _ hk => hk⟩
  | request payload =>
    refine ⟨fun k p a hk => ⟨a, hk, fun ha => ha⟩, fun k x hk => ?_⟩
    obtain ⟨r, hr, -⟩ := Option.map_eq_some_iff.mp hk
    simp only [brokerEnv]
    rwa [List.getElem?_append_left (List.getElem?_eq_some_iff.mp hr).1]
  | arrive ticket =>
    rw [brokerEnv]
    rcases arrive_cases stream b ticket with h | ⟨p, hp, h⟩ <;> rw [h]
    · exact Broker.Grows.refl b
    · refine ⟨fun k p' a hk => ?_, fun _ _ hk => hk⟩
      rcases eq_or_ne ticket k with rfl | hne
      · obtain ⟨rfl, rfl⟩ := Sent.mk.inj (Option.some.inj (hp.symm.trans hk))
        exact ⟨true, List.getElem?_set_self (List.getElem?_eq_some_iff.mp hp).1, fun _ => rfl⟩
      · exact ⟨a, (List.getElem?_set_ne hne).trans hk, fun ha => ha⟩

theorem exec_sound {window : ℕ} {b : Broker} (hb : b.Sound window) (i : Choice)
    (c : BrokerCall) : (exec i c b).2.Sound window := by
  obtain ⟨hresponses, hsent, -⟩ := exec_cases i c b
  have hsubset := (exec_grows i c b).publications
  refine ⟨fun e he => ?_, fun k p hk => ?_, ?_⟩
  · rw [hresponses] at he
    exact ⟨(hb.stored e he).1, hsubset (hb.stored e he).2⟩
  · rw [hresponses]
    rw [hsent] at hk
    -- what the call sent has not arrived
    rcases Nat.lt_or_ge k b.sent.length with hlt | hge
    · rw [List.getElem?_append_left hlt] at hk
      exact hb.arrived k p hk
    · rw [List.getElem?_append_right hge] at hk
      have hnew := List.mem_of_getElem? hk
      simp at hnew
  · rw [hresponses]
    exact hb.spaced

theorem env_sound {stream : StreamConfig} {b : Broker} (hb : b.Sound stream.duplicateWindow)
    (e : BrokerAction) : (brokerEnv stream e b).Sound stream.duplicateWindow := by
  cases e with
  | elapse time => exact ⟨hb.stored, hb.arrived, hb.spaced⟩
  | request payload => exact ⟨hb.stored, hb.arrived, hb.spaced⟩
  | arrive ticket =>
    have hsubset := (env_grows stream (.arrive ticket) b).publications
    rw [brokerEnv] at hsubset ⊢
    rcases arrive_cases stream b ticket with h | ⟨p, hp, h⟩ <;> rw [h] at hsubset ⊢
    · exact hb
    refine ⟨fun e he => ?_, fun k p' hk => ?_, publish_spaced hb.spaced⟩
    · rcases mem_publish he with he | rfl
      · exact ⟨(hb.stored e he).1, hsubset (hb.stored e he).2⟩
      · exact ⟨rfl, hsubset (List.mem_map.mpr ⟨_, List.mem_of_getElem? hp, rfl⟩)⟩
    · rcases eq_or_ne ticket k with rfl | hne
      · rw [List.getElem?_set_self (List.getElem?_eq_some_iff.mp hp).1] at hk
        obtain ⟨rfl, -⟩ := Sent.mk.inj (Option.some.inj hk)
        exact exists_mem_publish
      · rw [List.getElem?_set_ne hne] at hk
        obtain ⟨e, he, hid⟩ := hb.arrived k p' hk
        exact ⟨e, subset_publish he, hid⟩

theorem initial_sound (window : ℕ) : Broker.initial.Sound window :=
  ⟨by simp [Broker.initial], by simp [Broker.initial], List.Pairwise.nil⟩

/-! ### What replies tell -/

/-- A delivered message is one of the request stream. -/
theorem requests_of_delivered {o : Obs brokerMachine} {m : Message} (h : delivered o = some m) :
    o.pre.requests[m.sequence]?.map Request.payload = some m.payload := by
  obtain ⟨i, b, c⟩ := o
  cases c with
  | next =>
    cases i with
    | deliver k =>
      simp only [delivered, Choice.next] at h
      cases hr : b.requests[k]? with
      | none => simp [hr] at h
      | some r =>
        simp only [hr, Option.elim_some] at h
        obtain rfl := Option.some.inj h
        simp [hr]
    | _ => cases h
  | _ => cases h

/-- A publication that was sent is found under its ticket. -/
theorem sent_of_ticket {i : Choice} {b : Broker} {p : PublishMessage} {ticket : ℕ}
    (h : (exec i (.sendPublish p) b).1 = .ok ticket) :
    (exec i (.sendPublish p) b).2.sent[ticket]? = some ⟨p, false⟩ := by
  simp only [exec] at h ⊢
  split at h
  · rename_i hi
    obtain rfl := Except.ok.inj h
    simp [hi]
  · cases h

/-- An acknowledged publication has arrived. -/
theorem arrived_of_ack {i : Choice} {b : Broker} {ticket : ℕ}
    (h : (exec i (.publishAck ticket) b).1 = .ok ()) :
    ∃ p, (exec i (.publishAck ticket) b).2.sent[ticket]? = some ⟨p, true⟩ := by
  simp only [exec] at h ⊢
  split at h
  · rename_i hi
    obtain ⟨⟨p, a⟩, hs, ha⟩ := Option.map_eq_some_iff.mp hi.2
    exact ⟨p, by rw [hs]; exact congrArg _ (congrArg _ ha)⟩
  · cases h

/-! ### Responses -/

/-- The message id of a response determines the operation. -/
theorem messageId_injective {id id' : Uuid}
    (h : (response id).messageId = (response id').messageId) : id = id' := by
  have hlist := congrArg String.toList h
  simp only [response, String.toList_append, Uuid.toString, String.toList_ofList] at hlist
  exact Uuid.display_injective (List.append_cancel_left hlist)

/-- The subject of a response determines the operation. -/
theorem subject_injective {id id' : Uuid} (h : (response id).subject = (response id').subject) :
    id = id' :=
  Uuid.display_injective (List.cons.inj (List.append_cancel_left h)).2

/-- The text of an identifier is one token. -/
theorem display_ne_dot (id : Uuid) : ∀ c ∈ id.display, c ≠ '.' := by
  intro c hc
  rcases id.display_chars hc with rfl | ⟨n, hn, rfl⟩
  · decide
  · interval_cases n <;> decide

/-- **The address of a response**: one token after the tokens of the fixed subject. -/
theorem tokens_subject (id : Uuid) : tokens (response id).subject =
    tokens responseSubjectPrefix.toList ++ [id.display] :=
  tokens_append_dot _ (display_ne_dot id)

/-- The subject that the response stream has to own captures every response. -/
theorem captures_subject (id : Uuid) :
    captures (tokens (responseSubjectPrefix ++ ".*").toList) (tokens (response id).subject) =
      true := by
  rw [tokens_subject, String.toList_append, show ".*".toList = '.' :: ['*'] from rfl,
    tokens_append_dot _ (by simp)]
  exact captures_append_star _ _

/-- A connected worker's response stream stores every response that arrives. -/
theorem Worker.owns_response (w : Worker) (id : Uuid) :
    w.responseStream.owns (response id).subject = true :=
  List.any_eq_true.mpr
    ⟨_, (validateResponseStream_ok w.response_valid).1, captures_subject id⟩

/-! ### The contract -/

/-- A stored response is addressed to an operation. -/
def RespondsTo (id : Uuid) (e : StoredResponse) : Prop := e.body.subject = (response id).subject

/-- **The contract of the durable status avenue** in a configuration of workers and broker.

* A request is acknowledged only when the response to its operation is stored.
* A request is terminated only when `decodeSignal` rejects it, and then nothing is published by
  any worker while it handles that request.
* The stored responses to one operation have the same bytes, and lie a duplicate window apart.
* Every stored response is the response to the operation of a valid signal that was delivered,
  under the fixed subject and one token of hexadecimal digits and hyphens, which the subject
  that the response stream must own captures.
* The stream that a connected worker has checked captures the responses to all operations, and
  its duplicate window is not zero. -/
structure StatusProtocol (w : Worker) (c : Interaction.Config (statusSystem w)) : Prop where
  acknowledged : ∀ t ∈ c.tasks, ∀ o ∈ t.history, ∀ m, o.call = .ack m →
    ∃ id, decodeSignal m.payload = some id ∧ ∃ e ∈ o.pre.responses, e.body = response id
  terminated : ∀ t ∈ c.tasks, ∀ o ∈ t.history, ∀ m, o.call = .ackTerm m →
    decodeSignal m.payload = none ∧
      ∀ t' ∈ c.tasks, ∀ h o' h', t'.history = h ++ o' :: h' → ∀ m', handled h = some m' →
        m'.sequence = m.sequence → ∀ p, o'.call ≠ .sendPublish p
  identical : ∀ id, ∀ e ∈ c.state.responses, ∀ e' ∈ c.state.responses,
    RespondsTo id e → RespondsTo id e' → e.body.payload = e'.body.payload
  once : c.state.responses.Pairwise fun e e' => ∀ id, RespondsTo id e → RespondsTo id e' →
    e.time + w.responseStream.duplicateWindow ≤ e'.time
  addressed : ∀ e ∈ c.state.responses, ∃ id, e.body = response id ∧
    tokens e.body.subject = tokens responseSubjectPrefix.toList ++ [id.display] ∧
    (∀ c ∈ id.display, c = '-' ∨ ∃ n < 16, c = Text.hexDigit n) ∧
    captures (tokens (responseSubjectPrefix ++ ".*").toList) (tokens e.body.subject) = true ∧
    ∃ t ∈ c.tasks, ∃ o ∈ t.history, ∃ m, delivered o = some m ∧ decodeSignal m.payload = some id
  owned : 0 < w.responseStream.duplicateWindow ∧
    ∀ id, w.responseStream.owns (response id).subject = true

section Run

variable {w : Worker} {as : List (Interaction.Action (statusSystem w))}
  {t : Task (statusSystem w)}

/-- Every call of a run is made under the guarantee. -/
theorem run_guarded (ht : t ∈ ((Config.initial Broker.initial).run as).tasks) {h h' : History}
    {o : Obs brokerMachine} (hh : t.history = h ++ o :: h') : Guarded h o := by
  obtain ⟨i, hi⟩ := List.mem_iff_getElem?.mp ht
  have hf := Config.run_follows (Y := statusSystem w) Broker.initial as hi
  exact hf.guarantee (serve_guarded t.request) hh

/-- Soundness is never lost. -/
theorem sound_stable (w : Worker) : Config.Stable (statusSystem w)
    (Broker.Sound w.responseStream.duplicateWindow) :=
  ⟨fun i c _ hs => exec_sound hs i c, fun e _ hs => env_sound hs e⟩

/-- Every call of a run finds a sound broker. -/
theorem run_pre_sound (ht : t ∈ ((Config.initial Broker.initial).run as).tasks)
    {o : Obs brokerMachine} (ho : o ∈ t.history) :
    Broker.Sound w.responseStream.duplicateWindow o.pre := by
  obtain ⟨i, hi⟩ := List.mem_iff_getElem?.mp ht
  exact Config.run_later (sound_stable w) (c := Config.initial Broker.initial)
    (initial_sound w.responseStream.duplicateWindow) as (Nat.zero_le i) hi ho

/-- What a call left has only grown since. -/
theorem run_grows (ht : t ∈ ((Config.initial Broker.initial).run as).tasks)
    {o : Obs brokerMachine} (ho : o ∈ t.history) :
    o.post.Grows ((Config.initial Broker.initial).run as).state := by
  refine Config.run_recorded (Y := statusSystem w) (F := fun _ => True)
    (R := fun o s => o.post.Grows s) Config.Stable.true (fun o => ?_)
    (fun o _ => Broker.Grows.refl o.post) trivial as ht ho
  exact ⟨fun i c s hs => hs.trans (exec_grows i c s), fun e s hs => hs.trans (env_grows _ e s)⟩

/-- **Everything that was sent is a response** to a valid signal delivered to some worker. -/
theorem run_publication {p : PublishMessage}
    (hp : p ∈ ((Config.initial Broker.initial).run as).state.publications) :
    ∃ id, p = response id ∧ ∃ t ∈ ((Config.initial Broker.initial).run as).tasks,
      ∃ o ∈ t.history, ∃ m, delivered o = some m ∧ decodeSignal m.payload = some id := by
  have hlog := Config.run_log (Y := statusSystem w) (L := Broker.publications) (E := publishes)
    (fun o => ?_) (fun e s => ?_) Broker.initial as
  · have hmem := hlog.subset hp
    simp only [Broker.publications, Broker.initial, List.map_nil, List.nil_append,
      List.mem_flatMap] at hmem
    obtain ⟨t, ht, o, ho, hpo⟩ := hmem
    have hcall : o.call = .sendPublish p := by
      obtain ⟨i, b, c⟩ := o
      cases c with
      | sendPublish p' =>
        simp only [publishes] at hpo
        split at hpo
        · rw [List.mem_singleton.mp hpo]
        · cases hpo
      | _ => cases hpo
    obtain ⟨h, h', hh⟩ := List.append_of_mem ho
    obtain ⟨m, id, hm, hdecode, rfl⟩ := (run_guarded ht hh).publish p hcall
    obtain ⟨o', ho', hd⟩ := exists_of_handled hm
    exact ⟨id, rfl, t, ht, o', by rw [hh]; exact List.mem_append_left _ ho', m, hd, hdecode⟩
  · obtain ⟨-, hsent, -⟩ := exec_cases o.input o.call o.pre
    simp only [Broker.publications, Obs.post, hsent, List.map_append, List.map_map]
    exact congrArg _ (List.map_id'' (fun _ => rfl) _)
  · cases e with
    | elapse time => rfl
    | request payload => rfl
    | arrive ticket =>
      simp only [brokerEnv]
      -- an arrival marks a publication, it adds none
      rcases arrive_cases w.responseStream s ticket with h | ⟨p, hp, h⟩ <;> rw [h]
      simp only [Broker.publications, List.map_set]
      refine List.ext_getElem? fun k => ?_
      rw [List.getElem?_set]
      split
      · rename_i hk
        obtain ⟨hlt, hget⟩ := List.getElem?_eq_some_iff.mp hp
        simp [← hk, hlt, hget]
      · rfl

/-- Two deliveries of one sequence number carry the same payload. -/
theorem run_payload {t' : Task (statusSystem w)}
    (ht : t ∈ ((Config.initial Broker.initial).run as).tasks)
    (ht' : t' ∈ ((Config.initial Broker.initial).run as).tasks) {o o' : Obs brokerMachine}
    (ho : o ∈ t.history) (ho' : o' ∈ t'.history) {m m' : Message} (hm : delivered o = some m)
    (hm' : delivered o' = some m') (hsequence : m'.sequence = m.sequence) :
    m'.payload = m.payload := by
  have hfound : ∀ {t : Task (statusSystem w)}, t ∈ ((Config.initial Broker.initial).run as).tasks →
      ∀ {o : Obs brokerMachine}, o ∈ t.history → ∀ {m}, delivered o = some m →
      (((Config.initial Broker.initial).run as).state.requests[m.sequence]?).map
        Request.payload = some m.payload := by
    intro t ht o ho m hm
    have hgrows := (exec_grows o.input o.call o.pre).trans (run_grows ht ho)
    exact hgrows.requests _ _ (requests_of_delivered hm)
  have hm₁ := hfound ht ho hm
  have hm₂ := hfound ht' ho' hm'
  rw [hsequence, hm₁] at hm₂
  exact (Option.some.inj hm₂).symm

/-- **An acknowledged request has been answered**: its response is stored when the acknowledgement
is made. -/
theorem run_acknowledged (ht : t ∈ ((Config.initial Broker.initial).run as).tasks)
    {o : Obs brokerMachine} (ho : o ∈ t.history) {m : Message} (hack : o.call = .ack m) :
    ∃ id, decodeSignal m.payload = some id ∧ ∃ e ∈ o.pre.responses, e.body = response id := by
  obtain ⟨h, h', hh⟩ := List.append_of_mem ho
  obtain ⟨id, ticket, hdecode, ⟨i, b, hsent, hticket⟩, i', b', hacked, harrived⟩ :=
    (run_guarded ht hh).ack m hack
  have hsound := run_pre_sound ht ho
  -- the ticket is that of the response, and it has arrived
  have hpair := Config.run_pairwise (Y := statusSystem w) (R := fun o s => o.post.Grows s)
    (fun o => ⟨fun i c s hs => hs.trans (exec_grows i c s),
      fun e s hs => hs.trans (env_grows _ e s)⟩) (fun o => Broker.Grows.refl o.post)
    Broker.initial as ht
  rw [hh] at hpair
  have hgrows : ∀ o' ∈ h, o'.post.Grows o.pre := fun o' ho' =>
    (List.pairwise_append.mp hpair).2.2 o' ho' o (by simp)
  obtain ⟨a, hk, -⟩ := (hgrows _ hsent).sent ticket (response id) false (sent_of_ticket hticket)
  obtain ⟨p, hp⟩ := arrived_of_ack harrived
  obtain ⟨a', hk', ha'⟩ := (hgrows _ hacked).sent ticket p true hp
  obtain ⟨rfl, rfl⟩ := Sent.mk.inj (Option.some.inj (hk.symm.trans hk'))
  obtain rfl := ha' rfl
  obtain ⟨e, he, hid⟩ := hsound.arrived ticket (response id) hk
  refine ⟨id, hdecode, e, he, ?_⟩
  -- the stored message with its id is itself a response
  obtain ⟨heid, hpublished⟩ := hsound.stored e he
  have hgrown := (exec_grows o.input o.call o.pre).trans (run_grows ht ho)
  obtain ⟨id', hresponse, -⟩ := run_publication (hgrown.publications hpublished)
  rw [hresponse] at heid ⊢
  rw [messageId_injective (heid.symm.trans hid)]

/-- **The status protocol** holds in every run of workers and broker. -/
theorem status_protocol (w : Worker) (as : List (Interaction.Action (statusSystem w))) :
    StatusProtocol w ((Config.initial Broker.initial).run as) := by
  have hsound := Config.run_stable (sound_stable w) (c := Config.initial Broker.initial) as
    (initial_sound w.responseStream.duplicateWindow)
  have hbody : ∀ e ∈ ((Config.initial Broker.initial).run as).state.responses, ∀ id,
      RespondsTo id e → e.body = response id := by
    intro e he id hid
    obtain ⟨id', hresponse, -⟩ := run_publication (hsound.stored e he).2
    rw [RespondsTo, hresponse] at hid
    rw [hresponse, subject_injective hid]
  refine ⟨fun t ht o ho m hack => run_acknowledged ht ho hack, fun t ht o ho m hterm => ?_,
    fun id e he e' he' hid hid' => ?_, ?_, fun e he => ?_,
    (validateResponseStream_ok w.response_valid).2, w.owns_response⟩
  · obtain ⟨h, h', hh⟩ := List.append_of_mem ho
    obtain ⟨hm, hdecode⟩ := (run_guarded ht hh).term m hterm
    refine ⟨hdecode, fun t' ht' h₁ o' h₂ hh' m' hm' hsequence p hp => ?_⟩
    obtain ⟨m'', id, hm'', hvalid, -⟩ := (run_guarded ht' hh').publish p hp
    obtain rfl : m' = m'' := Option.some.inj (hm'.symm.trans hm'')
    obtain ⟨d, hd, hdm⟩ := exists_of_handled hm
    obtain ⟨d', hd', hdm'⟩ := exists_of_handled hm'
    have hpayload := run_payload ht ht' (by rw [hh]; exact List.mem_append_left _ hd)
      (by rw [hh']; exact List.mem_append_left _ hd') hdm hdm' hsequence
    rw [hpayload, hdecode] at hvalid
    cases hvalid
  · rw [hbody e he id hid, hbody e' he' id hid']
  · refine hsound.spaced.imp_of_mem fun he he' hspaced id hid hid' => hspaced ?_
    rw [(hsound.stored _ he).1, (hsound.stored _ he').1, hbody _ he id hid, hbody _ he' id hid']
  · obtain ⟨id, hresponse, t, ht, o, ho, m, hm, hdecode⟩ :=
      run_publication (hsound.stored e he).2
    refine ⟨id, hresponse, ?_, fun c hc => id.display_chars hc, ?_, t, ht, o, ho, m, hm, hdecode⟩
    · rw [hresponse, tokens_subject]
    · rw [hresponse, captures_subject]

end Run

end ApmeApi.Nats
