import ApmeApi.Service.Socket

/-!
# The stream of events on one connection

One connection sees two things happen: an event is published, by whatever tenant, or its own loop
takes a step. A `Stream` is the channel together with one connection, and a run of it is any
interleaving of these (`Stream.run`).

The loop ignores a lag and selects again, so its stream has gaps: what was overwritten while the
receiver was more than 256 events behind is lost to it (`not_gapFree`). What holds of every run
(`stream_delivery`) is that the frames are accepted events published since the subscription, in
publication order and without duplicates; that they are a prefix of all accepted events as long
as no receive lagged; and that even after a lag no retained event is skipped.
-/

namespace ApmeApi

open Broadcast

/-- The channel of events and one connection. -/
structure Stream where
  log : List TenantEvent
  socket : Socket

/-- What happens on the channel and on the connection. -/
inductive StreamAction where
  | publish (event : TenantEvent)
  | loop (i : SocketInput)

namespace Stream

/-- A connection that has just subscribed. -/
def opened (log : List TenantEvent) (subscription : CaseSubscription) : Stream :=
  ⟨log, Socket.start (subscribe log) subscription⟩

def step (s : Stream) : StreamAction → Stream
  | .publish event => ⟨s.log ++ [event], s.socket⟩
  | .loop i => ⟨s.log, s.socket.step s.log i⟩

/-- Any interleaving of publications and steps of the loop. -/
def run (s : Stream) (as : List StreamAction) : Stream := as.foldl step s

theorem run_concat (s : Stream) (as : List StreamAction) (a : StreamAction) :
    s.run (as ++ [a]) = (s.run as).step a := by
  simp [run]

/-- The events published since the subscription that the subscription accepts. -/
def accepted (s : Stream) : List TenantEvent :=
  (s.log.drop s.socket.receiver.since).filter (subscriptionAllows s.socket.subscription)

/-- The accepted events between two positions. -/
def acceptedIn (s : Stream) (m n : ℕ) : List TenantEvent :=
  (window s.log m n).filter (subscriptionAllows s.socket.subscription)

/-- The accepted events that the receiver has passed. -/
def passed (s : Stream) : List TenantEvent :=
  s.acceptedIn s.socket.receiver.since s.socket.receiver.next

/-- The accepted events that the receiver has passed and the channel still retains. -/
def retained (s : Stream) : List TenantEvent :=
  s.acceptedIn (max s.socket.receiver.since (oldest eventCapacity s.log)) s.socket.receiver.next

/-- The frames sent and the one that is being sent. -/
def frames (s : Stream) : List TenantEvent := s.socket.sent ++ s.socket.pending

/-- The next receive of the loop finds that it has fallen behind. -/
def Lags (s : Stream) (a : StreamAction) : Prop :=
  a = .loop .event ∧ s.socket.phase = .selecting ∧
    s.socket.receiver.next < oldest eventCapacity s.log

/-! ### Invariants -/

/-- **The invariant of every run.** -/
structure Ordered (s : Stream) : Prop where
  since_le : s.socket.receiver.since ≤ s.socket.receiver.next
  next_le : s.socket.receiver.next ≤ s.log.length
  sublist : List.Sublist s.frames s.passed
  retained : s.socket.isOpen → s.retained <:+ s.frames

/-- The invariant of a run in which no receive lagged. -/
structure Complete (s : Stream) : Prop where
  frames_initial : s.frames <+: s.passed
  frames_eq : s.socket.isOpen → s.frames = s.passed

/-! ### Windows of accepted events -/

theorem acceptedIn_eq_nil (s : Stream) {m n : ℕ} (h : n ≤ m) : s.acceptedIn m n = [] := by
  rw [acceptedIn, window_eq_nil _ h, List.filter_nil]

/-- An accepted event that is received extends the window. -/
theorem acceptedIn_succ {s : Stream} {m n : ℕ} {event : TenantEvent} (hmn : m ≤ n)
    (he : s.log[n]? = some event) :
    s.acceptedIn m (n + 1) = s.acceptedIn m n ++
      if subscriptionAllows s.socket.subscription event then [event] else [] := by
  rw [acceptedIn, window_recv_value hmn he, List.filter_append, List.filter_singleton]
  cases subscriptionAllows s.socket.subscription event <;> rfl

/-- The windows of accepted events after a publication. -/
theorem acceptedIn_publish {s : Stream} {m n : ℕ} (h : n ≤ s.log.length) (event : TenantEvent) :
    (s.step (.publish event)).acceptedIn m n = s.acceptedIn m n :=
  congrArg (List.filter _) (window_append h [event])

/-- What was passed is a prefix of what was published. -/
theorem passed_initial (s : Stream) : s.passed <+: s.accepted := by
  refine List.IsPrefix.filter _ ?_
  rw [window, List.drop_take]
  exact List.take_prefix _ _

/-! ### The start of a connection -/

theorem opened_ordered (log : List TenantEvent) (subscription : CaseSubscription) :
    (opened log subscription).Ordered where
  since_le := Nat.le_refl _
  next_le := Nat.le_refl _
  sublist := List.nil_sublist _
  retained _ := by
    have hnil : (opened log subscription).retained = [] :=
      acceptedIn_eq_nil _ (Nat.le_max_left _ _)
    rw [hnil]
    exact List.nil_suffix

theorem opened_complete (log : List TenantEvent) (subscription : CaseSubscription) :
    (opened log subscription).Complete where
  frames_initial := List.nil_prefix
  frames_eq _ := (acceptedIn_eq_nil _ (Nat.le_refl _)).symm

/-! ### One step -/

/-- A publication keeps the order of the frames. -/
theorem Ordered.publish {s : Stream} (h : s.Ordered) (event : TenantEvent) :
    (s.step (.publish event)).Ordered where
  since_le := h.since_le
  next_le := Nat.le_trans h.next_le (by simp [step])
  sublist := by
    have hpassed : (s.step (.publish event)).passed = s.passed :=
      acceptedIn_publish h.next_le event
    rw [hpassed]
    exact h.sublist
  retained hopen := by
    refine List.IsSuffix.trans ?_ (h.retained hopen)
    have hretained : (s.step (.publish event)).retained =
        s.acceptedIn (max s.socket.receiver.since (oldest eventCapacity (s.log ++ [event])))
          s.socket.receiver.next := acceptedIn_publish h.next_le event
    rw [hretained]
    refine List.IsSuffix.filter _ (window_suffix _ (max_le_max_left _ ?_))
    simp only [oldest, List.length_append]
    omega

/-- **Inversion of a step of the loop**, in terms of the stream: it receives an event, accepted or
not; it falls behind; or the receiver stays where it is, and no frame is added. -/
theorem loop_cases (s : Stream) (i : SocketInput) :
    (∃ event, s.socket.isOpen ∧ s.log[s.socket.receiver.next]? = some event ∧
      oldest eventCapacity s.log ≤ s.socket.receiver.next ∧
      (s.step (.loop i)).socket.receiver =
        { s.socket.receiver with next := s.socket.receiver.next + 1 } ∧
      (s.step (.loop i)).frames = s.frames ++
        (if subscriptionAllows s.socket.subscription event then [event] else [])) ∨
    (s.Lags (.loop i) ∧ (s.step (.loop i)).frames = s.frames ∧
      (s.step (.loop i)).socket.receiver =
        { s.socket.receiver with next := oldest eventCapacity s.log }) ∨
    ((s.step (.loop i)).socket.receiver = s.socket.receiver ∧
      (s.step (.loop i)).frames <+: s.frames ∧
      ((s.step (.loop i)).socket.isOpen →
        s.socket.isOpen ∧ (s.step (.loop i)).frames = s.frames)) := by
  have hstep : (s.step (.loop i)).socket = s.socket.step s.log i := rfl
  obtain ⟨hphase, rfl, ⟨event, r, hr, hallows, h⟩ | ⟨event, r, hr, hallows, h⟩ | ⟨n, r, hr, h⟩⟩ |
    ⟨event, hphase, h⟩ | h | ⟨p, hopen, hp, hclosed, h⟩ := s.socket.step_cases s.log i
  · obtain ⟨hget, hle, rfl⟩ := recv_eq_value hr
    refine .inl ⟨event, by simp [Socket.isOpen, hphase], hget, hle, ?_, ?_⟩
    · rw [hstep, h]
    · simp [frames, hstep, h, Socket.pending, hphase, hallows]
  · obtain ⟨hget, hle, rfl⟩ := recv_eq_value hr
    refine .inl ⟨event, by simp [Socket.isOpen, hphase], hget, hle, ?_, ?_⟩
    · rw [hstep, h]
    · simp [frames, hstep, h, Socket.pending, hphase, hallows]
  · obtain ⟨hlt, rfl⟩ := recv_eq_lagged hr
    refine .inr (.inl ⟨⟨rfl, hphase, hlt⟩, ?_, ?_⟩)
    · simp [frames, hstep, h, Socket.pending, hphase]
    · rw [hstep, h]
  · have hframes : (s.step (.loop i)).frames = s.frames := by
      simp [frames, hstep, h, Socket.pending, hphase]
    refine .inr (.inr ⟨by rw [hstep, h], by rw [hframes], fun _ => ?_⟩)
    exact ⟨by simp [Socket.isOpen, hphase], hframes⟩
  · have hsame : s.step (.loop i) = s := by
      rw [step, h]
    rw [hsame]
    exact .inr (.inr ⟨rfl, List.prefix_refl _, fun hopen => ⟨hopen, rfl⟩⟩)
  · -- a frame that was being sent is dropped with the connection, never a frame that was sent
    have hnew : (s.step (.loop i)).socket.pending = [] := by
      rw [hstep, h]
      cases p with
      | sendingEvent event => exact absurd rfl (hp event)
      | _ => rfl
    have hframes : (s.step (.loop i)).frames = s.socket.sent := by
      rw [frames, hnew, hstep, h, List.append_nil]
    refine .inr (.inr ⟨by rw [hstep, h], ?_, fun hopen' => ⟨hopen, ?_⟩⟩)
    · rw [hframes]
      exact List.prefix_append _ _
    · rw [hframes]
      by_cases hpending : s.socket.pending = []
      · rw [frames, hpending, List.append_nil]
      · rw [Socket.isOpen, hstep, h] at hopen'
        exact absurd (hclosed hpending) hopen'

@[simp]
theorem acceptedIn_loop (s : Stream) (i : SocketInput) (m n : ℕ) :
    (s.step (.loop i)).acceptedIn m n = s.acceptedIn m n := by
  simp only [acceptedIn, step, Socket.step_subscription]

/-- A step of the loop keeps the order of the frames. -/
theorem Ordered.loop {s : Stream} (h : s.Ordered) (i : SocketInput) :
    (s.step (.loop i)).Ordered := by
  have hlog : (s.step (.loop i)).log = s.log := rfl
  obtain ⟨event, hopen, hget, hle, hreceiver, hframes⟩ | ⟨⟨-, -, hlag⟩, hframes, hreceiver⟩ |
    ⟨hreceiver, hprefix, hframes⟩ := s.loop_cases i
  · have hlt : s.socket.receiver.next < s.log.length := (List.getElem?_eq_some_iff.mp hget).1
    refine ⟨?_, ?_, ?_, fun _ => ?_⟩
    · rw [hreceiver]
      exact Nat.le_succ_of_le h.since_le
    · rw [hreceiver]
      exact hlt
    · rw [hframes, passed, hreceiver, acceptedIn_loop, acceptedIn_succ h.since_le hget]
      exact h.sublist.append (List.Sublist.refl _)
    · have hmax : max s.socket.receiver.since (oldest eventCapacity s.log) ≤
          s.socket.receiver.next := max_le h.since_le hle
      rw [hframes, Stream.retained, hreceiver, hlog, acceptedIn_loop, acceptedIn_succ hmax hget]
      obtain ⟨l, hl⟩ := h.retained hopen
      exact ⟨l, by rw [← List.append_assoc]; exact congrArg (· ++ _) hl⟩
  · -- a lag moves the receiver to the oldest event, so nothing retained was passed
    refine ⟨?_, ?_, ?_, fun _ => ?_⟩
    · rw [hreceiver]
      exact h.since_le.trans hlag.le
    · rw [hreceiver]
      exact Nat.sub_le _ _
    · rw [hframes, passed, hreceiver, acceptedIn_loop]
      exact h.sublist.trans ((window_isPrefix_of_le s.log hlag.le).filter _).sublist
    · have hnil : (s.step (.loop i)).retained = [] := by
        rw [Stream.retained, hreceiver, hlog]
        exact acceptedIn_eq_nil _ (le_max_right _ _)
      rw [hnil]
      exact List.nil_suffix
  · refine ⟨?_, ?_, ?_, fun hopen => ?_⟩
    · rw [hreceiver]
      exact h.since_le
    · rw [hreceiver]
      exact h.next_le
    · rw [passed, hreceiver, acceptedIn_loop]
      exact hprefix.sublist.trans h.sublist
    · obtain ⟨hopen', hsame⟩ := hframes hopen
      rw [hsame, Stream.retained, hreceiver, hlog, acceptedIn_loop]
      exact h.retained hopen'

/-- A publication keeps the frames complete. -/
theorem Complete.publish {s : Stream} (ho : s.Ordered) (h : s.Complete) (event : TenantEvent) :
    (s.step (.publish event)).Complete := by
  have hpassed : (s.step (.publish event)).passed = s.passed := acceptedIn_publish ho.next_le event
  refine ⟨?_, fun hopen => ?_⟩
  · rw [hpassed]
    exact h.frames_initial
  · rw [hpassed]
    exact h.frames_eq hopen

/-- A step of the loop that does not lag keeps the frames complete. -/
theorem Complete.loop {s : Stream} (ho : s.Ordered) (h : s.Complete) {i : SocketInput}
    (hlag : ¬ s.Lags (.loop i)) : (s.step (.loop i)).Complete := by
  obtain ⟨event, hopen, hget, -, hreceiver, hframes⟩ | ⟨hlags, -⟩ |
    ⟨hreceiver, hprefix, hframes⟩ := s.loop_cases i
  · have heq : (s.step (.loop i)).frames = (s.step (.loop i)).passed := by
      rw [hframes, passed, hreceiver, acceptedIn_loop, acceptedIn_succ ho.since_le hget,
        h.frames_eq hopen]
      rfl
    exact ⟨by rw [heq], fun _ => heq⟩
  · exact absurd hlags hlag
  · have hpassed : (s.step (.loop i)).passed = s.passed := by
      rw [passed, hreceiver, acceptedIn_loop]
      rfl
    refine ⟨?_, fun hopen => ?_⟩
    · rw [hpassed]
      exact hprefix.trans h.frames_initial
    · obtain ⟨hopen', hsame⟩ := hframes hopen
      rw [hpassed, hsame, h.frames_eq hopen']

/-! ### Every run -/

/-- A connection keeps the position at which it subscribed. -/
theorem run_since (log : List TenantEvent) (subscription : CaseSubscription)
    (as : List StreamAction) :
    ((opened log subscription).run as).socket.receiver.since = log.length := by
  induction as using List.reverseRecOn with
  | nil => rfl
  | append_singleton as a ih =>
    rw [run_concat]
    cases a with
    | publish event => exact ih
    | loop i =>
      obtain ⟨event, -, -, -, hreceiver, -⟩ | ⟨-, -, hreceiver⟩ | ⟨hreceiver, -⟩ :=
        ((opened log subscription).run as).loop_cases i
      · rw [hreceiver]
        exact ih
      · rw [hreceiver]
        exact ih
      · rw [hreceiver]
        exact ih

/-- **The order of the frames**, in every run. -/
theorem run_ordered (log : List TenantEvent) (subscription : CaseSubscription)
    (as : List StreamAction) : ((opened log subscription).run as).Ordered := by
  induction as using List.reverseRecOn with
  | nil => exact opened_ordered log subscription
  | append_singleton as a ih =>
    rw [run_concat]
    cases a with
    | publish event => exact ih.publish event
    | loop i => exact ih.loop i

/-- No receive of the run lagged. -/
def NeverLags (s : Stream) (as : List StreamAction) : Prop :=
  ∀ bs a, bs ++ [a] <+: as → ¬ (s.run bs).Lags a

/-- **Completeness**, in every run in which no receive lagged. -/
theorem run_complete (log : List TenantEvent) (subscription : CaseSubscription)
    (as : List StreamAction) (hlag : (opened log subscription).NeverLags as) :
    ((opened log subscription).run as).Complete := by
  induction as using List.reverseRecOn with
  | nil => exact opened_complete log subscription
  | append_singleton as a ih =>
    have hprefix : (opened log subscription).NeverLags as := fun bs b hb =>
      hlag bs b (hb.trans (List.prefix_append _ _))
    have ho := run_ordered log subscription as
    rw [run_concat]
    cases a with
    | publish event => exact (ih hprefix).publish ho event
    | loop i => exact (ih hprefix).loop ho (hlag as (.loop i) (List.prefix_refl _))

/-- **Delivery.** In every interleaving of publications and steps of the loop, from the
subscription on: the frames sent are accepted events since the subscription, each once and in
publication order; as long as no receive lagged they are a prefix of these; and while the
connection is open, every accepted event that the receiver has passed and the channel still
retains is among the frames, without a gap. -/
theorem stream_delivery (log : List TenantEvent) (subscription : CaseSubscription)
    (as : List StreamAction) :
    List.Sublist ((opened log subscription).run as).socket.sent
        ((opened log subscription).run as).accepted ∧
      ((opened log subscription).NeverLags as →
        ((opened log subscription).run as).socket.sent <+:
          ((opened log subscription).run as).accepted) ∧
      (((opened log subscription).run as).socket.isOpen →
        ((opened log subscription).run as).retained <:+
          ((opened log subscription).run as).frames) := by
  have hsent : ((opened log subscription).run as).socket.sent <+:
      ((opened log subscription).run as).frames := List.prefix_append _ _
  have ho := run_ordered log subscription as
  refine ⟨?_, fun hlag => ?_, ho.retained⟩
  · exact hsent.sublist.trans (ho.sublist.trans (passed_initial _).sublist)
  · exact hsent.trans ((run_complete log subscription as hlag).frames_initial.trans
      (passed_initial _))

/-! ### A burst of events -/

section Burst

/-- The `i`-th event of a burst. -/
def burstEvent (i : ℕ) : TenantEvent where
  tenantId := Uuid.nil
  caseId := Uuid.nil
  event := ⟨⟨BitVec.ofNat 128 i⟩, Uuid.nil, Uuid.nil, i, "case.transitioned", 1, ""⟩

/-- More events than the channel retains are published before the loop receives; then it falls
behind, receives one event and sends it. -/
def burstRun : List StreamAction :=
  (List.range 257).map (fun i => .publish (burstEvent i)) ++
    [.loop .event, .loop .event, .loop (.written true)]

/-- The first frame is that of the second event, and the connection is open. -/
theorem burstRun_frames :
    ((opened [] ⟨Uuid.nil, none⟩).run burstRun).socket.sent = [burstEvent 1] ∧
      ((opened [] ⟨Uuid.nil, none⟩).run burstRun).accepted.head? = some (burstEvent 0) ∧
      ((opened [] ⟨Uuid.nil, none⟩).run burstRun).socket.phase = .selecting := by
  decide +kernel

/-- **The stream has gaps** on a connection that stays open. -/
theorem not_gapFree : ¬ ∀ (log : List TenantEvent) (subscription : CaseSubscription)
    (as : List StreamAction), ((opened log subscription).run as).socket.isOpen →
      ((opened log subscription).run as).socket.sent <+:
        ((opened log subscription).run as).accepted := by
  intro hall
  obtain ⟨hsent, haccepted, hphase⟩ := burstRun_frames
  have hopen : ((opened [] ⟨Uuid.nil, none⟩).run burstRun).socket.isOpen := by
    rw [Socket.isOpen, hphase]
    intro h
    cases h
  obtain ⟨l, hl⟩ := hall [] ⟨Uuid.nil, none⟩ burstRun hopen
  rw [← hl, hsent] at haccepted
  have hfirst : burstEvent 1 = burstEvent 0 := Option.some.inj haccepted
  exact absurd hfirst (by decide)

end Burst

end Stream

end ApmeApi
