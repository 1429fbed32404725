import ApmeApi.Types
import ApmeApi.Lib.Broadcast

/-!
# The WebSocket loop

`socketLoop` is the task that serves one upgraded connection: it waits for the next published
event or the next message of the client, whichever is there first, and awaits the write of each
frame before it selects again. One step of the loop is the completion of what it waits for; the
`SocketInput` says which branch completed and how.

The text of an event frame is the JSON of the event, which always exists; the model records the
event itself as the frame.
-/

namespace ApmeApi

open Broadcast

/-- Capacity of the broadcast channel of events. -/
def eventCapacity : ℕ := 256

/-- Whether an event is for a subscription. -/
def subscriptionAllows (subscription : CaseSubscription) (event : TenantEvent) : Bool :=
  subscription.tenantId = event.tenantId &&
    (match subscription.caseId with
      | none => true
      | some caseId => caseId = event.caseId)

/-- What the client's half of the connection yields. -/
inductive ClientMessage where
  | ping
  | close
  | other
  | error
  | ended
  deriving DecidableEq

/-- Where the loop waits: in `select!`, in the write of an event frame, in the write of a pong;
or it has ended and the connection is closed. -/
inductive SocketPhase where
  | selecting
  | sendingEvent (event : TenantEvent)
  | sendingPong
  | closed
  deriving DecidableEq

/-- A connection with the state of its loop and the event frames written to it. -/
structure Socket where
  subscription : CaseSubscription
  receiver : Receiver
  phase : SocketPhase
  sent : List TenantEvent
  deriving DecidableEq

/-- The completion of what the loop waits for. -/
inductive SocketInput where
  | event
  | message (m : ClientMessage)
  | written (ok : Bool)
  deriving DecidableEq

namespace Socket

/-- The loop as it starts on an upgraded connection. -/
def start (receiver : Receiver) (subscription : CaseSubscription) : Socket :=
  ⟨subscription, receiver, .selecting, []⟩

/-- The arms of the branch of `events.recv()`. A lag is no reason to end: the loop selects
again, like after an event for others. While nothing is there the branch does not complete. -/
def onRecv (s : Socket) : Recv TenantEvent × Receiver → Socket
  | (.value event, r) =>
    if subscriptionAllows s.subscription event then
      { s with receiver := r, phase := .sendingEvent event }
    else { s with receiver := r }
  | (.lagged _, r) => { s with receiver := r }
  | (.empty, _) => s

/-- The branch of `events.recv()`. -/
def onEvent (log : List TenantEvent) (s : Socket) : Socket :=
  s.onRecv (s.receiver.recv eventCapacity log)

/-- The branch of `receiver.next()`. -/
def onMessage (s : Socket) : ClientMessage → Socket
  | .ping => { s with phase := .sendingPong }
  | .close => { s with phase := .closed }
  | .error => { s with phase := .closed }
  | .ended => { s with phase := .closed }
  | .other => s

/-- One step of the loop. An input that is not what the loop waits for changes nothing. -/
def step (log : List TenantEvent) (s : Socket) (i : SocketInput) : Socket :=
  match s.phase, i with
  | .selecting, .event => s.onEvent log
  | .selecting, .message m => s.onMessage m
  | .sendingEvent event, .written true => { s with phase := .selecting, sent := s.sent ++ [event] }
  | .sendingEvent _, .written false => { s with phase := .closed }
  | .sendingPong, .written true => { s with phase := .selecting }
  | .sendingPong, .written false => { s with phase := .closed }
  | _, _ => s

/-- The event whose frame is being written. -/
def pending (s : Socket) : List TenantEvent :=
  match s.phase with
  | .sendingEvent event => [event]
  | _ => []

/-- Whether the connection is open. -/
def isOpen (s : Socket) : Prop := s.phase ≠ .closed

/-- **Inversion of a step of the loop**: it selects again (after a lag, an event for others, a
message it ignores), it starts to write an event it received for its subscription, it ends the
write of an event, or it writes a pong or closes; an event frame is written only in the third
case. -/
theorem step_cases (log : List TenantEvent) (s : Socket) (i : SocketInput) :
    (s.phase = .selecting ∧ i = .event ∧
      ((∃ event r, s.receiver.recv eventCapacity log = (.value event, r) ∧
          subscriptionAllows s.subscription event = true ∧
          s.step log i = { s with receiver := r, phase := .sendingEvent event }) ∨
        (∃ event r, s.receiver.recv eventCapacity log = (.value event, r) ∧
          subscriptionAllows s.subscription event = false ∧
          s.step log i = { s with receiver := r }) ∨
        (∃ n r, s.receiver.recv eventCapacity log = (.lagged n, r) ∧
          s.step log i = { s with receiver := r }))) ∨
    (∃ event, s.phase = .sendingEvent event ∧
      s.step log i = { s with phase := .selecting, sent := s.sent ++ [event] }) ∨
    (s.step log i = s) ∨
    (∃ p, s.isOpen ∧ (∀ event, p ≠ .sendingEvent event) ∧ (s.pending ≠ [] → p = .closed) ∧
      s.step log i = { s with phase := p }) := by
  obtain ⟨sub, r, phase, sent⟩ := s
  -- an input that the phase does not wait for changes nothing
  cases phase with
  | closed => exact .inr (.inr (.inl rfl))
  | sendingPong =>
    cases i with
    | event => exact .inr (.inr (.inl rfl))
    | message m => exact .inr (.inr (.inl rfl))
    | written ok =>
      cases ok
      · exact .inr (.inr (.inr ⟨.closed, by simp [isOpen], by simp, by simp, rfl⟩))
      · exact .inr (.inr (.inr ⟨.selecting, by simp [isOpen], by simp, by simp [pending], rfl⟩))
  | sendingEvent event =>
    cases i with
    | event => exact .inr (.inr (.inl rfl))
    | message m => exact .inr (.inr (.inl rfl))
    | written ok =>
      cases ok
      · exact .inr (.inr (.inr ⟨.closed, by simp [isOpen], by simp, by simp, rfl⟩))
      · exact .inr (.inl ⟨event, rfl, rfl⟩)
  | selecting =>
    cases i with
    | written ok => exact .inr (.inr (.inl rfl))
    | message m =>
      cases m
      · exact .inr (.inr (.inr ⟨.sendingPong, by simp [isOpen], by simp, by simp [pending], rfl⟩))
      · exact .inr (.inr (.inr ⟨.closed, by simp [isOpen], by simp, by simp, rfl⟩))
      · exact .inr (.inr (.inl rfl))
      · exact .inr (.inr (.inr ⟨.closed, by simp [isOpen], by simp, by simp, rfl⟩))
      · exact .inr (.inr (.inr ⟨.closed, by simp [isOpen], by simp, by simp, rfl⟩))
    | event =>
      -- the receiver yields an event, a lag or nothing yet
      have hs : step log ⟨sub, r, .selecting, sent⟩ .event =
          onEvent log ⟨sub, r, .selecting, sent⟩ := rfl
      rcases recv_cases eventCapacity log r with ⟨event, -, -, hr⟩ | ⟨-, hr⟩ | hr
      · cases ha : subscriptionAllows sub event with
        | true => exact .inl ⟨rfl, rfl, .inl ⟨event, _, hr, ha, by
            rw [hs, onEvent, hr]
            exact if_pos ha⟩⟩
        | false => exact .inl ⟨rfl, rfl, .inr (.inl ⟨event, _, hr, ha, by
            rw [hs, onEvent, hr]
            exact if_neg (by simp [ha])⟩)⟩
      · exact .inl ⟨rfl, rfl, .inr (.inr ⟨_, _, hr, by
          rw [hs, onEvent, hr]
          rfl⟩)⟩
      · refine .inr (.inr (.inl ?_))
        rw [hs, onEvent, hr]
        rfl

@[simp]
theorem step_subscription (log : List TenantEvent) (s : Socket) (i : SocketInput) :
    (s.step log i).subscription = s.subscription := by
  obtain ⟨-, -, ⟨e, r, -, -, h⟩ | ⟨e, r, -, -, h⟩ | ⟨n, r, -, h⟩⟩ | ⟨e, -, h⟩ | h |
    ⟨p, -, -, -, h⟩ := s.step_cases log i <;> rw [h]

end Socket

end ApmeApi
