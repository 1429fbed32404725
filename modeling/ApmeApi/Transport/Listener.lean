import ApmeApi.Lib.Embedding
import ApmeApi.Lib.Loop
import ApmeApi.Service.Handlers

/-!
# The listener of the framed transport

`serve` accepts connections and spawns a task for each that gets one of `maxConnections` permits;
`connectionTask` is that task: the TLS handshake, then `serveConnection`. Its permit is dropped
with it. An error of the listening socket leaves the loop of `serve`, whatever happens in a task
stays there.

The `Listener` is the state of all this: the time, the permits left, and the tasks that live,
each with the calls it made, the program that is left and the time of its last call. A call under
`timeout` has a deadline; time does not pass a deadline before that call got its reply.
-/

namespace ApmeApi.Tcp

open Interaction

/-- The settings of the transport that the listener uses besides. -/
structure ListenerConfig extends Config where
  maxConnections : ℕ
  idleTimeout : ℕ
  deriving DecidableEq

/-! ### A connection -/

/-- The awaited calls of a connection task: the TLS handshake and the calls of
`serveConnection`. -/
inductive ConnectionCall where
  | handshake
  | serve (c : Call)
  | warn (error : String)

/-- The reply of each call. -/
abbrev ConnectionCall.Reply : ConnectionCall → Type
  | .handshake => Bool
  | .serve c => c.Reply
  | .warn _ => Unit

/-- The signature of a connection task. -/
abbrev connectionSig : Signature := ⟨ConnectionCall, ConnectionCall.Reply⟩

/-- The calls of `serveConnection` among them. -/
def serviceCalls : Embedding apiSig connectionSig := ⟨.serve, fun _ r => r⟩

/-- An awaited call. -/
def await (c : ConnectionCall) : Prog connectionSig c.Reply := Prog.perform (S := connectionSig) c

section

variable [SharedAuth] [ApmeInterfaces]

/-- The task that `serve` spawns for a connection. -/
def connectionTask (state : AppState) (config : Config) : Prog connectionSig Unit := do
  match ← await .handshake with
  | false => pure ()
  | true =>
    match ← Prog.embed serviceCalls (serveConnection state config).run with
    | .error e => await (.warn e)
    | .ok () => pure ()

end

/-- What the surroundings decide for a call of a connection. -/
structure ConnectionInput where
  handshake : Bool := true
  service : Input := {}

/-- The effect of each call. -/
def connectionExec (sql : SqlFunctions) (i : ConnectionInput) :
    (c : ConnectionCall) → World → c.Reply × World
  | .handshake, w => (i.handshake, w)
  | .serve c, w => exec sql i.service c w
  | .warn _, w => ((), w)

/-- The machine of a connection. -/
abbrev connectionMachine (sql : SqlFunctions) : Machine connectionSig :=
  ⟨World, ConnectionInput, connectionExec sql⟩

/-- The `timeout` around a call. -/
def ConnectionCall.timeout (config : ListenerConfig) : ConnectionCall → Option ℕ
  | .serve (.readFrame _) => some config.idleTimeout
  | .serve (.writeFrame _ _) => some config.idleTimeout
  | _ => none

/-- Whether a call waits for the peer of the connection. -/
def ConnectionCall.waitsForPeer : ConnectionCall → Bool
  | .handshake => true
  | .serve (.readFrame _) => true
  | .serve (.writeFrame _ _) => true
  | _ => false

/-! ### The loop -/

/-- What the `select!` of the loop got first. -/
inductive Selected where
  | shutdown
  | shutdownClosed
  | accepted
  | acceptFailed
  deriving DecidableEq

/-- The calls of the loop. `trySpawn` is `try_acquire_owned` and, when there was a permit, the
`tokio::spawn` of the connection with it: no await lies between the two. -/
inductive ListenerCall where
  | select
  | trySpawn
  deriving DecidableEq

/-- The reply of each call. -/
abbrev ListenerCall.Reply : ListenerCall → Type
  | .select => Selected
  | .trySpawn => Bool

/-- The signature of the loop. -/
abbrev listenerSig : Signature := ⟨ListenerCall, ListenerCall.Reply⟩

/-- A call of the loop. -/
def awaitListener (c : ListenerCall) : Prog listenerSig c.Reply := Prog.perform (S := listenerSig) c

/-- One round of the loop of `serve`. -/
def serveRound : ExceptT String (Prog listenerSig) (Option Unit) := do
  match ← awaitListener .select with
  | .shutdownClosed => throw "mTLS shutdown channel closed"
  | .shutdown => return some ()
  | .acceptFailed => throw "accept Apostille Me mTLS connection"
  | .accepted =>
    match ← awaitListener .trySpawn with
    | false => return none
    | true => return none

/-- `Server::serve`, for the first `rounds` rounds of its loop. -/
def serve (rounds : ℕ) : ExceptT String (Prog listenerSig) (Option Unit) :=
  Prog.loop serveRound rounds

/-! ### The listener -/

section

variable (sql : SqlFunctions)

/-- A live connection task. -/
structure ConnectionTask where
  history : List (Obs (connectionMachine sql))
  prog : Prog connectionSig Unit
  since : ℕ

/-- The state of the listener. -/
structure Listener where
  now : ℕ
  world : World
  permits : ℕ
  connections : List (ConnectionTask sql)

/-- The listener before the first connection. -/
def Listener.initial (config : ListenerConfig) (w : World) : Listener sql :=
  ⟨0, w, config.maxConnections, []⟩

end

section

variable {sql : SqlFunctions}

/-- The deadline of a task that waits under `timeout`. -/
def ConnectionTask.deadline (config : ListenerConfig) (t : ConnectionTask sql) : Option ℕ :=
  match t.prog with
  | .call c _ => (c.timeout config).map (t.since + ·)
  | .pure _ => none

/-- Whether a task waits for its peer. -/
def ConnectionTask.waits (t : ConnectionTask sql) : Bool :=
  match t.prog with
  | .call c _ => c.waitsForPeer
  | .pure _ => false

/-- Whether a task waits for the TLS handshake of its peer. -/
def ConnectionTask.inHandshake (t : ConnectionTask sql) : Bool :=
  match t.prog with
  | .call .handshake _ => true
  | _ => false

/-- A connection gets the reply to its call. A task that ends is removed and its permit
returned. -/
def Listener.advance (l : Listener sql) (k : ℕ) (i : ConnectionInput) : Listener sql :=
  match l.connections[k]? with
  | none => l
  | some t =>
    match t.prog with
    | .pure _ => l
    | .call c f =>
      let o : Obs (connectionMachine sql) := ⟨i, l.world, c⟩
      match f o.reply with
      | .pure _ =>
        { l with
          world := o.post
          permits := l.permits + 1
          connections := l.connections.eraseIdx k }
      | q =>
        { l with
          world := o.post
          connections := l.connections.set k ⟨t.history ++ [o], q, l.now⟩ }

/-- Time passes, up to the first deadline. -/
def Listener.elapse (config : ListenerConfig) (l : Listener sql) (d : ℕ) : Listener sql :=
  if ∀ t ∈ l.connections, ∀ e ∈ t.deadline config, l.now + d ≤ e then { l with now := l.now + d }
  else l

/-- What happens besides the calls of the loop. -/
inductive ListenerAction where
  | connection (k : ℕ) (i : ConnectionInput)
  | elapse (d : ℕ)
  | world (w : World)

/-- The effect of what happens besides the calls of the loop; other tasks of the process may change
the world in any way. -/
def listenerEnv (config : ListenerConfig) : ListenerAction → Listener sql → Listener sql
  | .connection k i, l => l.advance k i
  | .elapse d, l => l.elapse config d
  | .world w, l => { l with world := w }

variable [SharedAuth] [ApmeInterfaces]

/-- The effect of the calls of the loop. -/
def listenerExec (state : AppState) (config : ListenerConfig) (i : Selected) :
    (c : ListenerCall) → Listener sql → c.Reply × Listener sql
  | .select, l => (i, l)
  | .trySpawn, l =>
    if 0 < l.permits then
      (true, { l with
        permits := l.permits - 1
        connections := l.connections ++ [⟨[], connectionTask state config.toConfig, l.now⟩] })
    else (false, l)

/-- The machine of the loop. -/
abbrev listenerMachine (sql : SqlFunctions) (state : AppState) (config : ListenerConfig) :
    Machine listenerSig :=
  ⟨Listener sql, Selected, listenerExec state config⟩

/-- The listener with its connections. -/
abbrev listenerSystem (sql : SqlFunctions) (state : AppState) (config : ListenerConfig) :
    System where
  sig := listenerSig
  machine := listenerMachine sql state config
  Request := ℕ
  Response := Except String (Option Unit)
  main := fun rounds => (serve rounds).run
  EnvAction := ListenerAction
  env := listenerEnv config

end

end ApmeApi.Tcp
