import ApmeApi.Service.Origins
import ApmeApi.Startup.Settings

/-!
# The start of the process

`main` reads the settings, connects to the database and migrates it, builds the CORS layer, starts
the transports that are configured, and only then serves. Every step may fail, and a failure ends
the process.

`startup_guarded` says of every call what has been read and what has succeeded before it, in every
execution of `main`: before the database is connected and migrated, before an address is bound or a
file opened, before the credentials of the broker are used, before each transport is started and
before the first request is served.

A call may also end the process instead of failing: built with two cryptography providers and none
installed, the verifier of client certificates panics. The history of the start ends there.
-/

namespace ApmeApi.Startup

open Interaction

/-! ### The calls -/

/-- A certificate, as its bytes. -/
abbrev Certificate := List UInt8

/-- `rustls::ServerConfig` with a mandatory verifier of client certificates. -/
structure TlsConfig where
  certificates : List Certificate
  privateKey : List UInt8
  clientRoots : List Certificate
  deriving DecidableEq

/-- `tcp::Server`, bound. -/
structure Server where
  settings : Tcp.Settings
  tls : TlsConfig
  state : AppState

/-- The steps that succeed, or fail with a text. -/
inductive Step where
  | initLogger
  | newAuthClient (base : String)
  | connectDatabase (url : String)
  | migrate
  | bindTcp (address : String)
  | openFile (path : String)
  | addRoot (certificate : Certificate)
  | buildVerifier (roots : List Certificate)
  | singleCert (chain : List Certificate) (key : List UInt8)
  | loadCredentials (path : String)
  | connectNats (url : String)
  | parseAddr (address : String)
  | bindHttp (address : String)
  | serve (address : String) (cors : CorsLayer) (state : AppState)

/-- What `main` asks of its surroundings. -/
inductive StartCall where
  | attempt (s : Step)
  | certificates (path : String)
  | privateKey (path : String)
  | getStream (name : String)
  | getConsumer (stream name : String)
  | spawnTcp (server : Server)
  | spawnNats (worker : Nats.Worker)

/-- The reply of each call. -/
abbrev StartCall.Reply : StartCall → Type
  | .attempt _ => Except String Unit
  | .certificates _ => Except String (List Certificate)
  | .privateKey _ => Except String (Option (List UInt8))
  | .getStream _ => Except String Nats.StreamConfig
  | .getConsumer _ _ => Except String Nats.ConsumerConfig
  | .spawnTcp _ => Unit
  | .spawnNats _ => Unit

/-- The signature of the start. -/
abbrev startSig : Signature := ⟨StartCall, StartCall.Reply⟩

/-- Programs of the start. -/
abbrev StartM := ExceptT String (Prog startSig)

/-- A call, with what is made of its reply. -/
def fetch {α : Type} (c : StartCall) (read : c.Reply → Except String α) : StartM α := do
  let r ← Prog.perform (S := startSig) c
  Prog.ofExcept (read r)

/-- A step with `?`. -/
def attempt (s : Step) : StartM Unit := fetch (.attempt s) id

/-- `.context(message)?`. -/
def context {α : Type} (message : String) (x : StartM α) : StartM α :=
  ExceptT.adapt (fun _ => message) x

/-- A check with `?`, and that it passed. -/
def ensureOk (r : Except String Unit) : StartM (PLift (r = .ok ())) :=
  match r with
  | .ok () => pure ⟨rfl⟩
  | .error e => throw e

/-! ### The parts -/

/-- `AuthService::from_env`. -/
def authService (env : Environment) : StartM AuthService := do
  let s ← Prog.ofExcept (AuthSettings.fromEnv env)
  context "Shared Auth client configuration is invalid" (attempt (.newAuthClient s.base))
  return ⟨s.issuer, s.audience⟩

/-- `CaseService::from_env`. -/
def caseService (env : Environment) : StartM Unit := do
  let url ← Prog.ofExcept (databaseUrl env)
  context "database connection failed" (attempt (.connectDatabase url))

/-- `load_tls_config`. -/
def loadTlsConfig (s : Tcp.Settings) : StartM TlsConfig := do
  context "open mTLS server certificate" (attempt (.openFile s.certificatePath))
  let certificates ← context "parse mTLS server certificate"
    (fetch (.certificates s.certificatePath) id)
  Prog.ofExcept (Nats.ensure (certificates ≠ []) "server certificate chain is empty")
  context "open mTLS server key" (attempt (.openFile s.privateKeyPath))
  let key ← context "parse mTLS server key" (fetch (.privateKey s.privateKeyPath) id)
  let privateKey ← Prog.ofExcept (match key with
    | some key => .ok key
    | none => .error "mTLS server key is missing")
  context "open mTLS client CA" (attempt (.openFile s.clientCaPath))
  let clientCas ← context "parse mTLS client CA" (fetch (.certificates s.clientCaPath) id)
  Prog.ofExcept (Nats.ensure (clientCas ≠ []) "client CA bundle is empty")
  clientCas.forM fun certificate =>
    context "invalid mTLS client CA" (attempt (.addRoot certificate))
  context "build mandatory client-certificate verifier" (attempt (.buildVerifier clientCas))
  context "mTLS certificate and key do not match" (attempt (.singleCert certificates privateKey))
  return ⟨certificates, privateKey, clientCas⟩

/-- `tcp::Server::bind`. -/
def bindServer (s : Tcp.Settings) (state : AppState) : StartM Server := do
  context s!"bind Apostille Me mTLS service at {s.bind}" (attempt (.bindTcp s.bind))
  let tls ← loadTlsConfig s
  return ⟨s, tls, state⟩

/-- `nats::Worker::connect`. -/
def connectWorker (s : Nats.Settings) : StartM Nats.Worker := do
  Prog.ofExcept s.toConfig.validate
  context "load NATS credentials" (attempt (.loadCredentials s.credentialsPath))
  context "connect to NATS over TLS" (attempt (.connectNats s.url))
  let requestStream ← context "get pre-provisioned request stream"
    (fetch (.getStream s.requestStream) id)
  let hrequest ← ensureOk (Nats.validateRequestStream requestStream)
  let responseStream ← context "get pre-provisioned response stream"
    (fetch (.getStream s.responseStream) id)
  let hresponse ← ensureOk (Nats.validateResponseStream responseStream)
  let consumer ← fetch (.getConsumer s.requestStream s.consumer) fun r =>
    r.mapError fun error => s!"get pre-provisioned durable consumer: {error}"
  let hconsumer ← ensureOk (Nats.validateConsumer consumer s.consumer)
  return ⟨requestStream, responseStream, consumer, s.consumer, hrequest.down, hresponse.down,
    hconsumer.down⟩

/-- The first part of `start_optional_transports`. -/
def startTcp (env : Environment) (state : AppState) : StartM Unit := do
  match ← Prog.ofExcept (Tcp.Settings.fromEnv env) with
  | none => pure ()
  | some s =>
    let server ← bindServer s state
    fetch (.spawnTcp server) .ok

/-- The second part of `start_optional_transports`. -/
def startNats (env : Environment) : StartM Unit := do
  match ← Prog.ofExcept (Nats.Settings.fromEnv env) with
  | none => pure ()
  | some s =>
    let worker ← connectWorker s
    fetch (.spawnNats worker) .ok

/-- The address on which HTTP is served. -/
def bindAddr (env : Environment) : String := (env "BIND_ADDR").getD "127.0.0.1:8080"

/-- `main`. -/
def main (env : Environment) : StartM Unit := do
  attempt .initLogger
  let auth ← authService env
  caseService env
  context "persistence unavailable" (attempt .migrate)
  let cors ← Prog.ofExcept (corsLayerFromEnv env)
  startTcp env ⟨auth⟩
  startNats env
  attempt (.parseAddr (bindAddr env))
  attempt (.bindHttp (bindAddr env))
  attempt (.serve (bindAddr env) cors ⟨auth⟩)

/-! ### Histories of a start -/

/-- The surroundings answer as they please. -/
abbrev startMachine : Machine startSig := ⟨Unit, (c : StartCall) → c.Reply, fun i c s => (i c, s)⟩

/-- The calls of a start. -/
abbrev StartHistory := List (Obs startMachine)

/-- A call got this reply. -/
def Got (h : StartHistory) (c : StartCall) (r : c.Reply) : Prop :=
  ∃ i, (⟨i, (), c⟩ : Obs startMachine) ∈ h ∧ i c = r

theorem Got.mono {h h' : StartHistory} {c : StartCall} {r : c.Reply} (hg : Got h c r)
    (hsub : h ⊆ h') : Got h' c r := by
  obtain ⟨i, hmem, hr⟩ := hg
  exact ⟨i, hsub hmem, hr⟩

/-- A step succeeded. -/
abbrev Done (h : StartHistory) (s : Step) : Prop := Got h (.attempt s) (.ok ())

section Rules

variable {α β : Type} {G : StartHistory → Obs startMachine → Prop} {h : StartHistory}

theorem ok_context {P : StartHistory → α → Prop} {message : String} {x : StartM α}
    (hx : wp G (Ok P) x.run h) : wp G (Ok P) (context message x).run h :=
  ok_adapt hx

theorem ok_ensureOk {r : Except String Unit} {P : StartHistory → PLift (r = .ok ()) → Prop}
    (hr : ∀ hok : r = .ok (), P h ⟨hok⟩) : wp G (Ok P) (ensureOk r).run h := by
  cases r with
  | ok u => exact hr rfl
  | error e => trivial

/-- A call, and what its reply is read as. -/
theorem ok_fetch {c : StartCall} {read : c.Reply → Except String α} {P : StartHistory → α → Prop}
    (hG : ∀ i, G h ⟨i, (), c⟩)
    (hP : ∀ h' r a, h ⊆ h' → Got h' c r → read r = .ok a → P h' a) :
    wp G (Ok P) (fetch c read).run h := by
  refine ok_bind ?_
  rw [wp_run_lift]
  change ∀ i s, G h ⟨i, s, c⟩ ∧
    wp G (Ok P) (Prog.ofExcept (read (i c))).run (h ++ [⟨i, s, c⟩])
  refine fun i s => ⟨hG i, ok_ofExcept fun a ha => ?_⟩
  exact hP _ (i c) a (List.subset_append_left _ _) ⟨i, by simp, rfl⟩ ha

/-- A step that has to succeed. -/
theorem ok_attempt {s : Step} {P : StartHistory → Unit → Prop}
    (hG : ∀ i, G h ⟨i, (), .attempt s⟩)
    (hP : ∀ h', h ⊆ h' → Done h' s → P h' ()) : wp G (Ok P) (attempt s).run h := by
  refine ok_fetch hG fun h' r _ hsub hgot hr => hP h' hsub ?_
  obtain rfl : r = .ok () := hr
  exact hgot

end Rules

/-! ### What has succeeded -/

/-- The authentication of the process is configured. -/
def Authenticates (env : Environment) (h : StartHistory) (auth : AuthService) : Prop :=
  ∃ s, AuthSettings.fromEnv env = .ok s ∧ Done h (.newAuthClient s.base) ∧
    auth = ⟨s.issuer, s.audience⟩

/-- The database of the process is connected. -/
def Connected (env : Environment) (h : StartHistory) : Prop :=
  ∃ url, databaseUrl env = .ok url ∧ Done h (.connectDatabase url)

/-- **Prepared**: authentication is configured, the database is connected and migrated, and the
origins are accepted. -/
structure Prepared (env : Environment) (h : StartHistory) (auth : AuthService) : Prop where
  auth : Authenticates env h auth
  connected : Connected env h
  migrated : Done h .migrate
  cors : ∃ cors, corsLayerFromEnv env = .ok cors

/-- **The address of the framed transport is bound**: it is configured, within its bounds. -/
structure TcpBound (env : Environment) (h : StartHistory) (s : Tcp.Settings) : Prop where
  settings : Tcp.Settings.fromEnv env = .ok (some s)
  bounded : Tcp.Bounded s.toListenerConfig
  bound : Done h (.bindTcp s.bind)

/-- **A TLS configuration that was loaded**: the chain, the key and the roots of the client
certificates are those of the files, none is empty, and the verifier was built from the roots. -/
structure TlsReady (h : StartHistory) (s : Tcp.Settings) (tls : TlsConfig) : Prop where
  chain : Got h (.certificates s.certificatePath) (.ok tls.certificates)
  chain_ne : tls.certificates ≠ []
  key : Got h (.privateKey s.privateKeyPath) (.ok (some tls.privateKey))
  roots : Got h (.certificates s.clientCaPath) (.ok tls.clientRoots)
  roots_ne : tls.clientRoots ≠ []
  added : ∀ c ∈ tls.clientRoots, Done h (.addRoot c)
  verifier : Done h (.buildVerifier tls.clientRoots)
  matching : Done h (.singleCert tls.certificates tls.privateKey)

/-- **The framed transport can start**: it is bound to its address and has its TLS configuration. -/
structure TcpReady (env : Environment) (h : StartHistory) (server : Server) : Prop
    extends TcpBound env h server.settings where
  tls : TlsReady h server.settings server.tls

/-- **The broker is connected**: it is configured, the connection is over TLS, and the credentials
are those of the file. -/
structure BrokerConnected (env : Environment) (h : StartHistory) (s : Nats.Settings) : Prop where
  settings : Nats.Settings.fromEnv env = .ok (some s)
  url : Nats.TlsUrl s.url
  credentials : Done h (.loadCredentials s.credentialsPath)
  connected : Done h (.connectNats s.url)

/-- **The status avenue can start**: its streams and its consumer are the ones that the broker
reported. -/
structure NatsReady (env : Environment) (h : StartHistory) (s : Nats.Settings)
    (worker : Nats.Worker) : Prop extends BrokerConnected env h s where
  requestStream : Got h (.getStream s.requestStream) (.ok worker.requestStream)
  responseStream : Got h (.getStream s.responseStream) (.ok worker.responseStream)
  consumer : Got h (.getConsumer s.requestStream s.consumer) (.ok worker.consumer)
  name : worker.name = s.consumer
  accepted : Nats.Worker.connect s.toConfig worker.requestStream worker.responseStream
    worker.consumer = .ok worker

/-- **The transports are up** that are configured. -/
structure Up (env : Environment) (h : StartHistory) : Prop where
  tcp : ∃ r, Tcp.Settings.fromEnv env = .ok r ∧
    ∀ s, r = some s → ∃ server, server.settings = s ∧ Got h (.spawnTcp server) ()
  nats : ∃ r, Nats.Settings.fromEnv env = .ok r ∧
    ∀ s, r = some s → ∃ worker : Nats.Worker, worker.name = s.consumer ∧
      Got h (.spawnNats worker) ()

/-- **The guard of a call**: what was read and what has succeeded before it. -/
def Guarded (env : Environment) (h : StartHistory) (o : Obs startMachine) : Prop :=
  match o.call with
  | .attempt .initLogger => h = []
  | .attempt (.newAuthClient base) => ∃ s, AuthSettings.fromEnv env = .ok s ∧ base = s.base
  | .attempt (.connectDatabase url) =>
      (∃ auth, Authenticates env h auth) ∧ databaseUrl env = .ok url
  | .attempt .migrate => (∃ auth, Authenticates env h auth) ∧ Connected env h
  -- the framed transport
  | .attempt (.bindTcp address) => (∃ auth, Prepared env h auth) ∧
      ∃ s, Tcp.Settings.fromEnv env = .ok (some s) ∧ Tcp.Bounded s.toListenerConfig ∧
        address = s.bind
  | .attempt (.openFile path) => ∃ s, TcpBound env h s ∧
      path ∈ [s.certificatePath, s.privateKeyPath, s.clientCaPath]
  | .certificates path => ∃ s, TcpBound env h s ∧ path ∈ [s.certificatePath, s.clientCaPath] ∧
      Done h (.openFile path)
  | .privateKey path => ∃ s, TcpBound env h s ∧ path = s.privateKeyPath ∧ Done h (.openFile path)
  | .attempt (.addRoot certificate) => ∃ s roots, TcpBound env h s ∧
      Got h (.certificates s.clientCaPath) (.ok roots) ∧ certificate ∈ roots
  | .attempt (.buildVerifier roots) => ∃ s, TcpBound env h s ∧
      Got h (.certificates s.clientCaPath) (.ok roots) ∧ roots ≠ [] ∧
        ∀ c ∈ roots, Done h (.addRoot c)
  | .attempt (.singleCert chain key) => ∃ s roots, TcpBound env h s ∧
      Got h (.certificates s.certificatePath) (.ok chain) ∧ chain ≠ [] ∧
        Got h (.privateKey s.privateKeyPath) (.ok (some key)) ∧ Done h (.buildVerifier roots)
  | .spawnTcp server => Prepared env h server.state.auth ∧ TcpReady env h server
  -- the status avenue
  | .attempt (.loadCredentials path) => (∃ auth, Prepared env h auth) ∧
      ∃ s, Nats.Settings.fromEnv env = .ok (some s) ∧ Nats.TlsUrl s.url ∧ path = s.credentialsPath
  | .attempt (.connectNats url) => ∃ s, Nats.Settings.fromEnv env = .ok (some s) ∧
      Nats.TlsUrl url ∧ url = s.url ∧ Done h (.loadCredentials s.credentialsPath)
  | .getStream name => ∃ s, BrokerConnected env h s ∧ name ∈ [s.requestStream, s.responseStream]
  | .getConsumer stream name => ∃ s, BrokerConnected env h s ∧ stream = s.requestStream ∧
      name = s.consumer
  | .spawnNats worker => (∃ auth, Prepared env h auth) ∧ ∃ s, NatsReady env h s worker
  -- HTTP
  | .attempt (.parseAddr address) => (∃ auth, Prepared env h auth) ∧ Up env h ∧
      address = bindAddr env
  | .attempt (.bindHttp address) => (∃ auth, Prepared env h auth) ∧ Up env h ∧
      address = bindAddr env ∧ Done h (.parseAddr address)
  | .attempt (.serve address cors state) => Prepared env h state.auth ∧ Up env h ∧
      corsLayerFromEnv env = .ok cors ∧ address = bindAddr env ∧ Done h (.bindHttp address)

theorem Authenticates.mono {env : Environment} {h h' : StartHistory} {auth : AuthService}
    (ha : Authenticates env h auth) (hsub : h ⊆ h') : Authenticates env h' auth := by
  obtain ⟨s, hs, hclient, hauth⟩ := ha
  exact ⟨s, hs, hclient.mono hsub, hauth⟩

theorem Connected.mono {env : Environment} {h h' : StartHistory} (hc : Connected env h)
    (hsub : h ⊆ h') : Connected env h' := by
  obtain ⟨url, hurl, hdone⟩ := hc
  exact ⟨url, hurl, hdone.mono hsub⟩

theorem Prepared.mono {env : Environment} {h h' : StartHistory} {auth : AuthService}
    (hp : Prepared env h auth) (hsub : h ⊆ h') : Prepared env h' auth :=
  ⟨hp.auth.mono hsub, hp.connected.mono hsub, hp.migrated.mono hsub, hp.cors⟩

theorem TcpBound.mono {env : Environment} {h h' : StartHistory} {s : Tcp.Settings}
    (hb : TcpBound env h s) (hsub : h ⊆ h') : TcpBound env h' s :=
  ⟨hb.settings, hb.bounded, hb.bound.mono hsub⟩

theorem BrokerConnected.mono {env : Environment} {h h' : StartHistory} {s : Nats.Settings}
    (hb : BrokerConnected env h s) (hsub : h ⊆ h') : BrokerConnected env h' s :=
  ⟨hb.settings, hb.url, hb.credentials.mono hsub, hb.connected.mono hsub⟩

theorem Up.mono {env : Environment} {h h' : StartHistory} (hu : Up env h) (hsub : h ⊆ h') :
    Up env h' where
  tcp := by
    obtain ⟨r, hr, hup⟩ := hu.tcp
    refine ⟨r, hr, fun s hs => ?_⟩
    obtain ⟨server, hserver, hgot⟩ := hup s hs
    exact ⟨server, hserver, hgot.mono hsub⟩
  nats := by
    obtain ⟨r, hr, hup⟩ := hu.nats
    refine ⟨r, hr, fun s hs => ?_⟩
    obtain ⟨worker, hworker, hgot⟩ := hup s hs
    exact ⟨worker, hworker, hgot.mono hsub⟩

/-! ### The parts -/

section Parts

variable {env : Environment} {h : StartHistory}

theorem authService_ok {P : StartHistory → AuthService → Prop}
    (hP : ∀ h' auth, h ⊆ h' → Authenticates env h' auth → P h' auth) :
    wp (Guarded env) (Ok P) (authService env).run h := by
  refine ok_bind (ok_ofExcept fun s hs => ?_)
  refine ok_bind (ok_context (ok_attempt (fun _ => ⟨s, hs, rfl⟩) fun h' hsub hdone => ?_))
  exact hP h' _ hsub ⟨s, hs, hdone, rfl⟩

theorem caseService_ok {auth : AuthService} {P : StartHistory → Unit → Prop}
    (hauth : Authenticates env h auth) (hP : ∀ h', h ⊆ h' → Connected env h' → P h' ()) :
    wp (Guarded env) (Ok P) (caseService env).run h := by
  refine ok_bind (ok_ofExcept fun url hurl => ?_)
  exact ok_context <| ok_attempt (fun _ => ⟨⟨auth, hauth⟩, hurl⟩) fun h' hsub hdone =>
    hP h' hsub ⟨url, hurl, hdone⟩

/-- The roots are added one after the other. The induction is on the roots that are left. -/
theorem addRoots_ok {s : Tcp.Settings} {all : List Certificate} {P : StartHistory → Unit → Prop}
    (hbound : TcpBound env h s) (hall : Got h (.certificates s.clientCaPath) (.ok all))
    (roots : List Certificate) (hroots : roots ⊆ all)
    (hP : ∀ h', h ⊆ h' → (∀ c ∈ roots, Done h' (.addRoot c)) → P h' ()) :
    wp (Guarded env) (Ok P) (roots.forM fun certificate =>
      context "invalid mTLS client CA" (attempt (.addRoot certificate))).run h := by
  induction roots generalizing h with
  | nil => exact hP h (List.Subset.refl h) (by simp)
  | cons c roots ih =>
    obtain ⟨hc, hroots⟩ := List.cons_subset.mp hroots
    refine ok_bind (ok_context (ok_attempt (fun _ => ⟨s, all, hbound, hall, hc⟩)
      fun h' hsub hdone => ?_))
    refine ih (hbound.mono hsub) (hall.mono hsub) hroots fun h'' hsub' hadded =>
      hP h'' (List.Subset.trans hsub hsub') fun c' hc' => ?_
    rcases List.mem_cons.mp hc' with rfl | hc'
    · exact hdone.mono hsub'
    · exact hadded c' hc'

/-- A file of certificates is opened and read, and is not empty. -/
theorem certificates_ok {β : Type} {s : Tcp.Settings} {path opening parsing empty : String}
    {k : List Certificate → StartM β} {P : StartHistory → β → Prop} (hbound : TcpBound env h s)
    (hpath : path ∈ [s.certificatePath, s.clientCaPath])
    (hk : ∀ h' certificates, h ⊆ h' → Got h' (.certificates path) (.ok certificates) →
      certificates ≠ [] → wp (Guarded env) (Ok P) (k certificates).run h') :
    wp (Guarded env) (Ok P) (do
      context opening (attempt (.openFile path))
      let certificates ← context parsing (fetch (.certificates path) id)
      Prog.ofExcept (Nats.ensure (certificates ≠ []) empty)
      k certificates : StartM β).run h := by
  have hfile : path ∈ [s.certificatePath, s.privateKeyPath, s.clientCaPath] := by
    simp only [List.mem_cons, List.not_mem_nil, or_false] at hpath ⊢
    exact hpath.imp id .inr
  refine ok_bind (ok_context (ok_attempt (fun _ => ⟨s, hbound, hfile⟩) fun h₁ hsub₁ hopened => ?_))
  refine ok_bind (ok_context (ok_fetch (fun _ => ⟨s, hbound.mono hsub₁, hpath, hopened⟩)
    fun h₂ r certificates hsub₂ hread hr => ?_))
  obtain rfl : r = .ok certificates := hr
  refine ok_bind (ok_ofExcept fun _ hne => ?_)
  exact hk h₂ certificates (List.Subset.trans hsub₁ hsub₂) hread (Nats.ensure_eq_ok.mp hne)

/-- **The TLS configuration.** What each step finds is still known at the end. -/
theorem loadTlsConfig_ok {s : Tcp.Settings} {P : StartHistory → TlsConfig → Prop}
    (hbound : TcpBound env h s) (hP : ∀ h' tls, h ⊆ h' → TlsReady h' s tls → P h' tls) :
    wp (Guarded env) (Ok P) (loadTlsConfig s).run h := by
  refine certificates_ok hbound (by simp) fun h₁ chain hsub₁ hchain hchain_ne => ?_
  have hbound := hbound.mono hsub₁
  refine ok_bind (ok_context (ok_attempt (fun _ => ⟨s, hbound, by simp⟩)
    fun h₂ hsub₂ hopened => ?_))
  have hbound := hbound.mono hsub₂
  refine ok_bind (ok_context (ok_fetch (fun _ => ⟨s, hbound, rfl, hopened⟩)
    fun h₃ r found hsub₃ hkey hr => ?_))
  obtain rfl : r = .ok found := hr
  refine ok_bind (ok_ofExcept fun key hfound => ?_)
  obtain rfl : found = some key := by
    cases found with
    | none => cases hfound
    | some k => rw [Except.ok.inj hfound]
  have hbound := hbound.mono hsub₃
  refine certificates_ok hbound (by simp) fun h₄ roots hsub₄ hroots hroots_ne => ?_
  have hbound := hbound.mono hsub₄
  refine ok_bind (addRoots_ok hbound hroots roots (List.Subset.refl roots)
    fun h₅ hsub₅ hadded => ?_)
  have hbound := hbound.mono hsub₅
  refine ok_bind (ok_context (ok_attempt
    (fun _ => ⟨s, hbound, hroots.mono hsub₅, hroots_ne, hadded⟩) fun h₆ hsub₆ hverifier => ?_))
  have hbound := hbound.mono hsub₆
  have hsub₄₆ : h₄ ⊆ h₆ := List.Subset.trans hsub₅ hsub₆
  have hsub₃₆ : h₃ ⊆ h₆ := List.Subset.trans hsub₄ hsub₄₆
  have hsub₁₆ : h₁ ⊆ h₆ := List.Subset.trans hsub₂ (List.Subset.trans hsub₃ hsub₃₆)
  have hchain := hchain.mono hsub₁₆
  have hkey := hkey.mono hsub₃₆
  refine ok_bind (ok_context (ok_attempt
    (fun _ => ⟨s, roots, hbound, hchain, hchain_ne, hkey, hverifier⟩) fun h₇ hsub₇ hmatching => ?_))
  have hsub₅₇ : h₅ ⊆ h₇ := List.Subset.trans hsub₆ hsub₇
  have hsub₄₇ : h₄ ⊆ h₇ := List.Subset.trans hsub₅ hsub₅₇
  refine hP h₇ _ (List.Subset.trans hsub₁ (List.Subset.trans hsub₁₆ hsub₇)) ?_
  exact ⟨hchain.mono hsub₇, hchain_ne, hkey.mono hsub₇, hroots.mono hsub₄₇, hroots_ne,
    fun c hc => (hadded c hc).mono hsub₅₇, hverifier.mono hsub₇, hmatching⟩

/-- **The worker.** What it carries is what the checks of `connect` accept. -/
theorem connectWorker_ok {auth : AuthService} {s : Nats.Settings}
    {P : StartHistory → Nats.Worker → Prop} (hprepared : Prepared env h auth)
    (hs : Nats.Settings.fromEnv env = .ok (some s))
    (hP : ∀ h' worker, h ⊆ h' → NatsReady env h' s worker → P h' worker) :
    wp (Guarded env) (Ok P) (connectWorker s).run h := by
  refine ok_bind (ok_ofExcept fun _ hvalid => ?_)
  have hurl := Nats.Config.tlsUrl hvalid
  refine ok_bind (ok_context (ok_attempt (fun _ => ⟨⟨auth, hprepared⟩, s, hs, hurl, rfl⟩)
    fun h₁ hsub₁ hcredentials => ?_))
  refine ok_bind (ok_context (ok_attempt (fun _ => ⟨s, hs, hurl, rfl, hcredentials⟩)
    fun h₂ hsub₂ hconnected => ?_))
  have hbroker : BrokerConnected env h₂ s := ⟨hs, hurl, hcredentials.mono hsub₂, hconnected⟩
  refine ok_bind (ok_context (ok_fetch (fun _ => ⟨s, hbroker, by simp⟩)
    fun h₃ r request hsub₃ hrequest hr => ?_))
  obtain rfl : r = .ok request := hr
  refine ok_bind (ok_ensureOk fun hrequest_valid => ?_)
  refine ok_bind (ok_context (ok_fetch (fun _ => ⟨s, hbroker.mono hsub₃, by simp⟩)
    fun h₄ r response hsub₄ hresponse hr => ?_))
  obtain rfl : r = .ok response := hr
  refine ok_bind (ok_ensureOk fun hresponse_valid => ?_)
  have hsub₂₄ : h₂ ⊆ h₄ := List.Subset.trans hsub₃ hsub₄
  refine ok_bind (ok_fetch (fun _ => ⟨s, hbroker.mono hsub₂₄, rfl, rfl⟩)
    fun h₅ r consumer hsub₅ hconsumer hr => ?_)
  obtain rfl : r = .ok consumer := by
    cases r with
    | error e => cases hr
    | ok c => rw [Except.ok.inj hr]
  refine ok_bind (ok_ensureOk fun hconsumer_valid => ?_)
  have hsub₃₅ : h₃ ⊆ h₅ := List.Subset.trans hsub₄ hsub₅
  have hsub₂₅ : h₂ ⊆ h₅ := List.Subset.trans hsub₃ hsub₃₅
  refine hP h₅ _ (List.Subset.trans hsub₁ (List.Subset.trans hsub₂ hsub₂₅))
    ⟨hbroker.mono hsub₂₅, hrequest.mono hsub₃₅, hresponse.mono hsub₅, hconsumer, rfl, ?_⟩
  exact Nats.Worker.connect_eq_ok hvalid ⟨request, response, consumer, s.consumer, hrequest_valid,
    hresponse_valid, hconsumer_valid⟩ rfl

/-- The framed transport is started with all that it needs, when it is configured. -/
theorem startTcp_ok {state : AppState} {P : StartHistory → Unit → Prop}
    (hprepared : Prepared env h state.auth)
    (hP : ∀ h', h ⊆ h' → (∃ r, Tcp.Settings.fromEnv env = .ok r ∧ ∀ s, r = some s →
      ∃ server, server.settings = s ∧ Got h' (.spawnTcp server) ()) → P h' ()) :
    wp (Guarded env) (Ok P) (startTcp env state).run h := by
  refine ok_bind (ok_ofExcept fun r hr => ?_)
  cases r with
  | none => exact hP h (List.Subset.refl h) ⟨none, hr, fun s hs => by cases hs⟩
  | some s =>
    have hbounded := Tcp.Settings.bounded hr
    refine ok_bind (ok_bind (ok_context (ok_attempt
      (fun _ => ⟨⟨state.auth, hprepared⟩, s, hr, hbounded, rfl⟩) fun h₁ hsub₁ hdone => ?_)))
    have hbound : TcpBound env h₁ s := ⟨hr, hbounded, hdone⟩
    refine ok_bind (loadTlsConfig_ok hbound fun h₂ tls hsub₂ htls => ?_)
    have hsub₀₂ : h ⊆ h₂ := List.Subset.trans hsub₁ hsub₂
    refine ok_fetch (fun _ => ⟨hprepared.mono hsub₀₂, hbound.mono hsub₂, htls⟩)
      fun h₃ _ _ hsub₃ hspawned _ => ?_
    refine hP h₃ (List.Subset.trans hsub₀₂ hsub₃) ⟨some s, hr, fun s' hs' => ?_⟩
    exact ⟨_, Option.some.inj hs', hspawned⟩

/-- The status avenue is started with all that it needs, when it is configured. -/
theorem startNats_ok {auth : AuthService} {P : StartHistory → Unit → Prop}
    (hprepared : Prepared env h auth)
    (hP : ∀ h', h ⊆ h' → (∃ r, Nats.Settings.fromEnv env = .ok r ∧ ∀ s, r = some s →
      ∃ worker : Nats.Worker, worker.name = s.consumer ∧ Got h' (.spawnNats worker) ()) →
        P h' ()) :
    wp (Guarded env) (Ok P) (startNats env).run h := by
  refine ok_bind (ok_ofExcept fun r hr => ?_)
  cases r with
  | none => exact hP h (List.Subset.refl h) ⟨none, hr, fun s hs => by cases hs⟩
  | some s =>
    refine ok_bind (connectWorker_ok hprepared hr fun h₁ worker hsub₁ hworker => ?_)
    refine ok_fetch (fun _ => ⟨⟨auth, hprepared.mono hsub₁⟩, s, hworker⟩)
      fun h₂ _ _ hsub₂ hspawned _ => ?_
    refine hP h₂ (List.Subset.trans hsub₁ hsub₂) ⟨some s, hr, fun s' hs' => ?_⟩
    obtain rfl := Option.some.inj hs'
    exact ⟨worker, hworker.name, hspawned⟩

end Parts

/-! ### The whole start -/

/-- **Every call of a start** is guarded, and a start that ends without an error has served. -/
theorem main_ok (env : Environment) :
    wp (Guarded env) (Ok fun h _ => ∃ cors auth, Done h (.serve (bindAddr env) cors ⟨auth⟩))
      (main env).run [] := by
  refine ok_bind (ok_attempt (fun _ => rfl) fun h₀ _ _ => ?_)
  refine ok_bind (authService_ok fun h₁ auth _ hauth => ?_)
  refine ok_bind (caseService_ok hauth fun h₂ hsub₂ hconnected => ?_)
  refine ok_bind (ok_context (ok_attempt (fun _ => ⟨⟨auth, hauth.mono hsub₂⟩, hconnected⟩)
    fun h₃ hsub₃ hmigrated => ?_))
  refine ok_bind (ok_ofExcept fun cors hcors => ?_)
  have hprepared : Prepared env h₃ auth :=
    ⟨hauth.mono (List.Subset.trans hsub₂ hsub₃), hconnected.mono hsub₃, hmigrated, cors, hcors⟩
  refine ok_bind (startTcp_ok hprepared fun h₄ hsub₄ htcp => ?_)
  refine ok_bind (startNats_ok (hprepared.mono hsub₄) fun h₅ hsub₅ hnats => ?_)
  have hup : Up env h₅ := by
    obtain ⟨r, hr, hspawned⟩ := htcp
    refine ⟨⟨r, hr, fun s hs => ?_⟩, hnats⟩
    obtain ⟨server, hserver, hgot⟩ := hspawned s hs
    exact ⟨server, hserver, hgot.mono hsub₅⟩
  have hprepared := hprepared.mono (List.Subset.trans hsub₄ hsub₅)
  refine ok_bind (ok_attempt (fun _ => ⟨⟨auth, hprepared⟩, hup, rfl⟩) fun h₆ hsub₆ hparsed => ?_)
  have hprepared := hprepared.mono hsub₆
  have hup := hup.mono hsub₆
  refine ok_bind (ok_attempt (fun _ => ⟨⟨auth, hprepared⟩, hup, rfl, hparsed⟩)
    fun h₇ hsub₇ hbound => ?_)
  exact ok_attempt (fun _ => ⟨hprepared.mono hsub₇, hup.mono hsub₇, hcors, rfl, hbound⟩)
    fun h₈ _ hserved => ⟨cors, auth, hserved⟩

/-- **Startup.** In every execution of `main`, whatever the surroundings answer: each call was made
when what it needs had succeeded, and `main` ends without an error only when it has served. -/
theorem startup_guarded (env : Environment) {h : StartHistory}
    {q : Prog startSig (Except String Unit)} (hf : Follows (main env).run h q) :
    (∀ h₁ o h₂, h = h₁ ++ o :: h₂ → Guarded env h₁ o) ∧
      ∀ u, q = .pure (.ok u) →
        ∃ cors auth, Done h (.serve (bindAddr env) cors ⟨auth⟩) := by
  refine ⟨fun h₁ o h₂ he => hf.guarantee (main_ok env) he, ?_⟩
  rintro u rfl
  exact hf.result (main_ok env)

/-! ### Two starts -/

/-- All that has to be set, and an origin. -/
def httpSettings : List (String × String) :=
  [("SHARED_AUTH_BASE_URL", "https://auth.test"), ("SHARED_AUTH_ISSUER", " issuer "),
    ("SHARED_AUTH_AUDIENCE", "audience"), ("SHARED_AUTH_INTROSPECTION_CREDENTIAL", "credential"),
    ("DATABASE_URL", "postgres://db"), ("CORS_ALLOWED_ORIGINS", "https://app.apostille.me")]

/-- The environment of a process that serves HTTP only. -/
def httpEnvironment : Environment := fun name => httpSettings.lookup name

/-- The environment of a process with both optional transports. -/
def fullEnvironment : Environment := fun name => List.lookup name <| httpSettings ++
  [("APME_API_TCP_BIND", "0.0.0.0:9000"), ("APME_API_TCP_TLS_CERT_FILE", "/tls/server.pem"),
    ("APME_API_TCP_TLS_KEY_FILE", "/tls/server.key"),
    ("APME_API_TCP_CLIENT_CA_FILE", "/tls/ca.pem"),
    ("APME_API_TCP_MAX_CONNECTIONS", "+8"), ("APME_NATS_URL", "tls://broker:4222"),
    ("APME_NATS_CREDENTIALS_FILE", "/nats/creds")]

/-- Every step succeeds, and the broker has what the avenue needs. The verifier of client
certificates is built, as it is in a process with one provider of cryptography. -/
def cooperative : (c : StartCall) → c.Reply
  | .attempt _ => .ok ()
  | .certificates _ => .ok [[1]]
  | .privateKey _ => .ok (some [2])
  | .getStream name =>
    if name = "APME_STATUS_OUTBOX" then .ok ⟨.file, .workQueue, false, [Nats.requestSubject], 120⟩
    else .ok ⟨.file, .limits, true, [Nats.responseSubjectPrefix ++ ".*"], 120⟩
  | .getConsumer _ name => .ok ⟨none, some name, .explicit, Nats.requestSubject, 5, 64⟩
  | .spawnTcp _ => ()
  | .spawnNats _ => ()

/-- The calls of a start in which every step succeeds. -/
def start (env : Environment) : StartHistory :=
  (main env).run.trace startMachine (fun _ => cooperative) ()

theorem start_follows (env : Environment) : Follows (main env).run (start env)
    (.pure ((main env).run.run startMachine (fun _ => cooperative) ()).1) :=
  Prog.follows_trace (M := startMachine) (main env).run (fun _ => cooperative) ()

theorem httpStart_serves :
    ((main httpEnvironment).run.run startMachine (fun _ => cooperative) ()).1 = .ok () := by
  decide +kernel

/-- A process that serves HTTP. -/
theorem startup_guarded_http :
    (∀ h₁ o h₂, start httpEnvironment = h₁ ++ o :: h₂ → Guarded httpEnvironment h₁ o) ∧
      ∃ cors auth, Done (start httpEnvironment)
        (.serve (bindAddr httpEnvironment) cors ⟨auth⟩) := by
  have hguarded := startup_guarded httpEnvironment (start_follows httpEnvironment)
  exact ⟨hguarded.1, hguarded.2 () (congrArg Prog.pure httpStart_serves)⟩

end ApmeApi.Startup
