import ApmeApi.Service.AccessControl
import ApmeApi.Startup.Process
import ApmeApi.Transport.ConnectionBudget

/-!
# What a started process serves

The settings reach the requests: whatever a process was started with, the cases of a tenant are
accessed only for members whom the configured issuer vouches for to the configured audience
(`served_for_members`), and a listener that it started stays within absolute bounds, because no
environment configures it beyond them (`configured_listener_bounded`).
-/

namespace ApmeApi.Startup

open Interaction CaseService

variable {sql : SqlFunctions}

/-! ### The state of the service -/

/-- The process was told to serve in this state, over HTTP or on framed connections. -/
def Serves (h : StartHistory) (state : AppState) : Prop :=
  ∃ o ∈ h, (∃ address cors, o.call = .attempt (.serve address cors state)) ∨
    ∃ server, o.call = .spawnTcp server ∧ server.state = state

/-- The settings of authentication that were read. -/
theorem issuer_audience {env : Environment} {s : AuthSettings}
    (h : AuthSettings.fromEnv env = .ok s) :
    optionalEnv env "SHARED_AUTH_ISSUER" = some s.issuer ∧
      optionalEnv env "SHARED_AUTH_AUDIENCE" = some s.audience := by
  simp only [AuthSettings.fromEnv, bind, Except.bind] at h
  split at h
  · cases h
  split at h
  · cases h
  rename_i hissuer
  split at h
  · cases h
  rename_i haudience
  split at h
  · cases h
  obtain rfl := Except.ok.inj h
  exact ⟨requiredEnv_eq_ok.mp hissuer, requiredEnv_eq_ok.mp haudience⟩

/-- **A process serves with the authentication that is configured**, prepared. -/
theorem prepared_of_serves {env : Environment} {h : StartHistory}
    {q : Prog startSig (Except String Unit)} (hf : Follows (main env).run h q) {state : AppState}
    (hs : Serves h state) : ∃ h₁, Prepared env h₁ state.auth := by
  obtain ⟨o, ho, hcall⟩ := hs
  obtain ⟨h₁, h₂, he⟩ := List.append_of_mem ho
  have hguarded := hf.guarantee (main_ok env) he
  rcases hcall with ⟨address, cors, hserve⟩ | ⟨server, hspawn, rfl⟩
  · rw [Guarded, hserve] at hguarded
    exact ⟨h₁, hguarded.1⟩
  · rw [Guarded, hspawn] at hguarded
    exact ⟨h₁, hguarded.1⟩

section

variable [SharedAuth] [ApmeInterfaces]

/-- **Whom a process serves.** Start it with any environment, and let it serve in any run: the cases
of a tenant are accessed only for a caller whom, in the request at hand, introspection described as
active for the issuer and the audience of the environment, and the membership table as an active
member in a role that permits the request. -/
theorem served_for_members [Sha2] {env : Environment} {h : StartHistory}
    {q : Prog startSig (Except String Unit)} (hf : Follows (main env).run h q) {state : AppState}
    (hs : Serves h state) (w : World) (as : List (Action (apiSystem sql state))) {i : ℕ}
    {t : Task (apiSystem sql state)} (ht : ((Config.initial w).run as).tasks[i]? = some t)
    {h₁ h₂ : History sql} {o : Observed sql} (hh : t.history = h₁ ++ o :: h₂) {tenant : Uuid}
    (ho : o.call.access = some tenant) :
    ∃ issuer audience, optionalEnv env "SHARED_AUTH_ISSUER" = some issuer ∧
      optionalEnv env "SHARED_AUTH_AUDIENCE" = some audience ∧
      ∃ headers h' subject role, Presents t.request h₁ headers tenant h' ∧
        Authenticated ⟨issuer, audience⟩ headers t.request.scopes h' subject ∧
        ActiveMember h' tenant subject role ∧ t.request.permits role := by
  obtain ⟨h₀, hprepared⟩ := prepared_of_serves hf hs
  obtain ⟨s, hsettings, -, hauth⟩ := hprepared.auth
  obtain ⟨hissuer, haudience⟩ := issuer_audience hsettings
  have hguarded : AccessGuarded state t.request h₁ o :=
    (Config.run_follows (Y := apiSystem sql state) w as ht).guarantee
      (run_accessGuarded state t.request) hh
  obtain ⟨headers, h', subject, role, hpresents, hacts⟩ := hguarded tenant ho
  have hauthenticated := hacts.authenticated
  rw [hauth] at hauthenticated
  exact ⟨s.issuer, s.audience, hissuer, haudience, headers, h', subject, role, hpresents,
    hauthenticated, hacts.member, hacts.permitted⟩

/-! ### The listener -/

/-- **The bounds of a listener.** Whatever the environment, a listener that the process started has
in every reachable state at most 4096 live connections, each of which has executed at most 4096
requests and, past its handshake, waits for its peer under a deadline of at most 300 seconds. -/
theorem configured_listener_bounded {env : Environment} {h : StartHistory}
    {q : Prog startSig (Except String Unit)} (hf : Follows (main env).run h q)
    {o : Obs startMachine} (ho : o ∈ h) {server : Server} (hspawn : o.call = .spawnTcp server)
    (w : World)
    (as : List (Action
      (Tcp.listenerSystem sql server.state server.settings.toListenerConfig))) :
    let config := server.settings.toListenerConfig
    let l : Tcp.Listener sql :=
      ((Config.initial (Tcp.Listener.initial sql config w)).run as).state
    l.connections.length ≤ 4096 ∧ ∀ t ∈ l.connections, Tcp.executed t.history ≤ 4096 ∧
      (t.waits = true → t.inHandshake = false →
        ∃ e, t.deadline config = some e ∧ l.now ≤ e ∧ e ≤ t.since + 300) := by
  intro config l
  obtain ⟨h₁, h₂, he⟩ := List.append_of_mem ho
  have hguarded := hf.guarantee (main_ok env) he
  rw [Guarded, hspawn] at hguarded
  obtain ⟨hconnections, hrequests, hidle⟩ := hguarded.2.bounded
  have hl : l.Sound server.state config :=
    Config.run_stable (Y := Tcp.listenerSystem sql server.state config)
      (F := Tcp.Listener.Sound server.state config)
      ⟨fun i c s hs => Tcp.exec_sound hs i c, fun a s hs => Tcp.env_sound hs a⟩ as
      (Tcp.initial_sound w)
  refine ⟨?_, fun t ht => ⟨?_, fun hwaits hpast => ?_⟩⟩
  · have hpermits : l.connections.length ≤ config.maxConnections :=
      (Nat.le_add_right _ _).trans_eq hl.permits
    exact hpermits.trans hconnections.2
  · have hexecuted : Tcp.executed t.history ≤ config.maxRequestsPerConnection :=
      Tcp.executed_le fun t₁ o t₂ he => (hl.follows t ht).guarantee
        (Tcp.connectionTask_withinBudget server.state config.toConfig) he
    exact hexecuted.trans hrequests.2
  · have hdeadline := Tcp.deadline_of_waits config hwaits hpast
    exact ⟨_, hdeadline, (hl.timely t ht).2 _ hdeadline, Nat.add_le_add_left hidle.2 _⟩

end

/-! ### Two starts -/

section

open Reference

/-- The authentication of the states in which HTTP is served. -/
def servedAuths (h : StartHistory) : List (String × String) :=
  h.filterMap fun o => match o.call with
    | .attempt (.serve _ _ state) => some (state.auth.issuer, state.auth.audience)
    | _ => none

theorem httpStart_servedAuths :
    servedAuths (start httpEnvironment) = [("issuer", "audience")] := by
  decide +kernel

/-- A process that serves HTTP serves in this state. -/
theorem httpStart_serves_state : Serves (start httpEnvironment) Reference.state := by
  have hmem : ("issuer", "audience") ∈ servedAuths (start httpEnvironment) := by
    rw [httpStart_servedAuths]
    exact List.mem_singleton_self _
  obtain ⟨o, ho, hcall⟩ := List.mem_filterMap.mp hmem
  refine ⟨o, ho, .inl ?_⟩
  split at hcall
  · rename_i address cors state hserve
    obtain ⟨hissuer, haudience⟩ := Prod.mk.inj (Option.some.inj hcall)
    have hstate : state = Reference.state :=
      congrArg AppState.mk (congrArg₂ AuthService.mk hissuer haudience)
    exact ⟨address, cors, hserve.trans (by rw [hstate])⟩
  · cases hcall

/-- It serves the member of the office. -/
theorem served_for_members_list : ∃ (t : Task (apiSystem Reference.sql Reference.state))
    (h₁ : History Reference.sql) (o : Observed Reference.sql) (issuer audience : String),
    ((Config.initial (World.initial office 0)).run listRun).tasks[0]? = some t ∧
      t.history = h₁ ++ [o] ∧ optionalEnv httpEnvironment "SHARED_AUTH_ISSUER" = some issuer ∧
      ∃ headers h' subject role, Presents t.request h₁ headers Uuid.nil h' ∧
        Authenticated ⟨issuer, audience⟩ headers t.request.scopes h' subject ∧
        ActiveMember h' Uuid.nil subject role := by
  obtain ⟨t, ht, hlast⟩ := Option.bind_eq_some_iff.mp listRun_access
  obtain ⟨o, ho, haccess⟩ := Option.bind_eq_some_iff.mp hlast
  have hh : t.history = t.history.dropLast ++ o :: [] :=
    (List.dropLast_append_getLast? o ho).symm
  obtain ⟨issuer, audience, hissuer, -, headers, h', subject, role, hpresents, hauth, hmember, -⟩ :=
    served_for_members (start_follows httpEnvironment) httpStart_serves_state _ listRun ht hh
      haccess
  exact ⟨t, _, o, issuer, audience, ht, hh, hissuer, headers, h', subject, role, hpresents, hauth,
    hmember⟩

/-- The servers of framed connections that are started. -/
def spawned (h : StartHistory) : List Server :=
  h.filterMap fun o => match o.call with
    | .spawnTcp server => some server
    | _ => none

/-- What is told of a server. -/
def serverSettings (server : Server) : (String × String) × Tcp.ListenerConfig :=
  ((server.state.auth.issuer, server.state.auth.audience), server.settings.toListenerConfig)

theorem fullStart_spawned : (spawned (start fullEnvironment)).map serverSettings =
    [(("issuer", "audience"), ⟨⟨64⟩, 8, 15⟩)] := by
  decide +kernel

/-- One server is started, where the verifier of client certificates is built. -/
theorem exists_spawned : ∃ o ∈ start fullEnvironment, ∃ server, o.call = .spawnTcp server ∧
    server.state = Reference.state := by
  have hmem : (("issuer", "audience"), (⟨⟨64⟩, 8, 15⟩ : Tcp.ListenerConfig)) ∈
      (spawned (start fullEnvironment)).map serverSettings := by
    rw [fullStart_spawned]
    exact List.mem_singleton_self _
  obtain ⟨server, hserver, hsettings⟩ := List.mem_map.mp hmem
  obtain ⟨o, ho, hcall⟩ := List.mem_filterMap.mp hserver
  obtain ⟨hissuer, haudience⟩ := Prod.mk.inj (Prod.mk.inj hsettings).1
  refine ⟨o, ho, server, ?_, congrArg AppState.mk (congrArg₂ AuthService.mk hissuer haudience)⟩
  split at hcall
  · rename_i server' hspawn
    rw [hspawn, Option.some.inj hcall]
  · cases hcall

/-- Its listener, when a peer has connected, time has passed, and another peer has connected. -/
theorem configured_listener_bounded_full : ∃ server : Server, server.state = Reference.state ∧
    ((Config.initial (Y := Tcp.listenerSystem Reference.sql server.state
        server.settings.toListenerConfig) (Tcp.Listener.initial Reference.sql
      server.settings.toListenerConfig (World.initial office 0))).run
        [.start 2, .call 0 .accepted, .call 0 .accepted, .env (.elapse 1000), .call 0 .accepted,
          .call 0 .accepted]).state.connections.length ≤ 4096 := by
  obtain ⟨o, ho, server, hspawn, hstate⟩ := exists_spawned
  exact ⟨server, hstate,
    (configured_listener_bounded (start_follows fullEnvironment) ho hspawn _ _).1⟩

end

end ApmeApi.Startup
