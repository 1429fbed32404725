import ApmeApi.Transport.Listener
import ApmeApi.Service.Reference

/-!
# The budget of the listener

`Budget` is what the listener owes to its peers: permits and live connections add up to
`maxConnections`, no connection executes more than `maxRequestsPerConnection` requests, and a
connection that waits for its peer has a deadline of `idleTimeout` that has not passed.

The first two hold in every reachable state, and so does the third for every connection past its
TLS handshake. The handshake itself waits without a deadline, so the budget holds exactly in the
states where no connection is in its handshake (`budget_iff`).
-/

namespace ApmeApi.Tcp

open Interaction

variable {sql : SqlFunctions}

/-! ### The requests of a connection -/

/-- Whether a call of a connection read a request. -/
def readsRequest (o : Obs (connectionMachine sql)) : Bool :=
  match o.call with
  | .serve (.readFrame codec) => match codec.decode o.input.service.read with
    | .frame _ => true
    | _ => false
  | _ => false

/-- The number of requests that a connection read, each of which it executes. -/
def executed (h : List (Obs (connectionMachine sql))) : ℕ := h.countP readsRequest

@[simp]
theorem wp_await {G : List (Obs (connectionMachine sql)) → Obs (connectionMachine sql) → Prop}
    (c : ConnectionCall) {Q : List (Obs (connectionMachine sql)) → c.Reply → Prop}
    (h : List (Obs (connectionMachine sql))) :
    @wp connectionSig (no_index c.Reply) (connectionMachine sql) G Q (await c) h ↔
      ∀ (i : ConnectionInput) (w : World), G h ⟨i, w, c⟩ ∧
        Q (h ++ [⟨i, w, c⟩]) (Obs.reply (M := connectionMachine sql) ⟨i, w, c⟩) :=
  Iff.rfl

@[simp]
theorem wp_embed_request
    {G : List (Obs (connectionMachine sql)) → Obs (connectionMachine sql) → Prop}
    (c : Call) {Q : List (Obs (connectionMachine sql)) → c.Reply → Prop}
    (h : List (Obs (connectionMachine sql))) :
    @wp connectionSig (no_index c.Reply) (connectionMachine sql) G Q
        (Prog.embed serviceCalls (request c)) h ↔
      ∀ (i : ConnectionInput) (w : World), G h ⟨i, w, .serve c⟩ ∧
        Q (h ++ [⟨i, w, .serve c⟩]) (Obs.reply (M := connectionMachine sql) ⟨i, w, .serve c⟩) :=
  Iff.rfl

/-- Calls that read no request leave the count as it is. -/
theorem executed_append {h t : List (Obs (connectionMachine sql))}
    (ht : ∀ o ∈ t, readsRequest o = false) : executed (h ++ t) = executed h := by
  have hzero : t.countP readsRequest = 0 := by
    rw [List.countP_eq_zero]
    intro o ho
    simp [ht o ho]
  simp [executed, hzero]

/-- A request is read only as long as fewer than `n` have been read. -/
def WithinBudget (n : ℕ) (h : List (Obs (connectionMachine sql)))
    (o : Obs (connectionMachine sql)) : Prop :=
  readsRequest o = true → executed h < n

theorem withinBudget_of_ne {n : ℕ} {h : List (Obs (connectionMachine sql))}
    {o : Obs (connectionMachine sql)} (ho : readsRequest o = false) : WithinBudget n h o := by
  rw [WithinBudget, ho]
  exact fun h => by cases h

/-- A history whose calls stay within a budget does. -/
theorem executed_le {n : ℕ} {h : List (Obs (connectionMachine sql))}
    (hh : ∀ t₁ o t₂, h = t₁ ++ o :: t₂ → WithinBudget n t₁ o) : executed h ≤ n := by
  induction h using List.reverseRecOn with
  | nil => exact Nat.zero_le n
  | append_singleton h o ih =>
    have hprev : executed h ≤ n := ih fun t₁ o' t₂ he => hh t₁ o' (t₂ ++ [o]) (by simp [he])
    have hlast : WithinBudget n h o := hh h o [] rfl
    cases hread : readsRequest o with
    | false => rwa [executed_append (by simpa using hread)]
    | true =>
      have hlt := hlast hread
      have hone : executed (h ++ [o]) = executed h + 1 := by simp [executed, hread]
      omega

/-- What a translated call answers, the call itself can answer. -/
theorem serviceCalls_reply (i : ConnectionInput) (w : World) (c : Call) :
    ∃ i' w', ((apiMachine sql).exec i' c w').1 =
      serviceCalls.reply c ((connectionMachine sql).exec i (serviceCalls.call c) w).1 :=
  ⟨i.service, w, rfl⟩

section

variable [SharedAuth] [ApmeInterfaces]

/-- `execute` reads no frames. -/
theorem execute_reads (sql : SqlFunctions) (state : AppState) (frame : List UInt8) :
    wp (fun _ (o : Observed sql) => ∀ codec, o.call ≠ .readFrame codec) (fun _ _ => True)
      (execute state frame) [] := by
  refine Tcp.execute_calls state frame (fun req _ h o ho codec hc => ?_)
    (fun req headers h subject context i w _ _ _ _ _ codec hc => by cases hc)
  rw [hc] at ho
  cases ho

/-- **The requests of a connection** stay within what is left of its budget. The induction is on the
budget. -/
theorem serveRequests_withinBudget (state : AppState) {N : ℕ} (n : ℕ)
    {h : List (Obs (connectionMachine sql))} (hh : executed h + n ≤ N) :
    wp (WithinBudget N) (fun _ _ => True)
      (Prog.embed serviceCalls (serveRequests state n).run) h := by
  induction n generalizing h with
  | zero => trivial
  | succ n ih =>
    rw [serveRequests_run_succ, Prog.embed_bind, wp_bind, wp_embed_request]
    refine fun i w => ⟨fun _ => by omega, ?_⟩
    have hread : executed (h ++ [(⟨i, w, .serve (.readFrame codec)⟩ :
        Obs (connectionMachine sql))]) ≤ executed h + 1 := by
      have hle := List.countP_le_length (p := readsRequest)
        (l := [(⟨i, w, .serve (.readFrame codec)⟩ : Obs (connectionMachine sql))])
      simp only [executed, List.countP_append]
      simpa using hle
    cases Obs.reply (M := connectionMachine sql) ⟨i, w, .serve (.readFrame codec)⟩ with
    | timedOut => trivial
    | ended => trivial
    | failed => trivial
    | frame frame =>
      simp only [Prog.embed_bind, wp_bind]
      have hexecute := wp_embed (N := connectionMachine sql) (E := serviceCalls)
        serviceCalls_reply (C := fun c => ∀ codec, c ≠ .readFrame codec)
        (execute_reads sql state frame) (h ++ [⟨i, w, .serve (.readFrame codec)⟩])
      -- `execute` reads no frame, so it leaves the count as it is
      have hquiet : ∀ o : Obs (connectionMachine sql),
          (∃ c, o.call = serviceCalls.call c ∧ ∀ codec, c ≠ .readFrame codec) →
            readsRequest o = false := by
        rintro ⟨i', w', c'⟩ ⟨c, rfl, hc⟩
        cases c with
        | readFrame codec => exact absurd rfl (hc codec)
        | _ => rfl
      refine wp_mono (wp_calls hexecute) (fun t o ho => withinBudget_of_ne (hquiet o ho)) ?_
      rintro t response ⟨⟨t', ht', hcalls⟩, -⟩
      obtain rfl := List.append_cancel_left ht'
      have hsame := executed_append (h := h ++ [⟨i, w, .serve (.readFrame codec)⟩])
        fun o ho => hquiet o (hcalls o ho)
      split
      · trivial
      · simp only [Prog.embed_bind, wp_bind, wp_embed_request]
        refine fun i' w' => ⟨withinBudget_of_ne rfl, ?_⟩
        cases Obs.reply (M := connectionMachine sql) ⟨i', w', .serve (.writeFrame codec response)⟩
          with
        | timedOut => trivial
        | failed message => trivial
        | written =>
          refine ih ?_
          rw [executed_append (t := [_]) (by simp [readsRequest]), hsame]
          omega

/-- **A connection executes at most `maxRequestsPerConnection` requests.** -/
theorem connectionTask_withinBudget (state : AppState) (config : Config) :
    wp (M := connectionMachine sql) (WithinBudget config.maxRequestsPerConnection)
      (fun _ _ => True) (connectionTask state config) [] := by
  simp only [connectionTask, wp_bind, wp_await]
  refine fun i w => ⟨withinBudget_of_ne rfl, ?_⟩
  cases Obs.reply (M := connectionMachine sql) ⟨i, w, .handshake⟩ with
  | false => trivial
  | true =>
    simp only [wp_bind]
    refine wp_post (serveRequests_withinBudget state _ (by simp [executed, readsRequest])) ?_
    rintro h (e | u) -
    · exact fun i' w' => ⟨withinBudget_of_ne rfl, trivial⟩
    · trivial

end

/-! ### The invariant of the listener -/

/-- A task has its deadline after the time of its last call. -/
theorem since_le_deadline {t : ConnectionTask sql} {config : ListenerConfig} {e : ℕ}
    (he : e ∈ t.deadline config) :
    t.since ≤ e := by
  rw [ConnectionTask.deadline] at he
  split at he
  · obtain ⟨d, -, rfl⟩ := Option.map_eq_some_iff.mp he
    exact Nat.le_add_right _ _
  · cases he

section

variable [SharedAuth] [ApmeInterfaces] {state : AppState} {config : ListenerConfig}

/-- **Soundness of the listener**: permits and connections add up, every live connection is an
execution of its task with a call left to make, and no deadline has passed. -/
structure Listener.Sound (state : AppState) (config : ListenerConfig) (l : Listener sql) :
    Prop where
  permits : l.connections.length + l.permits = config.maxConnections
  follows : ∀ t ∈ l.connections,
    Follows (connectionTask state config.toConfig) t.history t.prog
  live : ∀ t ∈ l.connections, ∃ c f, t.prog = .call c f
  timely : ∀ t ∈ l.connections, t.since ≤ l.now ∧ ∀ e ∈ t.deadline config, l.now ≤ e

theorem initial_sound (w : World) : (Listener.initial sql config w).Sound state config :=
  ⟨by simp [Listener.initial], by simp [Listener.initial], by simp [Listener.initial],
    by simp [Listener.initial]⟩

/-- A spawned connection takes a permit. -/
theorem exec_sound {l : Listener sql} (hl : l.Sound state config) (i : Selected)
    (c : ListenerCall) : (listenerExec state config i c l).2.Sound state config := by
  cases c with
  | select => exact hl
  | trySpawn =>
    simp only [listenerExec]
    split
    · rename_i hpos
      refine ⟨?_, fun t ht => ?_, fun t ht => ?_, fun t ht => ?_⟩
      · have hsum := hl.permits
        simp only [List.length_append, List.length_singleton]
        omega
      · rcases List.mem_append.mp ht with ht | ht
        · exact hl.follows t ht
        · obtain rfl := List.mem_singleton.mp ht
          exact .nil _
      · rcases List.mem_append.mp ht with ht | ht
        · exact hl.live t ht
        · obtain rfl := List.mem_singleton.mp ht
          exact ⟨_, _, rfl⟩
      · rcases List.mem_append.mp ht with ht | ht
        · exact hl.timely t ht
        · obtain rfl := List.mem_singleton.mp ht
          exact ⟨Nat.le_refl _, fun e he => since_le_deadline he⟩
    · exact hl

/-- A call of a connection keeps its task, or ends it and returns its permit. -/
theorem advance_sound {l : Listener sql} (hl : l.Sound state config) (k : ℕ)
    (i : ConnectionInput) : (l.advance k i).Sound state config := by
  rw [Listener.advance]
  split
  · exact hl
  · rename_i t ht
    split
    · exact hl
    · rename_i c f hprog
      have hmem := List.mem_of_getElem? ht
      have hlt := (List.getElem?_eq_some_iff.mp ht).1
      have hfollows := hl.follows t hmem
      rw [hprog] at hfollows
      simp only
      split
      · -- the task has ended
        have hsubset : l.connections.eraseIdx k ⊆ l.connections := List.eraseIdx_subset
        refine ⟨?_, fun t' ht' => hl.follows t' (hsubset ht'),
          fun t' ht' => hl.live t' (hsubset ht'), fun t' ht' => hl.timely t' (hsubset ht')⟩
        have hsum := hl.permits
        simp only [List.length_eraseIdx_of_lt hlt]
        omega
      · -- the task goes on from the answer, its deadline set anew
        rename_i q hq
        refine ⟨by simpa using hl.permits, fun t' ht' => ?_, fun t' ht' => ?_, fun t' ht' => ?_⟩
        · rcases List.mem_or_eq_of_mem_set ht' with ht' | rfl
          · exact hl.follows t' ht'
          · exact hfollows.snoc i l.world
        · rcases List.mem_or_eq_of_mem_set ht' with ht' | rfl
          · exact hl.live t' ht'
          · cases hcall : f (Obs.reply (M := connectionMachine sql) ⟨i, l.world, c⟩) with
            | pure u => exact absurd hcall (hq u)
            | call c' f' => exact ⟨c', f', rfl⟩
        · rcases List.mem_or_eq_of_mem_set ht' with ht' | rfl
          · exact hl.timely t' ht'
          · exact ⟨Nat.le_refl _, fun e he => since_le_deadline he⟩

theorem env_sound {l : Listener sql} (hl : l.Sound state config) (a : ListenerAction) :
    (listenerEnv config a l).Sound state config := by
  cases a with
  | connection k i => exact advance_sound hl k i
  | elapse d =>
    simp only [listenerEnv, Listener.elapse]
    split
    · rename_i hd
      exact ⟨hl.permits, hl.follows, hl.live, fun t ht =>
        ⟨(hl.timely t ht).1.trans (Nat.le_add_right _ _), hd t ht⟩⟩
    · exact hl
  | world w => exact ⟨hl.permits, hl.follows, hl.live, hl.timely⟩

end

/-! ### The budget -/

/-- **The budget of the listener.** -/
structure Budget (config : ListenerConfig) (l : Listener sql) : Prop where
  permits : l.connections.length + l.permits = config.maxConnections
  requests : ∀ t ∈ l.connections, executed t.history ≤ config.maxRequestsPerConnection
  deadlines : ∀ t ∈ l.connections, t.waits = true →
    t.deadline config = some (t.since + config.idleTimeout) ∧
      l.now ≤ t.since + config.idleTimeout

/-- Past its handshake, a task that waits for its peer has a deadline. -/
theorem deadline_of_waits {t : ConnectionTask sql} (config : ListenerConfig)
    (hwaits : t.waits = true) (hpast : t.inHandshake = false) :
    t.deadline config = some (t.since + config.idleTimeout) := by
  rw [ConnectionTask.waits] at hwaits
  rw [ConnectionTask.inHandshake] at hpast
  rw [ConnectionTask.deadline]
  cases hprog : t.prog with
  | pure u => simp [hprog] at hwaits
  | call c f =>
    rw [hprog] at hwaits hpast
    cases c with
    | handshake => cases hpast
    | warn e => cases hwaits
    | serve c => cases c <;> first | rfl | cases hwaits

/-- In its handshake, a task waits for its peer without a deadline. -/
theorem no_deadline_of_inHandshake {t : ConnectionTask sql} (config : ListenerConfig)
    (h : t.inHandshake = true) : t.waits = true ∧ t.deadline config = none := by
  rw [ConnectionTask.inHandshake] at h
  rw [ConnectionTask.waits, ConnectionTask.deadline]
  split at h
  · rename_i f hprog
    simp only [hprog]
    exact ⟨rfl, rfl⟩
  · cases h

section

variable [SharedAuth] [ApmeInterfaces]

/-- **The budget, exactly.** In every reachable state of the listener, permits and connections
add up, no connection has executed more than its requests, and every connection past its
handshake that waits for its peer has a deadline ahead; the budget holds if and only if no
connection is in its handshake. -/
theorem budget_iff (state : AppState) (config : ListenerConfig) (w : World)
    (as : List (Action (listenerSystem sql state config))) :
    let l : Listener sql := ((Config.initial (Listener.initial sql config w)).run as).state
    (l.connections.length + l.permits = config.maxConnections ∧
      ∀ t ∈ l.connections, executed t.history ≤ config.maxRequestsPerConnection ∧
        (t.waits = true → t.inHandshake = false →
          t.deadline config = some (t.since + config.idleTimeout) ∧
            l.now ≤ t.since + config.idleTimeout)) ∧
    (Budget config l ↔ ∀ t ∈ l.connections, t.inHandshake = false) := by
  intro l
  have hl : l.Sound state config := Config.run_stable (Y := listenerSystem sql state config)
    (F := Listener.Sound state config)
    ⟨fun i c s hs => exec_sound hs i c, fun a s hs => env_sound hs a⟩ as (initial_sound w)
  have hrequests : ∀ t ∈ l.connections, executed t.history ≤ config.maxRequestsPerConnection :=
    fun t ht => executed_le fun t₁ o t₂ he =>
      (hl.follows t ht).guarantee (connectionTask_withinBudget state config.toConfig) he
  have hpast : ∀ t ∈ l.connections, t.waits = true → t.inHandshake = false →
      t.deadline config = some (t.since + config.idleTimeout) ∧
        l.now ≤ t.since + config.idleTimeout := by
    intro t ht hwaits hpast
    have hdeadline := deadline_of_waits config hwaits hpast
    exact ⟨hdeadline, (hl.timely t ht).2 _ hdeadline⟩
  refine ⟨⟨hl.permits, fun t ht => ⟨hrequests t ht, hpast t ht⟩⟩, fun hb t ht => ?_, fun h => ?_⟩
  · -- the handshake waits without a deadline
    by_contra hin
    obtain ⟨hwaits, hnone⟩ := no_deadline_of_inHandshake config
      (by simpa using hin : t.inHandshake = true)
    have hsome := (hb.deadlines t ht hwaits).1
    rw [hnone] at hsome
    cases hsome
  · exact ⟨hl.permits, hrequests, fun t ht hwaits => hpast t ht hwaits (h t ht)⟩

end

/-! ### A peer that never shakes hands -/

section

open Reference

/-- One permit, fifteen seconds of idle timeout. -/
def smallListener : ListenerConfig := ⟨⟨64⟩, 1, 15⟩

/-- A peer connects and sends nothing; a thousand seconds pass and another peer connects. -/
def stalledRun : List (Action (listenerSystem Reference.sql Reference.state smallListener)) :=
  [.start 3, .call 0 .accepted, .call 0 .accepted, .env (.elapse 1000), .call 0 .accepted,
    .call 0 .accepted]

/-- The state after it. -/
def stalled : Listener Reference.sql :=
  ((Config.initial (Listener.initial Reference.sql smallListener (World.initial Db.empty 0))).run
    stalledRun).state

/-- The first peer still holds the permit, the second got none. -/
theorem stalled_connections :
    stalled.connections.map (fun t => (t.since, t.inHandshake)) = [(0, true)] ∧
      stalled.permits = 0 ∧ stalled.now = 1000 := by
  decide +kernel

/-- **The budget fails**: a peer that never finishes its TLS handshake has no deadline and keeps
its permit. -/
theorem not_budget : ¬ ∀ (config : ListenerConfig) (w : World)
    (as : List (Action (listenerSystem Reference.sql Reference.state config))),
    Budget config ((Config.initial (Listener.initial Reference.sql config w)).run as).state := by
  intro h
  have hb : Budget smallListener stalled := h smallListener (World.initial Db.empty 0) stalledRun
  have hmem : (0, true) ∈ stalled.connections.map fun t => (t.since, t.inHandshake) := by
    rw [stalled_connections.1]
    exact List.mem_singleton_self _
  obtain ⟨t, ht, hpair⟩ := List.mem_map.mp hmem
  obtain ⟨hwaits, hnone⟩ := no_deadline_of_inHandshake smallListener
    (Prod.mk.inj hpair).2
  have hsome := (hb.deadlines t ht hwaits).1
  rw [hnone] at hsome
  cases hsome

end

end ApmeApi.Tcp
