import ApmeApi.Transport.Tcp

/-!
# The systems of interleaved requests

Two systems share the machine of the service and the actions of its surroundings (`EnvAction`:
provisioning of tenants and memberships, the clock, the sessions of the authority, and the steps
of the WebSocket loops):

* `serviceSystem`: clients of `CaseService`, with retention;
* `apiSystem`: the process itself, with HTTP requests, WebSocket handshakes and framed
  connections.

Whatever is called, stored events and idempotency records are kept (`exec_keeps`, `env_keeps`).
-/

namespace ApmeApi

open Interaction

/-! ### The surroundings -/

/-- What changes the world besides the calls of the tasks. -/
inductive EnvAction where
  | tenants (rows : List TenantRow)
  | memberships (rows : List MembershipRow)
  | clock (now : DateTime)
  | sessions (rows : List Session)
  | socket (k : ℕ) (i : SocketInput)

/-- The effect of an action of the surroundings. -/
def env : EnvAction → World → World
  | .tenants rows, w => { w with db := { w.db with tenants := rows } }
  | .memberships rows, w => { w with db := { w.db with memberships := rows } }
  | .clock now, w => { w with clock := now }
  | .sessions rows, w => { w with sessions := rows }
  | .socket k i, w => { w with sockets := w.sockets.modify k fun s => s.step w.published i }

/-- Whatever programs run over the store: the process and its replicas, and the jobs of its
operators. -/
abbrev clients (sql : SqlFunctions) {Q A : Type} (main : Q → Prog apiSig A) : System where
  sig := apiSig
  machine := apiMachine sql
  Request := Q
  Response := A
  main := main
  EnvAction := EnvAction
  env := env

/-! ### The case service -/

/-- A call of the case service by some client. -/
inductive CaseRequest where
  | createCase (context : TenantContext) (subject : VerifiedSubject) (idempotencyKey : String)
      (command : CreateCaseCommand) (now : DateTime)
  | transitionCase (context : TenantContext) (subject : VerifiedSubject) (caseId : Uuid)
      (idempotencyKey : String) (command : TransitionCaseCommand) (now : DateTime)
  | rotateEncryptedObject (context : TenantContext) (subject : VerifiedSubject) (caseId : Uuid)
      (idempotencyKey : String) (command : RotateEncryptedObjectCommand) (now : DateTime)
  | getCase (context : TenantContext) (caseId : Uuid)
  | applyRetention (now : DateTime) (actor : String)
  deriving DecidableEq

/-- The result of a call of the case service. -/
inductive CaseResponse where
  | mutation (r : Except CaseServiceError CaseMutationResult)
  | case (r : Except CaseServiceError PersistedCase)
  | retention (r : Except CaseServiceError ℤ)
  deriving DecidableEq

section

variable [ApmeInterfaces] [Sha2]

/-- The program of a call of the case service. -/
def CaseRequest.run : CaseRequest → Prog apiSig CaseResponse
  | .createCase context subject idempotencyKey command now =>
    (CaseService.createCase context subject idempotencyKey command now).run >>= fun r =>
      pure (.mutation r)
  | .transitionCase context subject caseId idempotencyKey command now =>
    (CaseService.transitionCase context subject caseId idempotencyKey command now).run >>= fun r =>
      pure (.mutation r)
  | .rotateEncryptedObject context subject caseId idempotencyKey command now =>
    (CaseService.rotateEncryptedObject context subject caseId idempotencyKey command now).run >>=
      fun r => pure (.mutation r)
  | .getCase context caseId =>
    (CaseService.getCase context caseId).run >>= fun r => pure (.case r)
  | .applyRetention now actor =>
    (CaseService.applyRetention now actor).run >>= fun r => pure (.retention r)

/-- The context of a mutation and, when its checks pass, its SQL call. -/
def CaseRequest.mutation :
    CaseRequest → Option (TenantContext × Except CaseServiceError SqlMutation)
  | .createCase context subject idempotencyKey command now =>
    some (context, CaseService.createMutation context subject idempotencyKey command now)
  | .transitionCase context subject caseId idempotencyKey command now =>
    some (context,
      CaseService.transitionMutation context subject caseId idempotencyKey command now)
  | .rotateEncryptedObject context subject caseId idempotencyKey command now =>
    some (context, CaseService.rotateMutation context subject caseId idempotencyKey command now)
  | .getCase _ _ => none
  | .applyRetention _ _ => none

/-- A mutation is its checks, then `commit`. -/
theorem CaseRequest.run_eq {q : CaseRequest} {context : TenantContext}
    {checked : Except CaseServiceError SqlMutation} (hq : q.mutation = some (context, checked)) :
    q.run = (Prog.ofExcept checked >>= CaseService.commit context).run >>= fun r =>
      pure (.mutation r) := by
  cases q with
  | createCase =>
    obtain ⟨rfl, rfl⟩ := Prod.mk.inj (Option.some.inj hq)
    rw [run, CaseService.createCase_eq]
  | transitionCase =>
    obtain ⟨rfl, rfl⟩ := Prod.mk.inj (Option.some.inj hq)
    rw [run, CaseService.transitionCase_eq]
  | rotateEncryptedObject =>
    obtain ⟨rfl, rfl⟩ := Prod.mk.inj (Option.some.inj hq)
    rw [run, CaseService.rotateEncryptedObject_eq]
  | getCase => cases hq
  | applyRetention => cases hq

/-- **Inversion of an ended mutation**: its checks failed and it made no call, or they passed and
it was an execution of `commit`. -/
theorem CaseRequest.ended {sql : SqlFunctions} {q : CaseRequest} {h : History sql}
    {r : Except CaseServiceError CaseMutationResult}
    (hf : Follows q.run h (.pure (.mutation r))) :
    ∃ context checked, q.mutation = some (context, checked) ∧
      ((∃ e, checked = .error e ∧ h = [] ∧ r = .error e) ∨
        ∃ m, checked = .ok m ∧ CaseService.CommitRun context m h r) := by
  cases hq : q.mutation with
  | none =>
    cases q with
    | createCase => cases hq
    | transitionCase => cases hq
    | rotateEncryptedObject => cases hq
    | getCase =>
      obtain ⟨h₁, h₂, a, -, -, hf⟩ := Follows.of_bind hf
      cases (Follows.of_pure hf).2
    | applyRetention =>
      obtain ⟨h₁, h₂, a, -, -, hf⟩ := Follows.of_bind hf
      cases (Follows.of_pure hf).2
  | some x =>
    -- a mutation: the checks, then `commit`, then the wrapping of its result
    obtain ⟨context, checked⟩ := x
    rw [run_eq hq] at hf
    obtain ⟨h₁, h₂, a, rfl, hf₁, hf₂⟩ := Follows.of_bind hf
    obtain ⟨rfl, hr⟩ := Follows.of_pure hf₂
    obtain rfl := CaseResponse.mutation.inj hr
    rw [List.append_nil]
    refine ⟨context, checked, rfl, ?_⟩
    cases checked with
    | error e =>
      obtain ⟨rfl, rfl⟩ := Follows.of_pure hf₁
      exact .inl ⟨e, rfl, rfl, rfl⟩
    | ok m => exact .inr ⟨m, rfl, CaseService.commit_run hf₁⟩

/-- Clients of the case service. -/
abbrev serviceSystem (sql : SqlFunctions) : System where
  sig := apiSig
  machine := apiMachine sql
  Request := CaseRequest
  Response := CaseResponse
  main := CaseRequest.run
  EnvAction := EnvAction
  env := env

end

/-! ### The process -/

/-- A request that reached the process: on a route, as a handshake, or a framed connection. -/
inductive ApiRequest where
  | listCases (headers : HeaderMap)
  | getCase (id : Uuid) (headers : HeaderMap)
  | createCase (headers : HeaderMap) (command : CreateCaseCommand)
  | transitionCase (id : Uuid) (headers : HeaderMap) (command : TransitionCaseCommand)
  | rotateEncryptedObject (id : Uuid) (headers : HeaderMap)
      (command : RotateEncryptedObjectCommand)
  | websocket (query : WebSocketQuery) (headers : HeaderMap)
  | metrics
  | connection (config : Tcp.Config)

/-- What came of a request. -/
inductive ApiResponse where
  | http (r : HttpResponse)
  | connection (r : Except String Unit)

/-- The response to a handler's result. -/
def respond {α : Type} (f : α → HttpResponse) : Except ApiError α → ApiResponse
  | .ok a => .http (f a)
  | .error e => .http e.intoResponse

section

variable [SharedAuth] [ApmeInterfaces] [Sha2]

/-- The response of a handler that returns JSON. -/
def jsonResponse (status : ℕ) (value : Json) : HttpResponse := ⟨status, .json value⟩

/-- The program of a request. -/
def ApiRequest.run (state : AppState) : ApiRequest → Prog apiSig ApiResponse
  | .listCases headers =>
    (Http.listCases state headers).run >>= fun r =>
      pure (respond (fun cases =>
        jsonResponse 200 (.arr (cases.map ApmeInterfaces.persistedCaseJson))) r)
  | .getCase id headers =>
    (Http.getCase state id headers).run >>= fun r =>
      pure (respond (fun case => jsonResponse 200 (ApmeInterfaces.persistedCaseJson case)) r)
  | .createCase headers command =>
    (Http.createCase state headers command).run >>= fun r =>
      pure (respond (fun m => jsonResponse m.1 (ApmeInterfaces.mutationResultJson m.2)) r)
  | .transitionCase id headers command =>
    (Http.transitionCase state id headers command).run >>= fun r =>
      pure (respond (fun m => jsonResponse 200 (ApmeInterfaces.mutationResultJson m)) r)
  | .rotateEncryptedObject id headers command =>
    (Http.rotateEncryptedObject state id headers command).run >>= fun r =>
      pure (respond (fun m => jsonResponse 200 (ApmeInterfaces.mutationResultJson m)) r)
  | .websocket query headers =>
    (Http.websocket state query headers).run >>= fun r =>
      pure (respond (fun _ => ⟨101, .upgrade⟩) r)
  | .metrics =>
    Http.metrics.run >>= fun r => pure (respond (fun text => ⟨200, .text text⟩) r)
  | .connection config =>
    (Tcp.serveConnection state config).run >>= fun r => pure (.connection r)

/-- The process. -/
abbrev apiSystem (sql : SqlFunctions) (state : AppState) : System where
  sig := apiSig
  machine := apiMachine sql
  Request := ApiRequest
  Response := ApiResponse
  main := ApiRequest.run state
  EnvAction := EnvAction
  env := env

end

/-! ### What is kept -/

/-- **The database after a call**: the one before, or that of the SQL function which the call
runs, when it succeeds and the call is not lost. -/
theorem exec_db {sql : SqlFunctions} {P : Db → Prop} {i : Input} {c : Call} {w : World}
    (hsame : P w.db)
    (hmutate : ∀ m db row, c = .mutate m → (i.fault = .none ∨ i.fault = .ackLost) →
      sql.mutate m i.draw w.db = .ok (db, row) → P db)
    (haudit : ∀ a db, c = .appendAudit a → sql.apmeAppendAudit a i.draw w.db = .ok db → P db)
    (hretention : ∀ now actor db n, c = .applyRetention now actor →
      sql.apmeApplyRetention now actor i.draw w.db = .ok (db, n) → P db) :
    P (exec sql i c w).2.db := by
  have htransaction : ∀ {α : Type} (r : Except String (Db × α)),
      (∀ db a, (i.fault = .none ∨ i.fault = .ackLost) → r = .ok (db, a) → P db) →
        P (w.transaction i.fault r).2.db := by
    intro α r hr
    rcases w.transaction_cases i.fault r with ⟨hpost, -⟩ | ⟨db, a, hok, hpost, hanswer⟩
    · rwa [hpost]
    · rw [hpost]
      exact hr db a (hanswer.imp And.left And.left) hok
  cases c with
  | mutate m => exact htransaction _ fun db a hf h => hmutate m db a rfl hf h
  | applyRetention now actor =>
    exact htransaction _ fun db a _ h => hretention now actor db a rfl h
  | appendAudit a =>
    refine htransaction _ fun db x _ h => ?_
    cases ha : sql.apmeAppendAudit a i.draw w.db with
    | error e =>
      rw [ha] at h
      cases h
    | ok db' =>
      rw [ha] at h
      cases h
      exact haudit a _ rfl ha
  | _ => exact hsame

section Keeps

variable {sql : SqlFunctions} (hsql : SqlContract sql)
include hsql

/-- No call touches stored events and idempotency records. -/
theorem exec_keeps (i : Input) (c : Call) (w : World) : Db.Keeps w.db (exec sql i c w).2.db :=
  exec_db (Db.Keeps.refl _) (fun _ _ _ _ _ h => hsql.mutateKeeps h)
    (fun _ _ _ h => hsql.auditKeeps h) fun _ _ _ _ _ h => hsql.retentionKeeps h

omit hsql in
/-- The surroundings do not either. -/
theorem env_keeps (e : EnvAction) (w : World) : Db.Keeps w.db (env e w).db := by
  cases e <;> exact Db.Keeps.of_eq rfl rfl

end Keeps

end ApmeApi
