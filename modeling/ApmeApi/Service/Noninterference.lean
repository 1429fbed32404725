import ApmeApi.Service.Handlers
import ApmeApi.Service.Reference

/-!
# Noninterference between tenants

Two worlds are indistinguishable for a tenant (`Indistinguishable`) when their databases have the
same rows of that tenant and their clocks agree; the rows of other tenants, the published events
and the sockets are arbitrary.

Every call of a request that names the tenant is one of that tenant (`Call.concerns`), a call of
the tenant is answered alike in indistinguishable worlds and leaves indistinguishable worlds
(`exec_indistinguishable`), so the whole request is answered alike (`noninterference`).
-/

namespace ApmeApi

open Interaction CaseService

variable {sql : SqlFunctions}

/-! ### One call -/

/-- The worlds that a tenant cannot tell apart. -/
structure Indistinguishable (t : Uuid) (w w' : World) : Prop where
  db : Db.Agree t w.db w'.db
  clock : w.clock = w'.clock

/-- The calls that a request of a tenant may make: those with a tenant have this one, and none is
about all tenants. -/
def Call.concerns (t : Uuid) : Call → Bool
  | .selectMembership t' _ => t' = t
  | .selectCases t' => t' = t
  | .selectCase t' _ => t' = t
  | .selectEvent t' _ => t' = t
  | .appendAudit a => a.tenantId = t
  | .mutate m => m.tenantId = t
  | .countCases => false
  | .applyRetention _ _ => false
  | _ => true

theorem Call.concerns_of_isPreliminary {t : Uuid} {c : Call}
    (h : c.isPreliminary (some t) = true) : c.concerns t = true := by
  cases c with
  | selectMembership t' u =>
    have ht : t = t' := by simpa [isPreliminary] using h
    simp [concerns, ht]
  | _ => first | rfl | cases h

/-- A tenant-local transaction is answered alike. -/
theorem transaction_indistinguishable {α : Type} {t : Uuid} {w w' : World}
    (hw : Indistinguishable t w w') (fault : Fault) {r r' : Except String (Db × α)}
    (hr : TenantLocalResult t r r') :
    (w.transaction fault r).1 = (w'.transaction fault r').1 ∧
      Indistinguishable t (w.transaction fault r).2 (w'.transaction fault r').2 := by
  cases r with
  | error e =>
    cases r' with
    | ok x => exact hr.elim
    | error e' =>
      obtain rfl : e = e' := hr
      cases fault <;> exact ⟨rfl, hw⟩
  | ok x =>
    cases r' with
    | error e' => exact hr.elim
    | ok x' =>
      obtain ⟨db, a⟩ := x
      obtain ⟨db', a'⟩ := x'
      obtain ⟨hdb, rfl⟩ := hr
      cases fault with
      | lost e => exact ⟨rfl, hw⟩
      | none => exact ⟨rfl, hdb, hw.clock⟩
      | ackLost => exact ⟨rfl, hdb, hw.clock⟩

/-- **One call of the tenant** is answered alike in worlds that the tenant cannot tell apart, and
leaves such worlds. -/
theorem exec_indistinguishable (hsql : SqlTenantLocal sql) {t : Uuid} (i : Input) (c : Call)
    (w w' : World) (hc : c.concerns t = true) (hw : Indistinguishable t w w') :
    (exec sql i c w).1 = (exec sql i c w').1 ∧
      Indistinguishable t (exec sql i c w).2 (exec sql i c w').2 := by
  -- guard and introspection answer from outside; every query names its tenant
  cases c with
  | guardCheck headers => exact ⟨rfl, hw⟩
  | introspect bearer audience scopes => exact ⟨rfl, hw⟩
  | unixNow =>
    refine ⟨?_, hw⟩
    simp only [exec, hw.clock]
  | utcNow => exact ⟨hw.clock, hw⟩
  | selectMembership t' u =>
    obtain rfl : t' = t := by simpa [Call.concerns] using hc
    exact ⟨congrArg i.fault.answer (hw.db.selectMembership_eq u), hw⟩
  | selectCases t' =>
    obtain rfl : t' = t := by simpa [Call.concerns] using hc
    exact ⟨congrArg i.fault.answer hw.db.selectCases_eq, hw⟩
  | selectCase t' id =>
    obtain rfl : t' = t := by simpa [Call.concerns] using hc
    exact ⟨congrArg i.fault.answer (hw.db.selectCase_eq id), hw⟩
  | selectEvent t' e =>
    obtain rfl : t' = t := by simpa [Call.concerns] using hc
    exact ⟨congrArg i.fault.answer (hw.db.selectEvent_eq e), hw⟩
  | countCases => cases hc
  | appendAudit a =>
    obtain rfl : a.tenantId = t := by simpa [Call.concerns] using hc
    exact transaction_indistinguishable hw i.fault (hsql.audit hw.db)
  | mutate m =>
    obtain rfl : m.tenantId = t := by simpa [Call.concerns] using hc
    exact transaction_indistinguishable hw i.fault (hsql.mutate hw.db)
  | applyRetention now actor => cases hc
  | publish e => exact ⟨rfl, hw.db, hw.clock⟩
  | onUpgrade s => exact ⟨rfl, hw.db, hw.clock⟩
  | readFrame codec => exact ⟨rfl, hw⟩
  | writeFrame codec bytes => exact ⟨rfl, hw⟩

/-! ### The calls of a request -/

section

variable [SharedAuth]

/-- A mutation handler makes calls of the tenant that its headers name. -/
theorem mutationHandler_concerns {α : Type} {t : Uuid} (state : AppState) {headers : HeaderMap}
    (ht : tenantId headers = .ok t)
    {checked : TenantContext → VerifiedSubject → String → DateTime →
      Except CaseServiceError SqlMutation} (answer : CaseMutationResult → α)
    (hchecked : ∀ context subject key now m, checked context subject key now = .ok m →
      m.tenantId = context.tenantId) :
    wp (fun (_ : History sql) o => o.call.concerns t = true) (fun _ _ => True)
      (Http.mutationHandler state headers checked answer).run [] := by
  refine mutationHandler_wp state headers checked answer (fun h o _ ho => ?_)
    (fun _ _ _ => trivial) fun h subject context key now m _ htenant _ _ hm => ?_
  · rw [ht] at ho
    exact Call.concerns_of_isPreliminary ho
  · have hcontext : context.tenantId = t := Except.ok.inj (htenant.symm.trans ht)
    have hmt := (hchecked context subject key now m hm).trans hcontext
    refine wp_post (commit_wp context m h (fun i w => ?_) (fun h' _ i w c => ?_)
      fun h' _ i w e => ?_) ?_
    · simp [Call.concerns, hmt]
    · simp [Call.concerns, hcontext]
    · simp [Call.concerns, hcontext]
    · rintro h' r -
      rcases r with e | result
      · trivial
      · dsimp only
        split
        · trivial
        · exact fun i w => ⟨rfl, trivial⟩

variable [ApmeInterfaces]

/-- A frame makes calls of the tenant that it names. -/
theorem execute_concerns (state : AppState) {frame : List UInt8} {req : Tcp.FrameRequest}
    (hreq : Tcp.FrameRequest.decode frame = some req) :
    wp (fun (_ : History sql) o => o.call.concerns req.tenantId = true) (fun _ _ => True)
      (Tcp.execute state frame) [] := by
  refine Tcp.execute_calls state frame (fun req' hreq' h o ho => ?_) ?_
  · obtain rfl := Option.some.inj (hreq.symm.trans hreq')
    exact Call.concerns_of_isPreliminary ho
  · intro req' headers h subject context i w hreq' _ htenant _ _
    obtain rfl := Option.some.inj (hreq.symm.trans hreq')
    simp [Call.concerns, htenant]

variable [Sha2]

/-- A mutation request makes calls of the tenant that it names. -/
theorem mutation_concerns (state : AppState) {q : ApiRequest} (hq : q.isMutation = true)
    {headers : HeaderMap} {t : Uuid} (hnamed : q.named = some (headers, t)) :
    wp (fun (_ : History sql) o => o.call.concerns t = true) (fun _ _ => True)
      (q.run state) [] := by
  obtain ⟨α, headers', checked, answer, f, hrun, hnamed', -, hchecked⟩ :=
    ApiRequest.run_mutation state hq
  rw [hrun, wp_bind]
  refine wp_post (mutationHandler_concerns state (tenantId_of_named (hnamed'.symm.trans hnamed))
    answer fun context subject key now m hm => ?_) fun _ _ _ => trivial
  exact (hchecked context subject key now m hm).2.2.1

/-- **A request** makes calls of the tenant that it names. -/
theorem run_concerns (state : AppState) {q : ApiRequest} {headers : HeaderMap} {t : Uuid}
    (hq : q.named = some (headers, t)) :
    wp (fun (_ : History sql) o => o.call.concerns t = true) (fun _ _ => True)
      (q.run state) [] := by
  cases q with
  | listCases headers' =>
    have ht := tenantId_of_named hq
    rw [ApiRequest.run, wp_bind]
    refine wp_post (listCases_wp state headers' (fun h o ho => ?_) ?_) fun _ _ _ => trivial
    · rw [ht] at ho
      exact Call.concerns_of_isPreliminary ho
    · intro h subject context i w htenant _
      simp [Call.concerns, Except.ok.inj (htenant.symm.trans ht)]
  | getCase id headers' =>
    have ht := tenantId_of_named hq
    rw [ApiRequest.run, wp_bind]
    refine wp_post (getCase_wp state id headers' (fun h o ho => ?_) ?_) fun _ _ _ => trivial
    · rw [ht] at ho
      exact Call.concerns_of_isPreliminary ho
    · intro h subject context i w htenant _
      have hcontext : context.tenantId = t := Except.ok.inj (htenant.symm.trans ht)
      refine ⟨by simp [Call.concerns, hcontext], fun a ha _ => ?_⟩
      simp [Call.concerns, ha, hcontext]
  | createCase headers' command => exact mutation_concerns state rfl hq
  | transitionCase id headers' command => exact mutation_concerns state rfl hq
  | rotateEncryptedObject id headers' command => exact mutation_concerns state rfl hq
  | websocket query headers' =>
    obtain ⟨-, rfl⟩ := Prod.mk.inj (Option.some.inj hq)
    rw [ApiRequest.run, wp_bind]
    exact wp_post (websocket_wp state query headers'
      (fun h o ho => Call.concerns_of_isPreliminary ho) fun _ _ _ _ _ _ _ _ => rfl)
      fun _ _ _ => trivial
  | metrics => cases hq
  | connection config => cases hq

/-! ### Two runs -/

/-- **Noninterference.** In worlds that a tenant cannot tell apart, with the same choices of the
surroundings (credentials, introspection, fresh identifiers, faults), every request that names
the tenant gets the same response, and every frame that names it the same answer. -/
theorem noninterference (hsql : SqlTenantLocal sql) (state : AppState) {t : Uuid} {w w' : World}
    (hw : Indistinguishable t w w') (i : ℕ → Input) :
    (∀ (q : ApiRequest) (headers : HeaderMap), q.named = some (headers, t) →
      ((q.run state).run (apiMachine sql) i w).1 = ((q.run state).run (apiMachine sql) i w').1) ∧
    ∀ (frame : List UInt8) (req : Tcp.FrameRequest),
      Tcp.FrameRequest.decode frame = some req → req.tenantId = t →
        ((Tcp.execute state frame).run (apiMachine sql) i w).1 =
          ((Tcp.execute state frame).run (apiMachine sql) i w').1 := by
  refine ⟨fun q headers hq => ?_, fun frame req hreq ht => ?_⟩
  · exact (Prog.run_related (M := apiMachine sql) (R := Indistinguishable t)
      (C := fun c => c.concerns t = true)
      (fun i c w w' hc hw => exec_indistinguishable hsql i c w w' hc hw)
      (run_concerns state hq) i hw).1
  · subst ht
    exact (Prog.run_related (M := apiMachine sql) (R := Indistinguishable req.tenantId)
      (C := fun c => c.concerns req.tenantId = true)
      (fun i c w w' hc hw => exec_indistinguishable hsql i c w w' hc hw)
      (execute_concerns state hreq) i hw).1

end

/-! ### A case of another tenant -/

section Foreign

open Reference

/-- A case of another tenant. -/
def foreignRow : CaseRow where
  id := ⟨7⟩
  tenantId := ⟨1⟩
  version := 1
  title := "Visa"
  summary := ""
  clientReference := "CLIENT"
  destinationCountry := "Peru"
  documentType := "passport"
  nextActionDueAt := none
  status := "intake"
  retentionClass := "standard"
  retainUntil := 2
  legalHold := false
  tombstonedAt := none
  encryptedObjectReference := none
  ciphertextSha256 := none
  objectKeyVersion := none
  createdAt := 1
  updatedAt := 1

/-- The database of the tenant, with the case of another one. -/
def sharedOffice : Db := { office with cases := [foreignRow] }

theorem office_indistinguishable :
    Indistinguishable Uuid.nil (World.initial office 0) (World.initial sharedOffice 0) where
  db := ⟨by decide, by decide, by decide, by decide, by decide, by decide⟩
  clock := rfl

/-- The read of the foreign case is answered as if the case did not exist. -/
theorem noninterference_foreign_case :
    (((ApiRequest.getCase ⟨7⟩ (headers "key")).run Reference.state).run (apiMachine Reference.sql)
        (fun _ => input) (World.initial sharedOffice 0)).1 =
      (((ApiRequest.getCase ⟨7⟩ (headers "key")).run Reference.state).run
        (apiMachine Reference.sql) (fun _ => input) (World.initial office 0)).1 :=
  ((noninterference Reference.tenantLocal Reference.state office_indistinguishable
    fun _ => input).1 (.getCase ⟨7⟩ (headers "key")) (headers "key") (by decide +kernel)).symm

end Foreign

end ApmeApi
