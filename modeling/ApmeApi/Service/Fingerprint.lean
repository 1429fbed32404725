import ApmeApi.Lib.JsonText
import ApmeApi.Service.Reference

/-!
# The fingerprint of a request

A mutation binds `canonical_hash` of its request: of the JSON text of `(1, command)` for a
creation, of `(1, case_id, command)` for a transition or a rotation. No operation is named in
the text, so that requests of different operations differ must come from the shape of the
commands. It does: the text of a value determines it (`Json.render_injective`), the value of a
creation has two elements where the others have three, and the second member of a transition
has another name than that of a rotation (`canonical_injective`).

What is assumed of the `Serialize` impls is that they write different statuses, retention classes
and instants differently.
-/

namespace ApmeApi

open Interaction CaseService

/-! ### Commands as values -/

/-- A text that a value of another type determines, or `null`. -/
theorem optionJson_injective {α : Type} {f : α → Json} (hf : Function.Injective f)
    (hnull : ∀ a, f a ≠ .null) : Function.Injective (optionJson f) := by
  intro a b h
  cases a with
  | none =>
    cases b with
    | none => rfl
    | some b => exact absurd h.symm (hnull b)
  | some a =>
    cases b with
    | none => exact absurd h (hnull a)
    | some b => exact congrArg some (hf h)

theorem EncryptedObjectReference.toJson_injective :
    Function.Injective EncryptedObjectReference.toJson := by
  intro d d' h
  cases d
  cases d'
  simpa [EncryptedObjectReference.toJson] using h

theorem RotateEncryptedObjectCommand.toJson_injective :
    Function.Injective RotateEncryptedObjectCommand.toJson := by
  intro c c' h
  cases c
  cases c'
  simpa [RotateEncryptedObjectCommand.toJson, EncryptedObjectReference.toJson_injective.eq_iff]
    using h

theorem Uuid.toString_injective : Function.Injective Uuid.toString := fun _ _ h =>
  Uuid.display_injective (String.ofList_injective h)

section

variable [ApmeInterfaces]

theorem TransitionCaseCommand.toJson_injective
    (hstatus : Function.Injective ApmeInterfaces.statusJson) :
    Function.Injective TransitionCaseCommand.toJson := by
  intro c c' h
  cases c
  cases c'
  simpa [TransitionCaseCommand.toJson, hstatus.eq_iff] using h

theorem CreateCaseCommand.toJson_injective
    (hretention : Function.Injective ApmeInterfaces.retentionJson)
    (hdateTime : Function.Injective ApmeInterfaces.dateTimeJson) :
    Function.Injective CreateCaseCommand.toJson := by
  intro c c' h
  have hdue : Function.Injective (optionJson fun t => .str (ApmeInterfaces.dateTimeJson t)) :=
    optionJson_injective (fun _ _ h => hdateTime (Json.str.inj h)) fun _ => nofun
  have hdocument : Function.Injective (optionJson EncryptedObjectReference.toJson) :=
    optionJson_injective EncryptedObjectReference.toJson_injective fun _ => nofun
  cases c
  cases c'
  simpa [CreateCaseCommand.toJson, hretention.eq_iff, hdateTime.eq_iff, hdue.eq_iff,
    hdocument.eq_iff] using h

end

/-! ### Requests -/

/-- A mutation as a client asks for it: the operation, the case it names, and the command. -/
inductive MutationRequest where
  | createCase (command : CreateCaseCommand)
  | transitionCase (caseId : Uuid) (command : TransitionCaseCommand)
  | rotateEncryptedObject (caseId : Uuid) (command : RotateEncryptedObjectCommand)
  deriving DecidableEq

namespace MutationRequest

variable [ApmeInterfaces]

/-- The value whose text is hashed. -/
def canonical : MutationRequest → Json
  | .createCase command => .arr [.num 1, command.toJson]
  | .transitionCase caseId command => .arr [.num 1, .str caseId.toString, command.toJson]
  | .rotateEncryptedObject caseId command => .arr [.num 1, .str caseId.toString, command.toJson]

/-- The checks of the operation, and the SQL call it then makes. -/
def mutation [Sha2] (context : TenantContext) (subject : VerifiedSubject) (idempotencyKey : String)
    (now : DateTime) : MutationRequest → Except CaseServiceError SqlMutation
  | .createCase command => createMutation context subject idempotencyKey command now
  | .transitionCase caseId command =>
    transitionMutation context subject caseId idempotencyKey command now
  | .rotateEncryptedObject caseId command =>
    rotateMutation context subject caseId idempotencyKey command now

/-- The operation of the case service. -/
def run [Sha2] (context : TenantContext) (subject : VerifiedSubject) (idempotencyKey : String)
    (now : DateTime) : MutationRequest → CaseM CaseMutationResult
  | .createCase command => CaseService.createCase context subject idempotencyKey command now
  | .transitionCase caseId command =>
    CaseService.transitionCase context subject caseId idempotencyKey command now
  | .rotateEncryptedObject caseId command =>
    CaseService.rotateEncryptedObject context subject caseId idempotencyKey command now

theorem run_eq [Sha2] (r : MutationRequest) (context : TenantContext)
    (subject : VerifiedSubject) (idempotencyKey : String) (now : DateTime) :
    r.run context subject idempotencyKey now =
      Prog.ofExcept (r.mutation context subject idempotencyKey now) >>= commit context := by
  cases r with
  | createCase command => exact createCase_eq context subject idempotencyKey command now
  | transitionCase caseId command =>
    exact transitionCase_eq context subject caseId idempotencyKey command now
  | rotateEncryptedObject caseId command =>
    exact rotateEncryptedObject_eq context subject caseId idempotencyKey command now

/-- **The operation makes the SQL call of its request**, and no other mutation. -/
theorem run_mutates [Sha2] {sql : SqlFunctions} (r : MutationRequest) (context : TenantContext)
    (subject : VerifiedSubject) (idempotencyKey : String) (now : DateTime) :
    wp (fun (_ : History sql) o => ∀ m, o.call = .mutate m →
        r.mutation context subject idempotencyKey now = .ok m)
      (fun _ _ => True) (r.run context subject idempotencyKey now).run [] := by
  rw [run_eq, wp_run_bind, wp_run_ofExcept]
  cases hm : r.mutation context subject idempotencyKey now with
  | error e => trivial
  | ok m =>
    refine wp_post (commit_wp context m [] (fun i w m' hcall => ?_)
      (fun h _ i w c m' hcall => ?_) (fun h _ i w e m' hcall => ?_)) fun h r _ => trivial
    · rw [Call.mutate.inj hcall]
    · cases hcall
    · cases hcall

/-- The SQL call binds the hash of the request. -/
theorem requestHash_mutation [Sha2] {r : MutationRequest} {context : TenantContext}
    {subject : VerifiedSubject} {idempotencyKey : String} {now : DateTime} {m : SqlMutation}
    (h : r.mutation context subject idempotencyKey now = .ok m) :
    m.requestHash = canonicalHash r.canonical := by
  cases r with
  | createCase command =>
    obtain ⟨-, -, -, rfl⟩ := createMutation_eq_ok.mp h
    rfl
  | transitionCase caseId command =>
    obtain ⟨-, -, -, rfl⟩ := transitionMutation_eq_ok.mp h
    rfl
  | rotateEncryptedObject caseId command =>
    obtain ⟨-, -, -, -, rfl⟩ := rotateMutation_eq_ok.mp h
    rfl

/-- **Different requests have different values.** -/
theorem canonical_injective (hstatus : Function.Injective ApmeInterfaces.statusJson)
    (hretention : Function.Injective ApmeInterfaces.retentionJson)
    (hdateTime : Function.Injective ApmeInterfaces.dateTimeJson) :
    Function.Injective canonical := by
  intro r r' h
  cases r with
  | createCase command =>
    cases r' with
    | createCase command' =>
      have hcommand : command.toJson = command'.toJson := by simpa [canonical] using h
      rw [CreateCaseCommand.toJson_injective hretention hdateTime hcommand]
    | transitionCase => simp [canonical] at h
    | rotateEncryptedObject => simp [canonical] at h
  | transitionCase caseId command =>
    cases r' with
    | createCase => simp [canonical] at h
    | transitionCase caseId' command' =>
      obtain ⟨hid, hcommand⟩ : caseId.toString = caseId'.toString ∧
          command.toJson = command'.toJson := by simpa [canonical] using h
      rw [Uuid.toString_injective hid, TransitionCaseCommand.toJson_injective hstatus hcommand]
    | rotateEncryptedObject =>
      -- both have three elements; the members of the commands have different names
      simp [canonical, TransitionCaseCommand.toJson, RotateEncryptedObjectCommand.toJson] at h
  | rotateEncryptedObject caseId command =>
    cases r' with
    | createCase => simp [canonical] at h
    | transitionCase =>
      simp [canonical, TransitionCaseCommand.toJson, RotateEncryptedObjectCommand.toJson] at h
    | rotateEncryptedObject caseId' command' =>
      obtain ⟨hid, hcommand⟩ : caseId.toString = caseId'.toString ∧
          command.toJson = command'.toJson := by simpa [canonical] using h
      rw [Uuid.toString_injective hid, RotateEncryptedObjectCommand.toJson_injective hcommand]

end MutationRequest

/-! ### Fingerprints -/

/-- **The fingerprint identifies the request.** The bytes that are hashed are the same exactly
for the same operation on the same case with the same command; so are the hashes that two
mutations bind, when the digest has no collisions. These are the mutations that the operations
of the case service make, whatever they find. -/
theorem fingerprint_identifies [ApmeInterfaces] [Sha2] {sql : SqlFunctions}
    (hstatus : Function.Injective ApmeInterfaces.statusJson)
    (hretention : Function.Injective ApmeInterfaces.retentionJson)
    (hdateTime : Function.Injective ApmeInterfaces.dateTimeJson) (r r' : MutationRequest) :
    (r.canonical.render = r'.canonical.render ↔ r = r') ∧
    (Function.Injective Sha2.sha256 →
      ∀ {context context' : TenantContext} {subject subject' : VerifiedSubject}
        {idempotencyKey idempotencyKey' : String} {now now' : DateTime} {m m' : SqlMutation},
        r.mutation context subject idempotencyKey now = .ok m →
        r'.mutation context' subject' idempotencyKey' now' = .ok m' →
          (m.requestHash = m'.requestHash ↔ r = r')) ∧
    ∀ {context : TenantContext} {subject : VerifiedSubject} {idempotencyKey : String}
      {now : DateTime} {h : History sql}
      {q : Prog apiSig (Except CaseServiceError CaseMutationResult)},
      Follows (r.run context subject idempotencyKey now).run h q →
        ∀ o ∈ h, ∀ m, o.call = .mutate m →
          r.mutation context subject idempotencyKey now = .ok m := by
  have hbytes : r.canonical.render = r'.canonical.render ↔ r = r' := by
    constructor
    · intro h
      exact MutationRequest.canonical_injective hstatus hretention hdateTime
        (Json.render_injective h)
    · rintro rfl
      rfl
  refine ⟨hbytes, fun hsha _ _ _ _ _ _ _ _ m m' hm hm' => ?_, ?_⟩
  · rw [MutationRequest.requestHash_mutation hm, MutationRequest.requestHash_mutation hm',
      canonicalHash, canonicalHash, hsha.eq_iff, hbytes]
  · intro context subject idempotencyKey now h q hf o ho
    obtain ⟨h₁, h₂, rfl⟩ := List.append_of_mem ho
    exact hf.guarantee (r.run_mutates context subject idempotencyKey now) rfl

section

open Reference

/-- The reference texts of instants differ. -/
theorem Reference.dateTimeJson_injective : Function.Injective Reference.dateTimeJson := by
  have hpos : ∀ n : ℕ, (Reference.dateTimeJson (Int.ofNat n)).toList = Nat.toDigits 10 n := by
    intro n
    simp [Reference.dateTimeJson, toString, Int.repr, Nat.repr]
  have hneg : ∀ n : ℕ, (Reference.dateTimeJson (Int.negSucc n)).toList =
      '-' :: Nat.toDigits 10 (n + 1) := by
    intro n
    simp [Reference.dateTimeJson, toString, Int.repr, Nat.repr]
  have hsign : ∀ m n : ℕ, Nat.toDigits 10 m ≠ '-' :: Nat.toDigits 10 (n + 1) := by
    intro m n h
    have hdigit := Nat.isDigit_of_mem_toDigits (n := m) (by decide) (by decide)
      (h ▸ List.mem_cons_self)
    exact absurd hdigit (by decide)
  intro t t' h
  have hlist := congrArg String.toList h
  -- the sign tells the kinds apart, the digits the numbers of one kind
  cases t with
  | ofNat m =>
    cases t' with
    | ofNat n =>
      rw [hpos, hpos] at hlist
      rw [Json.toDigits_injective hlist]
    | negSucc n =>
      rw [hpos, hneg] at hlist
      exact absurd hlist (hsign m n)
  | negSucc m =>
    cases t' with
    | ofNat n =>
      rw [hpos, hneg] at hlist
      exact absurd hlist.symm (hsign n m)
    | negSucc n =>
      rw [hneg, hneg] at hlist
      rw [Nat.succ.inj (Json.toDigits_injective (List.cons.inj hlist).2)]

/-- A command for a creation. -/
def sampleCommand : CreateCaseCommand where
  title := "Diploma"
  summary := ""
  clientReference := "CLIENT"
  destinationCountry := "France"
  documentType := "diploma"
  nextActionDueAt := none
  retentionClass := .standard
  retainUntil := instant 60
  encryptedDocument := some ⟨"object", "digest", 2⟩

/-- The SQL call of a creation and that of a rotation bind different hashes. -/
theorem fingerprint_identifies_apart :
    let r := MutationRequest.createCase sampleCommand
    let r' := MutationRequest.rotateEncryptedObject Uuid.nil ⟨1, ⟨"object", "digest", 2⟩⟩
    let context := ⟨Uuid.nil, Uuid.nil, .administrator⟩
    r.canonical.render ≠ r'.canonical.render ∧
      ∃ (m m' : SqlMutation) (q q' : Prog apiSig (Except CaseServiceError CaseMutationResult)),
        Follows (M := apiMachine Reference.sql)
          (r.run context ⟨"user", "session"⟩ "key" (instant 0)).run [⟨{}, opened, .mutate m⟩] q ∧
        Follows (M := apiMachine Reference.sql)
          (r'.run context ⟨"user", "session"⟩ "key" (instant 0)).run [⟨{}, opened, .mutate m'⟩] q' ∧
        m.requestHash ≠ m'.requestHash := by
  intro r r' context
  have hstatus : Function.Injective Reference.statusJson := by
    intro a b h
    cases a <;> cases b <;> first | rfl | exact absurd h (by decide)
  have hretention : Function.Injective Reference.retentionJson := by
    intro a b h
    cases a <;> cases b <;> first | rfl | exact absurd h (by decide)
  have hne : r ≠ r' := MutationRequest.noConfusion
  obtain ⟨hbytes, hhash, hcalls⟩ := @fingerprint_identifies _ _ Reference.sql hstatus
    hretention Reference.dateTimeJson_injective r r'
  obtain ⟨-, -, hcalls'⟩ := @fingerprint_identifies _ _ Reference.sql hstatus
    hretention Reference.dateTimeJson_injective r' r
  obtain ⟨m, q, hf⟩ : ∃ m q, Follows (M := apiMachine Reference.sql)
      (r.run context ⟨"user", "session"⟩ "key" (instant 0)).run [⟨{}, opened, .mutate m⟩] q :=
    ⟨_, _, .cons (.nil _)⟩
  obtain ⟨m', q', hf'⟩ : ∃ m q, Follows (M := apiMachine Reference.sql)
      (r'.run context ⟨"user", "session"⟩ "key" (instant 0)).run [⟨{}, opened, .mutate m⟩] q :=
    ⟨_, _, .cons (.nil _)⟩
  have hm := hcalls hf _ List.mem_cons_self m rfl
  have hm' := hcalls' hf' _ List.mem_cons_self m' rfl
  exact ⟨fun h => hne (hbytes.mp h), m, m', q, q', hf, hf', fun h =>
    hne ((hhash (fun _ _ h => h) hm hm').mp h)⟩

end

end ApmeApi
