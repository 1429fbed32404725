import ApmeApi.Lib.Json
import Mathlib.Data.BitVec

/-!
# Data types of the service

The values that the API receives, stores and returns: identifiers, roles, statuses, commands,
cases, event receipts and security contexts. Most of them are declared in the shared crate
`apme-interfaces`; their fields are those that the service reads or writes. What that crate
computes (role permissions, command validation, the names its `Serialize` impls use) is the
class `ApmeInterfaces`, and the digest of the `sha2` crate is the class `Sha2`.

Timestamps are nanoseconds since the Unix epoch, versions are integers.
-/

namespace ApmeApi

/-! ### Identifiers -/

/-- A 128-bit identifier. -/
structure Uuid where
  bits : BitVec 128
  deriving DecidableEq

namespace Uuid

/-- The nil identifier. -/
def nil : Uuid := ⟨0⟩

/-- The `i`-th hexadecimal digit, counted from the most significant one. -/
def nibble (u : Uuid) (i : ℕ) : ℕ := (u.bits.extractLsb' (4 * (31 - i)) 4).toNat

/-- The 32 lower-case hexadecimal digits. -/
def digits (u : Uuid) : List Char := (List.range 32).map fun i => Text.hexDigit (u.nibble i)

/-- The hyphenated lower-case form, as `Display` writes it. -/
def display (u : Uuid) : List Char :=
  let d := u.digits
  d.take 8 ++ '-' :: ((d.drop 8).take 4 ++ '-' :: ((d.drop 12).take 4 ++ '-' ::
    ((d.drop 16).take 4 ++ '-' :: d.drop 20)))

/-- The string of `display`. -/
def toString (u : Uuid) : String := String.ofList u.display

/-- The identifier written by 32 hexadecimal digits in either case. -/
def parseSimple (cs : List Char) : Option Uuid :=
  if cs.length = 32 then
    (cs.foldlM (fun acc c => (Text.hexValue c).map (acc * 16 + ·)) 0).map fun n => ⟨.ofNat 128 n⟩
  else none

/-- The hyphenated form `8-4-4-4-12`. -/
def parseHyphenated (cs : List Char) : Option Uuid :=
  if cs.length = 36 ∧ cs[8]? = some '-' ∧ cs[13]? = some '-' ∧ cs[18]? = some '-' ∧
      cs[23]? = some '-' then
    parseSimple (cs.take 8 ++ (cs.drop 9).take 4 ++ (cs.drop 14).take 4 ++ (cs.drop 19).take 4 ++
      cs.drop 24)
  else none

/-- `Uuid::parse_str`: simple, hyphenated, braced or as a URN. -/
def parse (s : String) : Option Uuid :=
  let cs := s.toList
  if cs.length = 32 then parseSimple cs
  else if cs.length = 36 then parseHyphenated cs
  else if cs.length = 38 ∧ cs.head? = some '{' ∧ cs.getLast? = some '}' then
    parseHyphenated (cs.tail.dropLast)
  else (Text.stripPrefixList "urn:uuid:".toList cs).bind parseHyphenated

theorem nibble_lt (u : Uuid) (i : ℕ) : u.nibble i < 16 :=
  (u.bits.extractLsb' (4 * (31 - i)) 4).isLt

@[simp]
theorem length_digits (u : Uuid) : u.digits.length = 32 := by simp [digits]

/-- The digits determine the identifier. -/
theorem digits_injective : Function.Injective digits := by
  intro u v h
  have hnib : ∀ i < 32, u.nibble i = v.nibble i := by
    intro i hi
    have hget : (u.digits)[i]? = (v.digits)[i]? := by rw [h]
    simp only [digits, List.getElem?_map, List.getElem?_range hi, Option.map_some,
      Option.some.injEq] at hget
    exact Text.hexDigit_inj (u.nibble_lt i) (v.nibble_lt i) hget
  have hbits : u.bits = v.bits := by
    refine BitVec.eq_of_getLsbD_eq fun j hj => ?_
    -- bit `j` is bit `j % 4` of digit `31 - j / 4`
    have hslice : u.bits.extractLsb' (4 * (j / 4)) 4 = v.bits.extractLsb' (4 * (j / 4)) 4 := by
      have hn := hnib (31 - j / 4) (by omega)
      rw [nibble, nibble, show 31 - (31 - j / 4) = j / 4 by omega] at hn
      exact BitVec.eq_of_toNat_eq hn
    have hbit := congrArg (fun b => b.getLsbD (j % 4)) hslice
    have hpos : 4 * (j / 4) + j % 4 = j := Nat.div_add_mod j 4
    simpa only [BitVec.getLsbD_extractLsb', hpos, Nat.mod_lt j (by decide : 4 > 0), decide_true,
      Bool.true_and] using hbit
  cases u
  cases v
  exact congrArg Uuid.mk hbits

/-- The digits in the groups of `Display`. -/
theorem digits_groups (u : Uuid) : u.digits = u.digits.take 8 ++ ((u.digits.drop 8).take 4 ++
    ((u.digits.drop 12).take 4 ++ ((u.digits.drop 16).take 4 ++ u.digits.drop 20))) := by
  have hd : ∀ m, u.digits.drop (m + 4) = (u.digits.drop m).drop 4 := fun m => by
    rw [List.drop_drop]
  rw [hd 16, List.take_append_drop, hd 12, List.take_append_drop, hd 8,
    List.take_append_drop, List.take_append_drop]

/-- `Display` determines the identifier. -/
theorem display_injective : Function.Injective display := by
  intro u v h
  have hlen : ∀ (w : Uuid) (m n : ℕ), m + n ≤ 32 → ((w.digits.drop m).take n).length = n := by
    intro w m n hmn
    simp only [List.length_take, List.length_drop, length_digits]
    omega
  simp only [display] at h
  obtain ⟨h₁, h⟩ := List.append_inj h (by simp)
  obtain ⟨h₂, h⟩ := List.append_inj (List.cons.inj h).2
    ((hlen u 8 4 (by omega)).trans (hlen v 8 4 (by omega)).symm)
  obtain ⟨h₃, h⟩ := List.append_inj (List.cons.inj h).2
    ((hlen u 12 4 (by omega)).trans (hlen v 12 4 (by omega)).symm)
  obtain ⟨h₄, h⟩ := List.append_inj (List.cons.inj h).2
    ((hlen u 16 4 (by omega)).trans (hlen v 16 4 (by omega)).symm)
  apply digits_injective
  rw [u.digits_groups, v.digits_groups, h₁, h₂, h₃, h₄, (List.cons.inj h).2]

/-- `Display` writes 36 characters. -/
theorem length_display (u : Uuid) : u.display.length = 36 := by
  simp [display]

/-- `Display` writes lower-case hexadecimal digits and hyphens only. -/
theorem display_chars (u : Uuid) {c : Char} (hc : c ∈ u.display) :
    c = '-' ∨ ∃ n < 16, c = Text.hexDigit n := by
  have hd : ∀ c ∈ u.digits, ∃ n < 16, c = Text.hexDigit n := by
    intro c hc
    obtain ⟨i, -, rfl⟩ := List.mem_map.mp hc
    exact ⟨u.nibble i, u.nibble_lt i, rfl⟩
  simp only [display, List.mem_append, List.mem_cons] at hc
  rcases hc with h | rfl | h | rfl | h | rfl | h | rfl | h
  · exact .inr (hd c (List.mem_of_mem_take h))
  · exact .inl rfl
  · exact .inr (hd c (List.mem_of_mem_drop (List.mem_of_mem_take h)))
  · exact .inl rfl
  · exact .inr (hd c (List.mem_of_mem_drop (List.mem_of_mem_take h)))
  · exact .inl rfl
  · exact .inr (hd c (List.mem_of_mem_drop (List.mem_of_mem_take h)))
  · exact .inl rfl
  · exact .inr (hd c (List.mem_of_mem_drop h))

/-- An identifier in JSON takes 38 bytes. -/
theorem length_quote_toString (u : Uuid) : (Json.quote u.toString).length = 38 := by
  have hchars : ∀ c ∈ u.toString.toList, (Json.escapeChar c).length = 1 := by
    intro c hc
    rw [toString, String.toList_ofList] at hc
    rcases u.display_chars hc with rfl | ⟨n, hn, rfl⟩
    · decide
    · interval_cases n <;> decide
  rw [Json.length_quote hchars, toString, String.toList_ofList, length_display]

end Uuid

/-- `DateTime<Utc>`, in nanoseconds since the Unix epoch. -/
abbrev DateTime := ℤ

/-! ### Cases and commands -/

inductive CaseStatus where
  | intake
  | collectingDocuments
  | review
  | submitted
  | completed
  | closed
  deriving DecidableEq

inductive RetentionClass where
  | standard
  | extended
  | legalHoldEligible
  deriving DecidableEq

structure EncryptedObjectReference where
  objectReference : String
  ciphertextSha256 : String
  keyVersion : ℤ
  deriving DecidableEq

structure CreateCaseCommand where
  title : String
  summary : String
  clientReference : String
  destinationCountry : String
  documentType : String
  nextActionDueAt : Option DateTime
  retentionClass : RetentionClass
  retainUntil : DateTime
  encryptedDocument : Option EncryptedObjectReference
  deriving DecidableEq

structure TransitionCaseCommand where
  expectedVersion : ℤ
  toStatus : CaseStatus
  deriving DecidableEq

structure RotateEncryptedObjectCommand where
  expectedVersion : ℤ
  encryptedDocument : EncryptedObjectReference
  deriving DecidableEq

structure PersistedCase where
  id : Uuid
  tenantId : Uuid
  version : ℤ
  title : String
  summary : String
  clientReference : String
  destinationCountry : String
  documentType : String
  nextActionDueAt : Option DateTime
  status : CaseStatus
  retentionClass : RetentionClass
  retainUntil : DateTime
  legalHold : Bool
  tombstonedAt : Option DateTime
  encryptedDocument : Option EncryptedObjectReference
  createdAt : DateTime
  updatedAt : DateTime
  deriving DecidableEq

structure CaseEventReceipt where
  eventId : Uuid
  tenantId : Uuid
  caseId : Uuid
  caseVersion : ℤ
  eventType : String
  occurredAt : DateTime
  eventHash : String
  deriving DecidableEq

structure CaseMutationResult where
  case : PersistedCase
  event : CaseEventReceipt
  replayed : Bool
  deriving DecidableEq

/-! ### Security contexts -/

inductive TenantRole where
  | viewer
  | agent
  | administrator
  deriving DecidableEq

structure VerifiedSubject where
  sharedUserId : String
  sessionId : String
  deriving DecidableEq

structure TenantContext where
  tenantId : Uuid
  organizationId : Uuid
  role : TenantRole
  deriving DecidableEq

structure CaseSubscription where
  tenantId : Uuid
  caseId : Option Uuid
  deriving DecidableEq

/-- The envelope of a published event. -/
structure TenantEvent where
  tenantId : Uuid
  caseId : Uuid
  event : CaseEventReceipt
  deriving DecidableEq

/-! ### What other crates compute -/

/-- The functions of `apme-interfaces` that the service calls: permissions of the roles,
validation of commands, and the names and texts that its `Serialize` impls produce. -/
class ApmeInterfaces where
  canCreateOrTransition : TenantRole → Bool
  canExportOrDelete : TenantRole → Bool
  validateCreate : CreateCaseCommand → DateTime → Except String Unit
  validateDocument : EncryptedObjectReference → Except String Unit
  statusJson : CaseStatus → String
  retentionJson : RetentionClass → String
  dateTimeJson : DateTime → String
  persistedCaseJson : PersistedCase → Json
  mutationResultJson : CaseMutationResult → Json

/-- The digest of the `sha2` crate. -/
class Sha2 where
  sha256 : List UInt8 → List UInt8

section Serialize

variable [ApmeInterfaces]

/-- An optional value; an absent one is `null`. -/
def optionJson {α : Type} (f : α → Json) : Option α → Json
  | none => .null
  | some a => f a

def EncryptedObjectReference.toJson (d : EncryptedObjectReference) : Json :=
  .obj [("object_reference", .str d.objectReference),
    ("ciphertext_sha256", .str d.ciphertextSha256), ("key_version", .num d.keyVersion)]

def CreateCaseCommand.toJson (c : CreateCaseCommand) : Json :=
  .obj [("title", .str c.title), ("summary", .str c.summary),
    ("client_reference", .str c.clientReference),
    ("destination_country", .str c.destinationCountry), ("document_type", .str c.documentType),
    ("next_action_due_at", optionJson (fun t => .str (ApmeInterfaces.dateTimeJson t))
      c.nextActionDueAt),
    ("retention_class", .str (ApmeInterfaces.retentionJson c.retentionClass)),
    ("retain_until", .str (ApmeInterfaces.dateTimeJson c.retainUntil)),
    ("encrypted_document", optionJson EncryptedObjectReference.toJson c.encryptedDocument)]

def TransitionCaseCommand.toJson (c : TransitionCaseCommand) : Json :=
  .obj [("expected_version", .num c.expectedVersion),
    ("to_status", .str (ApmeInterfaces.statusJson c.toStatus))]

def RotateEncryptedObjectCommand.toJson (c : RotateEncryptedObjectCommand) : Json :=
  .obj [("expected_version", .num c.expectedVersion),
    ("encrypted_document", c.encryptedDocument.toJson)]

end Serialize

end ApmeApi
