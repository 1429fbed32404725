import ApmeApi.Lib.JsonGrammar
import ApmeApi.Transport.Tcp
import ApmeApi.UuidNotation

/-!
# What a request frame can say

`FrameRequest.decode` accepts a frame if and only if it is a JSON text of a request: an object
with the four members of `FrameRequest` in any order, or an array with their four values in that
order (`FrameRequest.decode_eq_some_iff`). An accepted frame has no other reading, so no string
occurs in it but the names of the members and the operation, the notations of the two identifiers
and the bearer token (`requests_strict`): a frame has no room for a subject, a role or a scope.
-/

namespace ApmeApi.Tcp

open Json (TextOf Occurs Definite)

/-! ### Requests -/

/-- The name of an operation in snake case. -/
def Operation.name : Operation → String
  | .listCases => "list_cases"

theorem Operation.parse_eq_some_iff {s : String} {o : Operation} :
    Operation.parse s = some o ↔ s = o.name := by
  cases o
  simp [Operation.parse, Operation.name]

/-- The members of `FrameRequest`. -/
def frameFields : List String := ["request_id", "tenant_id", "bearer_token", "operation"]

/-- The members of a request that spells its identifiers `rid` and `tid`. -/
def frameMembers (req : FrameRequest) (rid tid : String) (op : Json.Value) :
    List (String × Json.Value) :=
  [("request_id", .string rid), ("tenant_id", .string tid),
    ("bearer_token", .string req.bearerToken), ("operation", op)]

/-- The values of the members of a request. -/
structure Spells (req : FrameRequest) (rid tid : String) (op : Json.Value) : Prop where
  requestId : req.requestId.Notation rid.toList
  tenantId : req.tenantId.Notation tid.toList
  operation : Json.VariantForm req.operation.name op

/-- **The value of a request.** -/
inductive FrameValue (req : FrameRequest) : Json.Value → Prop
  | object {rid tid : String} {op : Json.Value} {ms : List (String × Json.Value)}
    (h : Spells req rid tid op) (hms : ms.Perm (frameMembers req rid tid op)) :
    FrameValue req (.object ms)
  | array {rid tid : String} {op : Json.Value} (h : Spells req rid tid op) :
    FrameValue req (.array ((frameMembers req rid tid op).map Prod.snd))

/-- A string that a request may carry. -/
def FrameString (req : FrameRequest) (s : String) : Prop :=
  s ∈ frameFields ∨ s = req.operation.name ∨ s = req.bearerToken ∨
    req.requestId.Notation s.toList ∨ req.tenantId.Notation s.toList

section

variable {req : FrameRequest} {rid tid : String} {op : Json.Value}

theorem Spells.definite (h : Spells req rid tid op) :
    ∀ m ∈ frameMembers req rid tid op, Definite m.2 := by
  intro m hm
  simp only [frameMembers, List.mem_cons, List.not_mem_nil, or_false] at hm
  rcases hm with rfl | rfl | rfl | rfl
  · exact .string rid
  · exact .string tid
  · exact .string _
  · exact h.operation.definite

/-- The strings of the members are all accounted for. -/
theorem Spells.occurs (h : Spells req rid tid op) {s : String} {m : String × Json.Value}
    (hm : m ∈ frameMembers req rid tid op) : m.1 ∈ frameFields ∧
      (Occurs s m.2 → FrameString req s) := by
  have hstring : ∀ {t}, Occurs s (.string t) → s = t := by
    intro t h
    cases h
    rfl
  simp only [frameMembers, List.mem_cons, List.not_mem_nil, or_false] at hm
  rcases hm with rfl | rfl | rfl | rfl <;> refine ⟨by simp [frameFields], fun hs => ?_⟩
  · exact .inr (.inr (.inr (.inl (hstring hs ▸ h.requestId))))
  · exact .inr (.inr (.inr (.inr (hstring hs ▸ h.tenantId))))
  · exact .inr (.inr (.inl (hstring hs)))
  · exact .inr (.inl (h.operation.occurs hs))

end

theorem FrameValue.definite {req : FrameRequest} {v : Json.Value} (h : FrameValue req v) :
    Definite v := by
  cases h with
  | object h hms => exact .object fun m hm => h.definite m (hms.subset hm)
  | array h =>
    refine .array fun v hv => ?_
    obtain ⟨m, hm, rfl⟩ := List.mem_map.mp hv
    exact h.definite m hm

/-- Nothing else occurs in a request. -/
theorem FrameValue.occurs {req : FrameRequest} {v : Json.Value} (h : FrameValue req v) {s : String}
    (hs : Occurs s v) : FrameString req s := by
  cases h with
  | object h hms =>
    cases hs with
    | name hm => exact .inl (h.occurs (s := s) (hms.subset hm)).1
    | member hm hs => exact (h.occurs (hms.subset hm)).2 hs
  | array h =>
    cases hs with
    | element hv hs =>
      obtain ⟨m, hm, rfl⟩ := List.mem_map.mp hv
      exact (h.occurs hm).2 hs

/-! ### The decoder -/

/-- The form of a member of a frame: the operation is a unit variant, the others are strings. -/
def frameForm : Json.Form := fun k v x =>
  if k = "operation" then Json.VariantForm v x else x = .string v

theorem reads_frame : Json.Reads frameForm frameReader := by
  intro k v bs r
  by_cases hk : k = "operation"
  · simpa only [frameForm, frameReader, if_pos hk] using Json.reads_variant k v bs r
  · simpa only [frameForm, frameReader, if_neg hk] using Json.reads_string k v bs r

/-- The texts of the members. -/
def frameText (req : FrameRequest) (rid tid : String) (k : String) : String :=
  if k = "request_id" then rid else if k = "tenant_id" then tid
  else if k = "bearer_token" then req.bearerToken else req.operation.name

/-- The decoder reads a record and parses its fields. -/
theorem decode_eq_some_iff_record {payload : List UInt8} {req : FrameRequest} :
    FrameRequest.decode payload = some req ↔ ∃ rid tid, req.requestId.Notation rid.toList ∧
      req.tenantId.Notation tid.toList ∧ ∃ ms, Json.readRecord frameReader frameFields payload =
        some ms ∧ ∀ k ∈ frameFields, Json.field k ms = some (frameText req rid tid k) := by
  constructor
  · intro h
    obtain ⟨ms, hread, h⟩ := Option.bind_eq_some_iff.mp h
    obtain ⟨requestId, hr, h⟩ := Option.bind_eq_some_iff.mp h
    obtain ⟨tenantId, ht, h⟩ := Option.bind_eq_some_iff.mp h
    obtain ⟨token, hb, h⟩ := Option.bind_eq_some_iff.mp h
    obtain ⟨operation, ho, h⟩ := Option.bind_eq_some_iff.mp h
    obtain rfl := Option.some.inj h
    obtain ⟨rid, hrid, hr⟩ := Option.bind_eq_some_iff.mp hr
    obtain ⟨tid, htid, ht⟩ := Option.bind_eq_some_iff.mp ht
    obtain ⟨name, hname, ho⟩ := Option.bind_eq_some_iff.mp ho
    obtain rfl := Operation.parse_eq_some_iff.mp ho
    refine ⟨rid, tid, Uuid.parse_eq_some_iff.mp hr, Uuid.parse_eq_some_iff.mp ht, ms, hread, ?_⟩
    simp only [frameFields, List.forall_mem_cons, List.not_mem_nil, false_implies, implies_true,
      and_true]
    exact ⟨hrid, htid, hb, hname⟩
  · rintro ⟨rid, tid, hr, ht, ms, hread, hfields⟩
    simp only [frameFields, List.forall_mem_cons, List.not_mem_nil, false_implies, implies_true,
      and_true] at hfields
    obtain ⟨hrid, htid, hb, hname⟩ := hfields
    have hr := Uuid.parse_eq_some_iff.mpr hr
    have ht := Uuid.parse_eq_some_iff.mpr ht
    have ho := Operation.parse_eq_some_iff.mpr (rfl : req.operation.name = _)
    simp only [frameText, String.reduceEq, if_true, if_false] at hrid htid hb hname
    rw [frameFields] at hread
    simp only [FrameRequest.decode, hread, hrid, htid, hb, hname, hr, ht, ho, Option.bind_eq_bind,
      Option.bind_some, Option.pure_def]

/-- The members with the form of a frame are those of a request. -/
theorem frameMembers_iff {req : FrameRequest} {rid tid : String}
    {xs : List (String × Json.Value)} :
    (xs.map Prod.fst = frameFields ∧ ∀ x ∈ xs, frameForm x.1 (frameText req rid tid x.1) x.2) ↔
      ∃ op, Json.VariantForm req.operation.name op ∧ xs = frameMembers req rid tid op := by
  constructor
  · rintro ⟨hnames, hform⟩
    obtain ⟨⟨_, x⟩, xs, rfl, rfl, h₁⟩ := List.map_eq_cons_iff.mp hnames
    obtain ⟨⟨_, y⟩, xs, rfl, rfl, h₂⟩ := List.map_eq_cons_iff.mp h₁
    obtain ⟨⟨_, z⟩, xs, rfl, rfl, h₃⟩ := List.map_eq_cons_iff.mp h₂
    obtain ⟨⟨_, op⟩, xs, rfl, rfl, hnil⟩ := List.map_eq_cons_iff.mp h₃
    obtain rfl := List.map_eq_nil_iff.mp hnil
    simp only [List.forall_mem_cons, frameForm, frameText, String.reduceEq, if_true, if_false]
      at hform
    obtain ⟨rfl, rfl, rfl, hop, -⟩ := hform
    exact ⟨op, hop, rfl⟩
  · rintro ⟨op, hop, rfl⟩
    refine ⟨rfl, ?_⟩
    simp only [frameMembers, List.forall_mem_cons, frameForm, frameText, String.reduceEq, if_true,
      if_false, true_and, List.not_mem_nil, false_implies, implies_true, and_true]
    exact hop

/-- **The frames that are accepted.** -/
theorem FrameRequest.decode_eq_some_iff {payload : List UInt8} {req : FrameRequest} :
    FrameRequest.decode payload = some req ↔ ∃ v, FrameValue req v ∧ TextOf v payload := by
  rw [decode_eq_some_iff_record]
  have hnodup : frameFields.Nodup := by decide
  constructor
  · rintro ⟨rid, tid, hr, ht, hrecord⟩
    obtain ⟨xs, hnames, hform, htext⟩ :=
      (Json.readRecord_fields_iff reads_frame hnodup).mp hrecord
    obtain ⟨op, hop, rfl⟩ := frameMembers_iff.mp ⟨hnames, hform⟩
    rcases htext with ⟨ms, hperm, htext⟩ | htext
    · exact ⟨_, .object ⟨hr, ht, hop⟩ hperm, htext⟩
    · exact ⟨_, .array ⟨hr, ht, hop⟩, htext⟩
  · rintro ⟨v, hv, htext⟩
    cases hv with
    | @object rid tid op ms h hms =>
      obtain ⟨hnames, hform⟩ := frameMembers_iff.mpr ⟨op, h.operation, rfl⟩
      exact ⟨rid, tid, h.requestId, h.tenantId, (Json.readRecord_fields_iff reads_frame hnodup).mpr
        ⟨_, hnames, hform, .inl ⟨ms, hms, htext⟩⟩⟩
    | @array rid tid op h =>
      obtain ⟨hnames, hform⟩ := frameMembers_iff.mpr ⟨op, h.operation, rfl⟩
      exact ⟨rid, tid, h.requestId, h.tenantId, (Json.readRecord_fields_iff reads_frame hnodup).mpr
        ⟨_, hnames, hform, .inr htext⟩⟩

/-- A member that injects a subject is refused. -/
example : FrameRequest.decode (Json.ascii
    ("\x7b\"request_id\":\"00000000000000000000000000000000\"," ++
      "\"tenant_id\":\"00000000000000000000000000000000\",\"bearer_token\":\"synthetic.token\"," ++
      "\"operation\":\"list_cases\",\"subject\":\"injected\"\x7d")) = none := by
  decide +kernel

/-- **Requests are strict.**

* A frame is accepted as `req` exactly if it is a JSON text of `req`.
* Every reading of an accepted frame is that request, and its strings are the names of the members
  and of the operation, the bearer token and notations of the two identifiers: nothing else can be
  sent along.
* A frame that is a text of no request is answered without any call. -/
theorem requests_strict [SharedAuth] [ApmeInterfaces] (state : AppState) (payload : List UInt8)
    (req : FrameRequest) :
    (FrameRequest.decode payload = some req ↔ ∃ v, FrameValue req v ∧ TextOf v payload) ∧
    (FrameRequest.decode payload = some req → ∀ v, TextOf v payload →
      FrameValue req v ∧ ∀ s, Occurs s v → FrameString req s) ∧
    ((∀ req v, FrameValue req v → ¬ TextOf v payload) →
      execute state payload = pure (encodeFailure Uuid.nil "invalid_request")) := by
  refine ⟨FrameRequest.decode_eq_some_iff, fun h v htext => ?_, fun hno => ?_⟩
  · obtain ⟨v', hv, htext'⟩ := FrameRequest.decode_eq_some_iff.mp h
    obtain rfl := htext'.eq_of_definite hv.definite htext
    exact ⟨hv, fun s hs => hv.occurs hs⟩
  · cases hdecode : FrameRequest.decode payload with
    | none => simp only [execute, hdecode]
    | some req =>
      obtain ⟨v, hv, htext⟩ := FrameRequest.decode_eq_some_iff.mp hdecode
      exact absurd htext (hno req v hv)

end ApmeApi.Tcp
