import ApmeApi.Lib.JsonGrammar
import ApmeApi.Transport.Nats
import ApmeApi.UuidNotation

/-!
# What a status signal can say

`decodeSignal` accepts a payload if and only if it is short enough and a JSON text of a signal:
the schema and the notation of an identifier, as the two members of an object in either order or
as the two elements of an array (`decodeSignal_eq_some_iff`). An accepted payload has no other
reading, so no string occurs in it but these two and the names of the members
(`signals_credential_free`): there is no room for a credential.
-/

namespace ApmeApi.Nats

open Json (TextOf Occurs Flat)

/-! ### Signals -/

/-- **The value of a signal** with the given text as its `operation_id`. -/
inductive SignalValue (op : String) : Json.Value → Prop
  | object {ms : List (String × String)}
    (h : ms.Perm [("schema", requestSchema), ("operation_id", op)]) :
    SignalValue op (.object (Json.strings ms))
  | array : SignalValue op (.array [.string requestSchema, .string op])

/-- The strings that a signal may carry. -/
def signalStrings (op : String) : List String := ["schema", "operation_id", requestSchema, op]

theorem SignalValue.flat {op : String} {v : Json.Value} (h : SignalValue op v) : Flat v := by
  cases h with
  | object => exact .object _
  | array => exact .array [requestSchema, op]

/-- Nothing else occurs in a signal. -/
theorem SignalValue.occurs {op s : String} {v : Json.Value} (h : SignalValue op v)
    (hs : Occurs s v) : s ∈ signalStrings op := by
  have hstring : ∀ t ∈ [requestSchema, op], Occurs s (.string t) → s ∈ signalStrings op := by
    intro t ht h
    cases h with
    | string => exact List.mem_cons_of_mem _ (List.mem_cons_of_mem _ ht)
  cases h with
  | array =>
    cases hs with
    | element hv hs =>
      have hv : _ ∈ [requestSchema, op].map Json.Value.string := hv
      obtain ⟨t, ht, rfl⟩ := List.mem_map.mp hv
      exact hstring t ht hs
  | @object ms hperm =>
    have hmember : ∀ {k v}, (k, v) ∈ Json.strings ms →
        k ∈ signalStrings op ∧ ∃ t ∈ [requestSchema, op], v = .string t := by
      intro k v hm
      obtain ⟨m, hfield, he⟩ := List.mem_map.mp hm
      obtain ⟨rfl, rfl⟩ := Prod.mk.inj he
      have hfield := hperm.subset hfield
      simp only [List.mem_cons, List.not_mem_nil, or_false] at hfield
      rcases hfield with rfl | rfl <;> simp [signalStrings]
    cases hs with
    | name hm => exact (hmember hm).1
    | member hm hs =>
      obtain ⟨t, ht, rfl⟩ := (hmember hm).2
      exact hstring t ht hs

/-! ### The decoder -/

/-- A record with the fields of a signal has nothing else. -/
theorem perm_signal_iff {ms : List (String × String)} {op : String} :
    ms.Perm [("schema", requestSchema), ("operation_id", op)] ↔
      (ms.map Prod.fst).Perm ["schema", "operation_id"] ∧
        Json.field "schema" ms = some requestSchema ∧ Json.field "operation_id" ms = some op := by
  have hfield : (ms.map Prod.fst).Perm ["schema", "operation_id"] →
      ∀ {k v}, Json.field k ms = some v ↔ (k, v) ∈ ms := by
    intro hnames k v
    have hnodup : ["schema", "operation_id"].Nodup := by decide
    exact Json.field_eq_some_iff (hnames.nodup_iff.mpr hnodup)
  constructor
  · intro h
    have hnames := h.map Prod.fst
    refine ⟨hnames, (hfield hnames).mpr ?_, (hfield hnames).mpr ?_⟩ <;>
      exact h.symm.subset (by simp)
  · rintro ⟨hnames, hschema, hop⟩
    have hschema := (hfield hnames).mp hschema
    have hop := (hfield hnames).mp hop
    -- in the order of the fields the record has two members, and the lookups tell their values
    obtain ⟨ms', hperm, hms'⟩ := Json.exists_perm_of_names hnames
    obtain ⟨⟨_, x⟩, ms', rfl, rfl, htail⟩ := List.map_eq_cons_iff.mp hms'
    obtain ⟨⟨_, y⟩, ms', rfl, rfl, hnil⟩ := List.map_eq_cons_iff.mp htail
    obtain rfl := List.map_eq_nil_iff.mp hnil
    have hx : requestSchema = x := by simpa using hperm.subset hschema
    have hy : op = y := by simpa using hperm.subset hop
    rwa [hx, hy]

/-- The records with the schema are read from the texts of signals. -/
theorem readSignal_iff {payload : List UInt8} {op : String} :
    (∃ ms, Json.readRecord (fun _ => Json.readString) ["schema", "operation_id"] payload = some ms ∧
        Json.field "schema" ms = some requestSchema ∧ Json.field "operation_id" ms = some op) ↔
      ∃ v, SignalValue op v ∧ TextOf v payload := by
  constructor
  · rintro ⟨ms, hread, hfields⟩
    rcases Json.readRecord_eq_some_iff.mp hread with ⟨hnames, htext⟩ | ⟨hnames, htext⟩
    · exact ⟨_, .object (perm_signal_iff.mpr ⟨hnames, hfields⟩), htext⟩
    · obtain ⟨⟨_, x⟩, ms, rfl, rfl, htail⟩ := List.map_eq_cons_iff.mp hnames
      obtain ⟨⟨_, y⟩, ms, rfl, rfl, hnil⟩ := List.map_eq_cons_iff.mp htail
      obtain rfl := List.map_eq_nil_iff.mp hnil
      obtain ⟨hx, hy⟩ := hfields
      obtain rfl : x = requestSchema := Option.some.inj hx
      obtain rfl : y = op := Option.some.inj hy
      exact ⟨_, .array, htext⟩
  · rintro ⟨v, hv, htext⟩
    cases hv with
    | @object ms hperm =>
      obtain ⟨hnames, hfields⟩ := perm_signal_iff.mp hperm
      exact ⟨ms, Json.readRecord_eq_some_iff.mpr (.inl ⟨hnames, htext⟩), hfields⟩
    | array =>
      exact ⟨[("schema", requestSchema), ("operation_id", op)],
        Json.readRecord_eq_some_iff.mpr (.inr ⟨rfl, htext⟩), rfl, rfl⟩

/-- **The payloads that are accepted.** -/
theorem decodeSignal_eq_some_iff {payload : List UInt8} {id : Uuid} :
    decodeSignal payload = some id ↔ payload.length ≤ maxSignalBytes ∧
      ∃ op v, id.Notation op.toList ∧ SignalValue op v ∧ TextOf v payload := by
  constructor
  · intro h
    rw [decodeSignal] at h
    split at h
    · cases h
    next hlen =>
    obtain ⟨ms, hread, h⟩ := Option.bind_eq_some_iff.mp h
    obtain ⟨schema, hschema, h⟩ := Option.bind_eq_some_iff.mp h
    obtain ⟨id', hid, h⟩ := Option.bind_eq_some_iff.mp h
    obtain ⟨op, hop, hparse⟩ := Option.bind_eq_some_iff.mp hid
    split at h
    · cases h
    next hrequest =>
    obtain rfl := Option.some.inj h
    rw [not_not] at hrequest
    rw [hrequest] at hschema
    obtain ⟨v, hv, htext⟩ := readSignal_iff.mp ⟨ms, hread, hschema, hop⟩
    exact ⟨Nat.le_of_not_lt hlen, op, v, Uuid.parse_eq_some_iff.mp hparse, hv, htext⟩
  · rintro ⟨hlen, op, v, hop, hv, htext⟩
    obtain ⟨ms, hread, hschema, hfield⟩ := readSignal_iff.mpr ⟨v, hv, htext⟩
    have hparse := Uuid.parse_eq_some_iff.mpr hop
    simp only [decodeSignal, if_neg (Nat.not_lt.mpr hlen), hread, hschema, hfield, hparse,
      Option.bind_eq_bind, Option.bind_some, ne_eq, not_true_eq_false, if_false]

/-- The positional form, with a simple notation. -/
example : decodeSignal (Json.ascii
    "[\"apme.async-status-request.v1\", \"0000000000000000000000000000000A\"]") = some ⟨10⟩ := by
  decide +kernel

/-- An accepted payload can be read in one way only. -/
theorem signal_unique {payload : List UInt8} {id : Uuid} (h : decodeSignal payload = some id) :
    ∃ op, id.Notation op.toList ∧ ∀ v, TextOf v payload →
      SignalValue op v ∧ ∀ s, Occurs s v → s ∈ signalStrings op := by
  obtain ⟨-, op, v, hop, hv, htext⟩ := decodeSignal_eq_some_iff.mp h
  refine ⟨op, hop, fun v' htext' => ?_⟩
  obtain rfl := TextOf.eq_of_flat hv.flat htext htext'
  exact ⟨hv, fun s hs => hv.occurs hs⟩

/-- **Status signals are credential-free.**

* A payload is accepted for `id` exactly if it is within the bound and a JSON text of a signal
  with a notation of `id`.
* Every reading of an accepted payload is that signal, and no other string occurs in it than the
  names of the members, the schema and the notation.
* Payloads accepted for one `id` are texts of signals that differ in the notation only. -/
theorem signals_credential_free (payload : List UInt8) (id : Uuid) :
    (decodeSignal payload = some id ↔ payload.length ≤ maxSignalBytes ∧
      ∃ op v, id.Notation op.toList ∧ SignalValue op v ∧ TextOf v payload) ∧
    (decodeSignal payload = some id → ∃ op, id.Notation op.toList ∧ ∀ v, TextOf v payload →
      SignalValue op v ∧ ∀ s, Occurs s v → s ∈ signalStrings op) ∧
    (∀ payload', decodeSignal payload = some id → decodeSignal payload' = some id →
      ∃ op op' v v', id.Notation op.toList ∧ id.Notation op'.toList ∧ SignalValue op v ∧
        SignalValue op' v' ∧ TextOf v payload ∧ TextOf v' payload') := by
  refine ⟨decodeSignal_eq_some_iff, signal_unique, fun payload' h h' => ?_⟩
  obtain ⟨-, op, v, hop, hv, htext⟩ := decodeSignal_eq_some_iff.mp h
  obtain ⟨-, op', v', hop', hv', htext'⟩ := decodeSignal_eq_some_iff.mp h'
  exact ⟨op, op', v, v', hop, hop', hv, hv', htext, htext'⟩

end ApmeApi.Nats
