import ApmeApi.Transport.Tcp
import ApmeApi.Service.Authorization
import ApmeApi.Service.Reference

/-!
# One response frame for each request frame

A connection is judged by the history of the calls it made. `delivered h` are the response
frames that passed the codec and were written, `Cooperative frames h` says that the client sent
`frames`, then ended its half, and that it took every write in time; `Framed` is the framing
contract: one answer for each request among the first `maxRequestsPerConnection`, in order and
with its request id, and a normal end.

`execute` keeps its part of the contract (`execute_wp`): its answer carries the request id and
is within `maxResponseBytes`. The codec, though, refuses answers above `maxRequestBytes`, so the
contract holds exactly when no list was read whose answer lies between the two bounds
(`framed_iff`).
-/

namespace ApmeApi.Tcp

open Interaction CaseService

variable {sql : SqlFunctions}

/-! ### The size of an answer -/

/-- The encoding of an error depends on its text only. -/
theorem length_encodeFailure (requestId : Uuid) (error : String) :
    (encodeFailure requestId error).length = (Json.quote error).length + 79 := by
  have hid := requestId.length_quote_toString
  have hnames : (Json.quote "request_id").length = 12 ∧ (Json.quote "status").length = 8 ∧
      (Json.quote "error").length = 7 := by decide
  simp only [encodeFailure, FrameResponse.encode, Option.map_none, Option.map_some,
    Option.toList_none, Option.toList_some, List.append_nil, List.cons_append, List.nil_append,
    Json.render, Json.renderMembers, List.length_cons, List.length_append, List.length_nil, hid,
    hnames]
  omega

section Contract

variable [ApmeInterfaces]

/-- The length of the JSON array of a list of cases. -/
def listLength (cases : List PersistedCase) : ℕ :=
  (Json.render (.arr (cases.map ApmeInterfaces.persistedCaseJson))).length

/-- The bytes of an answered list beside the array of its cases. -/
def answerOverhead : ℕ := 115

/-- The encoding of an answered list, whatever the request. -/
theorem length_encodeList (requestId : Uuid) (cases : List PersistedCase) :
    (encodeList requestId cases).length = listLength cases + answerOverhead := by
  have hid := requestId.length_quote_toString
  have hnames : (Json.quote "request_id").length = 12 ∧ (Json.quote "status").length = 8 ∧
      (Json.quote "payload").length = 9 ∧ (Json.quote "ok").length = 4 ∧
      (Json.quote "cases").length = 7 ∧ (Json.quote "mode").length = 6 ∧
      (Json.quote "stateful_mtls_tcp").length = 19 := by decide
  simp only [encodeList, listPayload, FrameResponse.encode, Option.map_none, Option.map_some,
    Option.toList_none, Option.toList_some, List.append_nil, List.cons_append, List.nil_append,
    Json.render, Json.renderMembers, List.length_cons, List.length_append, List.length_nil, hid,
    hnames, Json.length_render_toValue, listLength, answerOverhead]
  omega

/-! ### The two halves of a connection -/

/-- What the reads of a connection found. -/
def reads (h : History sql) : List FrameRead :=
  h.filterMap fun o => match o.call with
    | .readFrame _ => some o.input.read
    | _ => none

/-- What the peer did with the writes of a connection. -/
def writes (h : History sql) : List FrameWrite :=
  h.filterMap fun o => match o.call with
    | .writeFrame _ _ => some o.input.write
    | _ => none

/-- The response frames that were written. -/
def delivered (h : History sql) : List (List UInt8) :=
  h.filterMap fun o => match o.call with
    | .writeFrame codec bytes =>
      if codec.encode bytes o.input.write = .written then some bytes else none
    | _ => none

/-- The client sends the frames, then ends its half; it keeps reading, and no timeout fires. -/
structure Cooperative (frames : List (List UInt8)) (h : History sql) : Prop where
  sends : ∀ (k : ℕ) (r : FrameRead), (reads h)[k]? = some r → r = (frames[k]?).elim .ended .frame
  takes : ∀ w ∈ writes h, w = .written

/-- The request id of a frame: nil when the frame is no request. -/
def requestIdOf (frame : List UInt8) : Uuid :=
  match FrameRequest.decode frame with
  | none => Uuid.nil
  | some req => req.requestId

/-- The bytes answer the frame: they encode a response with its request id. -/
def Answers (frame bytes : List UInt8) : Prop :=
  ∃ response : FrameResponse, bytes = response.encode ∧ response.requestId = requestIdOf frame

/-- **The framing contract** of a connection with a budget of `n` requests. -/
structure Framed (frames : List (List UInt8)) (n : ℕ) (h : History sql)
    (r : Except String Unit) : Prop where
  answered : List.Forall₂ Answers (frames.take n) (delivered h)
  accepted : ∀ o ∈ h, ∀ codec bytes, o.call = .writeFrame codec bytes →
    bytes ≠ [] ∧ bytes.length ≤ maxResponseBytes ∧ bytes.length ≤ codec.maxFrameLength
  result : r = .ok ()

/-- A list of cases whose answer `execute` returns, but the codec refuses. -/
def Undeliverable (cases : List PersistedCase) : Prop :=
  maxRequestBytes < listLength cases + answerOverhead ∧
    listLength cases + answerOverhead ≤ maxResponseBytes

/-- The store answered a request of the connection with such a list. -/
def ReadsUndeliverable (h : History sql) : Prop :=
  ∃ t rows cases, Got h (.selectCases t) (.ok rows) ∧ rows.mapM caseFromRow = .ok cases ∧
    Undeliverable cases

/-! ### Histories without exchanges -/

/-- The calls on the connection itself. -/
def isExchange : Call → Bool
  | .readFrame _ => true
  | .writeFrame _ _ => true
  | _ => false

omit [ApmeInterfaces] in
/-- An authorization neither exchanges frames nor reads lists. -/
theorem isAuthorization_elim {t : Uuid} {c : Call} (h : c.isAuthorization t = true) :
    isExchange c = false ∧ ∀ t', c ≠ .selectCases t' := by
  cases c with
  | guardCheck _ => simp [isExchange]
  | introspect _ _ _ => simp [isExchange]
  | unixNow => simp [isExchange]
  | selectMembership _ _ => simp [isExchange]
  | _ => cases h

omit [ApmeInterfaces] in
/-- What happens between the exchanges leaves no trace on the connection. -/
theorem halves_append {h : History sql} (hh : ∀ o ∈ h, isExchange o.call = false)
    (t : History sql) :
    reads (h ++ t) = reads t ∧ writes (h ++ t) = writes t ∧ delivered (h ++ t) = delivered t := by
  have hnil : reads h = [] ∧ writes h = [] ∧ delivered h = [] := by
    refine ⟨List.filterMap_eq_nil_iff.mpr fun o ho => ?_,
      List.filterMap_eq_nil_iff.mpr fun o ho => ?_, List.filterMap_eq_nil_iff.mpr fun o ho => ?_⟩
    all_goals
      have hc := hh o ho
      obtain ⟨i, w, c⟩ := o
      cases c <;> first | rfl | cases hc
  obtain ⟨hr, hw, hd⟩ := hnil
  refine ⟨?_, ?_, ?_⟩
  · rw [reads, List.filterMap_append]
    exact congrArg (· ++ _) hr
  · rw [writes, List.filterMap_append]
    exact congrArg (· ++ _) hw
  · rw [delivered, List.filterMap_append]
    exact congrArg (· ++ _) hd

theorem readsUndeliverable_append {h t : History sql} :
    ReadsUndeliverable (h ++ t) ↔ ReadsUndeliverable h ∨ ReadsUndeliverable t := by
  constructor
  · rintro ⟨tn, rows, cases, ⟨i, w, hm, hr⟩, hc⟩
    rcases List.mem_append.mp hm with hm | hm
    · exact .inl ⟨tn, rows, cases, ⟨i, w, hm, hr⟩, hc⟩
    · exact .inr ⟨tn, rows, cases, ⟨i, w, hm, hr⟩, hc⟩
  · rintro (⟨tn, rows, cases, hg, hc⟩ | ⟨tn, rows, cases, hg, hc⟩)
    · exact ⟨tn, rows, cases, hg.mono (List.subset_append_left h t), hc⟩
    · exact ⟨tn, rows, cases, hg.mono (List.subset_append_right h t), hc⟩

/-- Only reading a list can meet an undeliverable one. -/
theorem not_readsUndeliverable {h : History sql}
    (hh : ∀ o ∈ h, ∀ t, o.call ≠ .selectCases t) : ¬ ReadsUndeliverable h := by
  rintro ⟨t, rows, cases, ⟨i, w, hm, -⟩, -⟩
  exact hh _ hm t rfl

/-- An exchange reads no list. -/
theorem readsUndeliverable_cons {o : Observed sql} (ho : isExchange o.call = true)
    (h : History sql) : ReadsUndeliverable (o :: h) ↔ ReadsUndeliverable h := by
  have hone : ¬ ReadsUndeliverable [o] := by
    refine not_readsUndeliverable fun o' ho' t hcall => ?_
    obtain rfl := List.mem_singleton.mp ho'
    rw [hcall] at ho
    cases ho
  rw [← List.singleton_append, readsUndeliverable_append]
  exact or_iff_right hone

/-- A list that was read. -/
theorem readsUndeliverable_of_mem {h : History sql} {i : Input} {w : World} {t : Uuid}
    {cases : List PersistedCase} (hm : ⟨i, w, .selectCases t⟩ ∈ h)
    (hc : listOfReply (Obs.reply (M := apiMachine sql) ⟨i, w, .selectCases t⟩) = .ok cases)
    (hu : Undeliverable cases) : ReadsUndeliverable h := by
  cases hr : Obs.reply (M := apiMachine sql) ⟨i, w, .selectCases t⟩ with
  | error e =>
    rw [hr] at hc
    cases hc
  | ok rows =>
    rw [hr] at hc
    exact ⟨t, rows, cases, ⟨i, w, hm, hr⟩, hc, hu⟩

/-- A list that was read last. -/
theorem readsUndeliverable_concat {h : History sql} (hnone : ¬ ReadsUndeliverable h) (i : Input)
    (w : World) (t : Uuid) :
    ReadsUndeliverable (h ++ [⟨i, w, .selectCases t⟩]) ↔
      ∃ cases, listOfReply (Obs.reply (M := apiMachine sql) ⟨i, w, .selectCases t⟩) = .ok cases ∧
        Undeliverable cases := by
  rw [readsUndeliverable_append]
  constructor
  · rintro (hu | ⟨t', rows, cases, ⟨i', w', hm, hr⟩, hc, hu⟩)
    · exact absurd hu hnone
    · obtain ⟨rfl, rfl, hcall⟩ := Obs.mk.inj (List.mem_singleton.mp hm)
      obtain rfl := Call.selectCases.inj hcall
      exact ⟨cases, by rw [hr]; exact hc, hu⟩
  · rintro ⟨cases, hc, hu⟩
    exact .inr (readsUndeliverable_of_mem (by simp) hc hu)

/-! ### One request -/

/-- What `execute` guarantees of its answer to a frame. -/
structure Executed (frame : List UInt8) (h : History sql) (bytes : List UInt8) : Prop where
  answers : Answers frame bytes
  nonempty : bytes ≠ []
  bounded : bytes.length ≤ maxResponseBytes
  undeliverable : maxRequestBytes < bytes.length ↔ ReadsUndeliverable h

omit [ApmeInterfaces] in
/-- No response is empty. -/
theorem encode_ne_nil (r : FrameResponse) : r.encode ≠ [] := by
  rw [FrameResponse.encode, Json.render]
  exact List.cons_ne_nil _ _

/-- An error answer to a frame, when no list was read that is undeliverable. -/
theorem executed_failure {frame : List UInt8} {h : History sql} {error : String}
    (herror : (Json.quote error).length ≤ 40) (hh : ¬ ReadsUndeliverable h) :
    Executed frame h (encodeFailure (requestIdOf frame) error) := by
  have hlen := length_encodeFailure (requestIdOf frame) error
  refine ⟨⟨_, rfl, rfl⟩, encode_ne_nil _, ?_, ?_⟩
  · rw [hlen, maxResponseBytes]
    omega
  · refine ⟨fun hlt => ?_, fun hr => absurd hr hh⟩
    rw [hlen, maxRequestBytes] at hlt
    omega

omit [ApmeInterfaces] in
/-- The codes of errors are short. -/
theorem length_quote_code (e : ApiError) : (Json.quote e.code).length ≤ 40 := by
  have hcodes : ∀ code ∈ ["unauthorized", "forbidden", "temporarily_unavailable", "not_found",
      "idempotency_key_reused", "stale_version", "invalid_transition", "key_version_rollback",
      "validation"], (Json.quote code).length ≤ 40 := by decide
  refine hcodes _ ?_
  cases e with
  | authentication f => cases f <;> simp [ApiError.code]
  | cases e => cases e <;> simp [ApiError.code]
  | validation m => simp [ApiError.code]

/-- The answer to a list that was read. -/
theorem executed_list {frame : List UInt8} {req : FrameRequest}
    (hreq : FrameRequest.decode frame = some req) {h : History sql}
    {cases : List PersistedCase} (hh : ReadsUndeliverable h ↔ Undeliverable cases) :
    Executed frame h
      (if (encodeList req.requestId cases).length ≤ maxResponseBytes then
        encodeList req.requestId cases
      else encodeFailure req.requestId "response_too_large") := by
  have hid : req.requestId = requestIdOf frame := by rw [requestIdOf, hreq]
  have hlen := length_encodeList req.requestId cases
  by_cases hle : (encodeList req.requestId cases).length ≤ maxResponseBytes
  · rw [if_pos hle]
    refine ⟨⟨_, rfl, hid⟩, encode_ne_nil _, hle, ?_⟩
    rw [hh, Undeliverable, ← hlen]
    exact ⟨fun hlt => ⟨hlt, hle⟩, fun hu => hu.1⟩
  · rw [if_neg hle, hid]
    refine executed_failure (by decide) fun hu => hle ?_
    rw [hlen]
    exact (hh.mp hu).2

variable [SharedAuth]

/-- **One request.** `execute` exchanges nothing itself, and its answer is bounded, carries the
request id, and is above the bound of requests exactly when it reads an undeliverable list. -/
theorem execute_wp (state : AppState) (frame : List UInt8) :
    wp (fun _ o => isExchange o.call = false)
      (fun (h : History sql) bytes => Executed frame h bytes) (execute state frame) [] := by
  rw [execute]
  cases hreq : FrameRequest.decode frame with
  | none =>
    have hid : Uuid.nil = requestIdOf frame := by rw [requestIdOf, hreq]
    simp only [wp_pure, hid]
    exact executed_failure (by decide) (not_readsUndeliverable (by simp))
  | some req =>
    have hid : req.requestId = requestIdOf frame := by rw [requestIdOf, hreq]
    have hauth := authorizeToken_wp
      (G := fun (_ : History sql) o => o.call.isAuthorization req.tenantId = true) state
      req.bearerToken req.tenantId [casesReadScope]
      (fun _ _ h => Call.isAuthorization_of_isAuthentication req.tenantId h) (fun _ _ h => h) []
    simp only [wp_bind]
    refine wp_mono (wp_calls_nil hauth) (fun t o ho => (isAuthorization_elim ho).1) ?_
    rintro t r ⟨hcalls, -⟩
    have hnone : ¬ ReadsUndeliverable t :=
      not_readsUndeliverable fun o ho => (isAuthorization_elim (hcalls o ho)).2
    rcases r with e | ⟨subject, context⟩
    · rw [hid]
      exact executed_failure (length_quote_code e) hnone
    · cases req.operation with
      | listCases =>
        simp only [listCases_run_eq, wp_bind, wp_request]
        intro i w
        refine ⟨rfl, ?_⟩
        have hlast := readsUndeliverable_concat hnone i w context.tenantId
        cases hr : listOfReply (Obs.reply (M := apiMachine sql)
            ⟨i, w, .selectCases context.tenantId⟩) with
        | error e =>
          simp only [hr, reduceCtorEq, false_and, exists_false, iff_false] at hlast
          rw [hid]
          exact executed_failure (by decide) hlast
        | ok cases =>
          simp only [hr, Except.ok.injEq, exists_eq_left'] at hlast
          exact executed_list hreq hlast

/-- A complete execution of `execute` exchanges nothing, and its answer keeps the guarantee. -/
theorem execute_run {state : AppState} {frame : List UInt8} {h : History sql}
    {bytes : List UInt8} (hf : Follows (execute state frame) h (.pure bytes)) :
    (∀ o ∈ h, isExchange o.call = false) ∧ Executed frame h bytes := by
  exact hf.result (wp_calls_nil (execute_wp state frame))

/-! ### The connection -/

omit [ApmeInterfaces] [SharedAuth] in
/-- A frame within the bound of requests is read. -/
theorem readFrame_reply {i : Input} {frame : List UInt8} (hread : i.read = .frame frame)
    (hlen : frame.length ≤ maxRequestBytes) (w : World) :
    Obs.reply (M := apiMachine sql) ⟨i, w, .readFrame codec⟩ = .frame frame := by
  change codec.decode i.read = _
  rw [hread]
  exact if_neg (Nat.not_lt_of_le hlen)

omit [ApmeInterfaces] [SharedAuth] in
/-- A client that sends one frame, and then nothing, is cooperative. -/
theorem cooperative_single {i : Input} {frame : List UInt8} (hread : i.read = .frame frame)
    {h₁ h₂ : History sql} (hquiet : ∀ o ∈ h₁, isExchange o.call = false)
    (hrest : ∀ o ∈ h₂, o.input.read = .ended ∧ o.input.write = .written) (w : World) :
    Cooperative [frame] (⟨i, w, .readFrame codec⟩ :: (h₁ ++ h₂)) := by
  obtain ⟨hreads, hwrites, -⟩ := halves_append hquiet h₂
  have hended : ∀ r ∈ reads h₂, r = .ended := by
    intro r hr
    obtain ⟨⟨i, w, c⟩, ho, hr⟩ := List.mem_filterMap.mp hr
    cases c with
    | readFrame _ => exact (Option.some.inj hr).symm.trans (hrest _ ho).1
    | _ => cases hr
  have hwritten : ∀ r ∈ writes h₂, r = .written := by
    intro r hr
    obtain ⟨⟨i, w, c⟩, ho, hr⟩ := List.mem_filterMap.mp hr
    cases c with
    | writeFrame _ _ => exact (Option.some.inj hr).symm.trans (hrest _ ho).2
    | _ => cases hr
  refine ⟨fun k x hx => ?_, fun x hx => ?_⟩
  · cases k with
    | zero => exact (Option.some.inj hx).symm.trans hread
    | succ k =>
      change (reads (h₁ ++ h₂))[k]? = some x at hx
      rw [hreads] at hx
      exact hended x (List.mem_of_getElem? hx)
  · change x ∈ writes (h₁ ++ h₂) at hx
    rw [hwrites] at hx
    exact hwritten x hx

omit [ApmeInterfaces] [SharedAuth] in
/-- After a round the client is cooperative with the frames that are left. -/
theorem Cooperative.round {frame : List UInt8} {frames : List (List UInt8)}
    {h₁ t : History sql} {i i' : Input} {w w' : World} {response : List UInt8}
    (hquiet : ∀ o ∈ h₁, isExchange o.call = false)
    (hc : Cooperative (frame :: frames) (⟨i, w, .readFrame codec⟩ ::
      (h₁ ++ ⟨i', w', .writeFrame codec response⟩ :: t))) :
    i'.write = .written ∧ Cooperative frames t := by
  obtain ⟨hreads, hwrites, -⟩ :=
    halves_append hquiet (⟨i', w', .writeFrame codec response⟩ :: t)
  refine ⟨?_, fun k r hr => ?_, fun x hx => ?_⟩
  · refine hc.takes _ ?_
    change i'.write ∈ writes (h₁ ++ _)
    rw [hwrites]
    exact List.mem_cons_self ..
  · refine hc.sends (k + 1) r ?_
    change (reads (h₁ ++ _))[k]? = _
    rw [hreads]
    exact hr
  · refine hc.takes x ?_
    change x ∈ writes (h₁ ++ _)
    rw [hwrites]
    exact List.mem_cons_of_mem _ hx

omit [SharedAuth] in
/-- **A round keeps the contract**: one more frame is answered. -/
theorem Framed.round {frame : List UInt8} {frames : List (List UInt8)} {n : ℕ}
    {h₁ t : History sql} {i i' : Input} {w w' : World} {response : List UInt8}
    {r : Except String Unit} (hquiet : ∀ o ∈ h₁, isExchange o.call = false)
    (hex : Executed frame h₁ response) (hsmall : response.length ≤ maxRequestBytes)
    (hwrite : Obs.reply (M := apiMachine sql) ⟨i', w', .writeFrame codec response⟩ = .written)
    (ht : Framed frames n t r) :
    Framed (frame :: frames) (n + 1) (⟨i, w, .readFrame codec⟩ ::
      (h₁ ++ ⟨i', w', .writeFrame codec response⟩ :: t)) r := by
  obtain ⟨hanswered, haccepted, hresult⟩ := ht
  obtain ⟨-, -, hdelivered⟩ :=
    halves_append hquiet (⟨i', w', .writeFrame codec response⟩ :: t)
  have hfirst : delivered (⟨i, w, .readFrame codec⟩ ::
      (h₁ ++ ⟨i', w', .writeFrame codec response⟩ :: t)) = response :: delivered t := by
    change delivered (h₁ ++ _) = _
    rw [hdelivered]
    exact List.filterMap_cons_some (if_pos hwrite)
  refine ⟨?_, ?_, hresult⟩
  · rw [hfirst]
    exact .cons hex.answers hanswered
  · intro o ho c bytes hcall
    rcases List.mem_cons.mp ho with rfl | ho
    · cases hcall
    rcases List.mem_append.mp ho with ho | ho
    · have hq := hquiet o ho
      rw [hcall] at hq
      cases hq
    rcases List.mem_cons.mp ho with rfl | ho
    · obtain ⟨rfl, rfl⟩ := Call.writeFrame.inj hcall
      exact ⟨hex.nonempty, hex.bounded, hsmall⟩
    · exact haccepted o ho c bytes hcall

/-- **The loop.** With a cooperative client the contract holds unless an undeliverable list is
read, which ends the connection with an error. The induction is on the budget; one round takes
the first frame and leaves a cooperative client with the others. -/
theorem serveRequests_framed (state : AppState) (n : ℕ) :
    ∀ {frames : List (List UInt8)} {h : History sql} {r : Except String Unit},
      (∀ frame ∈ frames, frame.length ≤ maxRequestBytes) → Cooperative frames h →
      Follows (serveRequests state n).run h (.pure r) →
      (¬ ReadsUndeliverable h → Framed frames n h r) ∧ (ReadsUndeliverable h → r ≠ .ok ()) := by
  induction n with
  | zero =>
    intro frames h r hframes hc hf
    obtain ⟨rfl, rfl⟩ := Follows.of_pure hf
    refine ⟨fun _ => ⟨?_, by simp, rfl⟩, fun hu => ?_⟩
    · rw [List.take_zero]
      exact .nil
    · exact absurd hu (not_readsUndeliverable (by simp))
  | succ n ih =>
    intro frames h r hframes hc hf
    rw [serveRequests_run_succ] at hf
    obtain ⟨i, w, t, rfl, hk⟩ := hf.of_perform
    have hread : i.read = (frames[0]?).elim .ended .frame := hc.sends 0 i.read rfl
    cases frames with
    | nil =>
      have hreply : Obs.reply (M := apiMachine sql) ⟨i, w, .readFrame codec⟩ = .ended := by
        change codec.decode i.read = _
        rw [hread]
        rfl
      rw [hreply] at hk
      obtain ⟨rfl, rfl⟩ := Follows.of_pure hk
      refine ⟨fun _ => ⟨.nil, ?_, rfl⟩, fun hu => ?_⟩
      · intro o ho c bytes hcall
        obtain rfl := List.mem_singleton.mp ho
        cases hcall
      · exact absurd hu (not_readsUndeliverable (by simp))
    | cons frame frames =>
      rw [readFrame_reply hread (hframes frame (by simp))] at hk
      obtain ⟨h₁, h₂, response, rfl, hexec, hrest⟩ := Follows.of_bind hk
      obtain ⟨hquiet, hex⟩ := execute_run hexec
      have hok : ¬ (response.isEmpty ∨ maxResponseBytes < response.length) := by
        rintro (he | hlt)
        · exact hex.nonempty (List.isEmpty_iff.mp he)
        · exact absurd hex.bounded (Nat.not_le_of_lt hlt)
      rw [if_neg hok] at hrest
      obtain ⟨i', w', t, rfl, hrest'⟩ := hrest.of_perform
      obtain ⟨hwrite, hc'⟩ := hc.round hquiet
      -- an undeliverable list is read in this round or in a later one
      have hsplit : ReadsUndeliverable (⟨i, w, .readFrame codec⟩ ::
          (h₁ ++ ⟨i', w', .writeFrame codec response⟩ :: t)) ↔
            maxRequestBytes < response.length ∨ ReadsUndeliverable t := by
        rw [readsUndeliverable_cons rfl, readsUndeliverable_append, readsUndeliverable_cons rfl,
          hex.undeliverable]
      rw [hsplit]
      -- `FrameCodec` has the bound of requests for both directions
      rcases Nat.lt_or_ge maxRequestBytes response.length with hbig | hsmall
      · have hreply' : Obs.reply (M := apiMachine sql) ⟨i', w', .writeFrame codec response⟩ =
            .failed "frame size too big" := if_pos hbig
        rw [hreply'] at hrest'
        obtain ⟨rfl, rfl⟩ := Follows.of_pure hrest'
        exact ⟨fun hno => absurd (.inl hbig) hno, fun _ => by simp⟩
      · have hreply' : Obs.reply (M := apiMachine sql) ⟨i', w', .writeFrame codec response⟩ =
            .written := (if_neg (Nat.not_lt_of_le hsmall)).trans hwrite
        rw [hreply'] at hrest'
        obtain ⟨hframed, hfails⟩ := ih (fun f hf => hframes f (by simp [hf])) hc' hrest'
        constructor
        · intro hno
          exact (hframed fun hu => hno (.inr hu)).round hquiet hex hsmall hreply'
        · rintro (hlt | hu)
          · exact absurd hlt (Nat.not_lt_of_le hsmall)
          · exact hfails hu

/-- **Exactness.** With a cooperative client whose frames are within the bound of requests, the
framing contract holds exactly when no list is read whose answer is within the bound of
responses but above that of the codec. -/
theorem framed_iff (state : AppState) (config : Config) {frames : List (List UInt8)}
    {h : History sql} {r : Except String Unit}
    (hframes : ∀ frame ∈ frames, frame.length ≤ maxRequestBytes) (hc : Cooperative frames h)
    (hf : Follows (serveConnection state config).run h (.pure r)) :
    Framed frames config.maxRequestsPerConnection h r ↔ ¬ ReadsUndeliverable h := by
  obtain ⟨hframed, hfails⟩ := serveRequests_framed state _ hframes hc hf
  exact ⟨fun hr hu => hfails hu hr.result, hframed⟩

end Contract

/-! ### A tenant with forty cases

One request of an authorized client for a list of forty ordinary cases: the answer has 21516
bytes, which `execute` returns and the codec refuses. -/

section FortyCases

open Reference

/-- The `i`-th of forty ordinary cases, as a row. -/
def sampleRow (i : ℕ) : CaseRow where
  id := ⟨BitVec.ofNat 128 i⟩
  tenantId := Uuid.nil
  version := 1
  title := "Birth certificate for enrolment"
  summary := "Apostille of a birth certificate"
  clientReference := "CLIENT"
  destinationCountry := "Peru"
  documentType := "birth_certificate"
  nextActionDueAt := none
  status := "intake"
  retentionClass := "standard"
  retainUntil := 1893456000000000000
  legalHold := false
  tombstonedAt := none
  encryptedObjectReference := none
  ciphertextSha256 := none
  objectKeyVersion := none
  createdAt := 1787572800000000000
  updatedAt := 1787572800000000000

/-- The case of `sampleRow`. -/
def sampleCase (i : ℕ) : PersistedCase where
  id := ⟨BitVec.ofNat 128 i⟩
  tenantId := Uuid.nil
  version := 1
  title := "Birth certificate for enrolment"
  summary := "Apostille of a birth certificate"
  clientReference := "CLIENT"
  destinationCountry := "Peru"
  documentType := "birth_certificate"
  nextActionDueAt := none
  status := .intake
  retentionClass := .standard
  retainUntil := 1893456000000000000
  legalHold := false
  tombstonedAt := none
  encryptedDocument := none
  createdAt := 1787572800000000000
  updatedAt := 1787572800000000000

/-- The database of a tenant with one member and forty cases. -/
def fortyCases : Db :=
  { Db.empty with
    tenants := [⟨Uuid.nil, Uuid.nil⟩]
    memberships := [⟨Uuid.nil, "user", "viewer", true⟩]
    cases := (List.range 40).map sampleRow }

/-- The world of the request. -/
def sampleWorld : World := .initial fortyCases 1787572800000000000

/-- The surroundings vouch for the user, and the client takes every write. -/
def sampleInput : Input where
  guard := .authenticated ⟨"user", some "session", false⟩ .sharedAuth
  introspection := some ⟨true, some "user", some "issuer", some "audience", some "session", none,
    some 2000000000, some "apme:cases:read"⟩

def sampleState : AppState := ⟨⟨"issuer", "audience"⟩⟩

/-- A request frame. -/
def sampleFrame : List UInt8 :=
  Json.render (.obj [("request_id", .str Uuid.nil.toString), ("tenant_id", .str Uuid.nil.toString),
    ("bearer_token", .str "token"), ("operation", .str "list_cases")])

theorem decode_sampleFrame :
    FrameRequest.decode sampleFrame = some ⟨Uuid.nil, Uuid.nil, "token", .listCases⟩ := by
  decide +kernel

/-- The request is authorized. -/
theorem authorized_sample :
    ((authorizeToken sampleState "token" Uuid.nil [casesReadScope]).run.run
      (apiMachine Reference.sql) (fun _ => sampleInput) sampleWorld).1 =
        .ok (⟨"user", "session"⟩, ⟨Uuid.nil, Uuid.nil, .viewer⟩) := by
  decide +kernel

/-- The store answers forty cases. -/
theorem listed_sample : listOfReply (Obs.reply (M := apiMachine Reference.sql)
    ⟨sampleInput, sampleWorld, .selectCases Uuid.nil⟩) = .ok ((List.range 40).map sampleCase) := by
  decide +kernel

/-- Each of the cases takes 534 bytes. -/
theorem length_sampleCase (i : ℕ) :
    (Json.render (persistedCaseJson (sampleCase i))).length = 534 := by
  simp only [persistedCaseJson, sampleCase, Json.render, Json.renderMembers, List.length_append,
    List.length_cons, Uuid.length_quote_toString]
  decide +kernel

/-- Their answer is between the two bounds. -/
theorem undeliverable_sample : Undeliverable ((List.range 40).map sampleCase) := by
  have hlen : listLength ((List.range 40).map sampleCase) = 21401 := by
    have hmap : (((List.range 40).map sampleCase).map ApmeInterfaces.persistedCaseJson).map
        (fun x => x.render.length) = List.replicate 40 534 := by
      rw [List.map_map, List.map_map, List.eq_replicate_iff]
      refine ⟨by simp, fun n hn => ?_⟩
      obtain ⟨i, -, rfl⟩ := List.mem_map.mp hn
      exact length_sampleCase i
    rw [listLength, Json.render, List.length_cons, List.length_append, Json.length_renderElements,
      hmap]
    simp
  rw [Undeliverable, hlen]
  decide

/-- The answer of `execute`. -/
def sampleAnswer : List UInt8 :=
  let value := encodeList Uuid.nil ((List.range 40).map sampleCase)
  if value.length ≤ maxResponseBytes then value
  else encodeFailure Uuid.nil "response_too_large"

/-- The client's frame is within the bound of requests. -/
theorem length_sampleFrame : sampleFrame.length ≤ maxRequestBytes := by
  decide +kernel

/-- The run of `execute`: the request is authorized and the list is read. -/
theorem execute_sample : ∃ (h : History Reference.sql) (answer : List UInt8),
    Follows (execute sampleState sampleFrame)
      (h ++ [⟨sampleInput, sampleWorld, .selectCases Uuid.nil⟩]) (.pure answer) := by
  have hauth := Prog.follows_trace (M := apiMachine Reference.sql)
    (authorizeToken sampleState "token" Uuid.nil [casesReadScope]).run (fun _ => sampleInput)
    sampleWorld
  rw [authorized_sample] at hauth
  generalize Prog.trace _ _ _ _ = h₁ at hauth
  refine ⟨h₁, sampleAnswer, ?_⟩
  rw [execute, decode_sampleFrame]
  refine Follows.append hauth ?_
  simp only [listCases_run_eq, bind_assoc, pure_bind]
  refine Follows.perform rfl ?_
  rw [listed_sample]
  exact .nil _

/-- The run of the connection: after the answer, the client's half is at its end and every
write is taken. -/
theorem exists_undeliverable_run : ∃ (h : History Reference.sql) (r : Except String Unit),
    Cooperative [sampleFrame] h ∧
      Follows (serveConnection sampleState ⟨64⟩).run h (.pure r) ∧ ReadsUndeliverable h := by
  obtain ⟨h₁, answer, hexec⟩ := execute_sample
  have hread := @readFrame_reply Reference.sql
    { sampleInput with read := .frame sampleFrame } sampleFrame rfl length_sampleFrame sampleWorld
  obtain ⟨h₂, r, hinput, hf⟩ : ∃ (h₂ : History Reference.sql) (r : Except String Unit),
      (∀ o ∈ h₂, o.input = sampleInput) ∧ Follows (serveConnection sampleState ⟨64⟩).run
        (⟨{ sampleInput with read := .frame sampleFrame }, sampleWorld, .readFrame codec⟩ ::
          ((h₁ ++ [⟨sampleInput, sampleWorld, .selectCases Uuid.nil⟩]) ++ h₂)) (.pure r) := by
    rw [serveConnection, serveRequests_run_succ]
    generalize sampleFrame = frame at hread hexec ⊢
    refine ⟨_, _, fun o ho => ?_, Follows.perform hread
      (Follows.append hexec (Prog.follows_trace _ (fun _ => sampleInput) sampleWorld))⟩
    obtain ⟨n, hn⟩ := Prog.input_of_mem_trace ho
    exact hn
  have hquiet := (execute_run hexec).1
  have hhalf : ∀ o ∈ h₂, o.input.read = .ended ∧ o.input.write = .written := by
    intro o ho
    rw [hinput o ho]
    exact ⟨rfl, rfl⟩
  have hcoop := cooperative_single
    (i := { sampleInput with read := .frame sampleFrame }) rfl hquiet hhalf sampleWorld
  exact ⟨_, r, hcoop, hf, readsUndeliverable_of_mem (by simp) listed_sample undeliverable_sample⟩

/-- The frame of that run is within the bound of requests. -/
theorem sampleFrames_le : ∀ frame ∈ [sampleFrame], frame.length ≤ maxRequestBytes := by
  intro frame hm
  rw [List.mem_singleton.mp hm]
  exact length_sampleFrame

/-- **The contract fails.** -/
theorem not_framed : ¬ ∀ (state : AppState) (config : Config) (frames : List (List UInt8))
    (h : History Reference.sql) (r : Except String Unit),
    (∀ frame ∈ frames, frame.length ≤ maxRequestBytes) → Cooperative frames h →
      Follows (serveConnection state config).run h (.pure r) →
        Framed frames config.maxRequestsPerConnection h r := by
  intro hall
  obtain ⟨h, r, hc, hf, hu⟩ := exists_undeliverable_run
  have hframed := hall sampleState ⟨64⟩ [sampleFrame] h r sampleFrames_le hc hf
  exact (serveRequests_framed sampleState 64 sampleFrames_le hc hf).2 hu hframed.result

/-- The exact condition on that run, where it does not hold. -/
theorem framed_iff_sample : ∃ (h : History Reference.sql) (r : Except String Unit),
    (Framed [sampleFrame] 64 h r ↔ ¬ ReadsUndeliverable h) ∧ ReadsUndeliverable h := by
  obtain ⟨h, r, hc, hf, hu⟩ := exists_undeliverable_run
  exact ⟨h, r, framed_iff sampleState ⟨64⟩ sampleFrames_le hc hf, hu⟩

end FortyCases

end ApmeApi.Tcp
