import ApmeApi.Lib.Utf8
import ApmeApi.Service.Authorization
import ApmeApi.Service.Reference

/-!
# Tokens that arrive without headers

A frame carries its bearer token as a member. `authorizeToken` puts it into a header map of its
own, from which authentication extracts it again. The two use different classes of characters: the
check of the token is about Unicode white space and controls, `HeaderValue::from_str` about bytes,
`to_str` about visible ASCII, the extraction trims Unicode white space. Together they either
refuse a token before anything is asked, or pass it on unchanged (`token_passed`).
-/

namespace ApmeApi

open Interaction

variable {sql : SqlFunctions}

/-- A token of visible ASCII characters, within the limit. -/
structure VisibleToken (token : String) : Prop where
  nonempty : token ≠ ""
  size : token.utf8ByteSize ≤ 16 * 1024
  visible : ∀ c ∈ token.toList, 0x21 ≤ c.toNat ∧ c.toNat ≤ 0x7E

/-! ### Characters -/

/-- A character that is neither white space nor a control is visible, or beyond ASCII. -/
theorem visible_of_ascii {c : Char} (hspace : Text.isWhitespace c = false)
    (hcontrol : Text.isControl c = false) (hascii : c.toNat < 0x80) :
    0x21 ≤ c.toNat ∧ c.toNat ≤ 0x7E := by
  simp only [Text.isWhitespace, Bool.or_eq_false_iff, beq_eq_false_iff_ne] at hspace
  simp only [Text.isControl, Bool.or_eq_false_iff, Bool.and_eq_false_iff,
    decide_eq_false_iff_not] at hcontrol
  omega

/-- A visible ASCII character is neither white space nor a control. -/
theorem not_isWhitespace_of_visible {c : Char} (h : 0x21 ≤ c.toNat ∧ c.toNat ≤ 0x7E) :
    Text.isWhitespace c = false ∧ Text.isControl c = false := by
  constructor
  · simp only [Text.isWhitespace, Bool.or_eq_false_iff, beq_eq_false_iff_ne,
      Bool.and_eq_false_iff, decide_eq_false_iff_not]
    omega
  · simp only [Text.isControl, Bool.or_eq_false_iff, Bool.and_eq_false_iff,
      decide_eq_false_iff_not]
    omega

/-- A text without white space is not shortened by trimming. -/
theorem trim_eq_self {s : String} (h : ∀ c ∈ s.toList, Text.isWhitespace c = false) :
    Text.trim s = s := by
  have hdrop : ∀ {l : List Char}, (∀ c ∈ l, Text.isWhitespace c = false) →
      l.dropWhile Text.isWhitespace = l := by
    intro l hl
    cases l with
    | nil => rfl
    | cons c l => exact List.dropWhile_cons_of_neg (by simp [hl c List.mem_cons_self])
  rw [Text.trim, hdrop h, hdrop (fun c hc => h c (List.mem_reverse.mp hc)), List.reverse_reverse,
    String.ofList_toList]

/-- What stands behind a prefix. -/
theorem stripPrefix_append (p s : String) : Text.stripPrefix p (p ++ s) = some s := by
  rw [Text.stripPrefix, String.toList_append, Text.stripPrefixList_eq_some_iff.mpr rfl,
    Option.map_some, String.ofList_toList]

/-- The bytes of an ASCII text are read back as this text, when they are visible or blanks. -/
theorem toStr_utf8 {s : String} (h : ∀ c ∈ s.toList, 0x20 ≤ c.toNat ∧ c.toNat ≤ 0x7E) :
    HeaderMap.toStr (Text.utf8 s.toList) = some s := by
  have hbytes : Text.utf8 s.toList = s.toList.map fun c => UInt8.ofNat c.toNat :=
    Text.utf8_ascii fun c hc => by have hb := h c hc; omega
  have htoNat : ∀ c ∈ s.toList, (UInt8.ofNat c.toNat).toNat = c.toNat := by
    intro c hc
    have hb := h c hc
    rw [UInt8.toNat_ofNat']
    omega
  have hall : (Text.utf8 s.toList).all
      (fun b => (0x20 ≤ b && b < 0x7F) || b = 0x09) = true := by
    rw [hbytes, List.all_eq_true]
    intro b hb
    obtain ⟨c, hc, rfl⟩ := List.mem_map.mp hb
    have hrange := h c hc
    have hnat := htoNat c hc
    simp only [Bool.or_eq_true, Bool.and_eq_true, decide_eq_true_eq]
    refine .inl ⟨?_, ?_⟩
    · rw [UInt8.le_iff_toNat_le, hnat]
      exact hrange.1
    · rw [UInt8.lt_iff_toNat_lt, hnat]
      exact Nat.lt_of_le_of_lt hrange.2 (by decide)
  rw [HeaderMap.toStr, if_pos hall, hbytes, List.map_map]
  have hback : s.toList.map ((fun b : UInt8 => Char.ofNat b.toNat) ∘
      fun c => UInt8.ofNat c.toNat) = s.toList := by
    refine (List.map_congr_left fun c hc => ?_).trans (List.map_id s.toList)
    rw [Function.comp_apply, htoNat c hc, Char.ofNat_toNat]
    rfl
  rw [hback, String.ofList_toList]

/-- A text beyond ASCII is not read back. -/
theorem toStr_utf8_eq_none {s : String} {c : Char} (hc : c ∈ s.toList) (h : 0x80 ≤ c.toNat) :
    HeaderMap.toStr (Text.utf8 s.toList) = none := by
  obtain ⟨b, hb, hge⟩ := Text.exists_utf8_of_not_ascii hc h
  refine if_neg fun hall => ?_
  have hvisible := List.all_eq_true.mp hall b hb
  simp only [Bool.or_eq_true, Bool.and_eq_true, decide_eq_true_eq,
    UInt8.lt_iff_toNat_lt] at hvisible
  rcases hvisible with ⟨-, hlt⟩ | rfl
  · exact absurd hlt (Nat.not_lt.mpr (Nat.le_trans (by decide) hge))
  · exact absurd hge (by decide)

/-! ### Credentials -/

/-- The value of the header that a token is put into. -/
def bearerValue (token : String) : List UInt8 := Text.utf8 ("Bearer " ++ token).toList

/-- The characters of the value: those of the scheme and those of the token. -/
theorem mem_bearerValue {token : String} {c : Char} (hc : c ∈ ("Bearer " ++ token).toList) :
    (0x20 ≤ c.toNat ∧ c.toNat ≤ 0x7E) ∨ c ∈ token.toList := by
  rw [String.toList_append] at hc
  rcases List.mem_append.mp hc with hc | hc
  · left
    have hscheme : ("Bearer ".toList.all fun c => 0x20 ≤ c.toNat ∧ c.toNat ≤ 0x7E) = true := by
      decide
    exact of_decide_eq_true (List.all_eq_true.mp hscheme c hc)
  · exact .inr hc

/-- **Extraction.** A token of visible ASCII is extracted from a header map in which it stands
behind the scheme. -/
theorem bearer_eq_some {headers : HeaderMap} {token : String}
    (hget : headers.get "authorization" = some (bearerValue token)) (hne : token ≠ "")
    (hvisible : ∀ c ∈ token.toList, 0x21 ≤ c.toNat ∧ c.toNat ≤ 0x7E) :
    bearer headers = some token := by
  have hstr : HeaderMap.toStr (bearerValue token) = some ("Bearer " ++ token) := by
    refine toStr_utf8 fun c hc => ?_
    rcases mem_bearerValue hc with hc | hc
    · exact hc
    · have hb := hvisible c hc
      omega
  have htrim : Text.trim token = token :=
    trim_eq_self fun c hc => (not_isWhitespace_of_visible (hvisible c hc)).1
  have hempty : token.isEmpty = false := by simpa [String.isEmpty_iff] using hne
  rw [bearer, HeaderMap.getStr, hget, Option.bind_some, hstr, Option.bind_some,
    stripPrefix_append, Option.map_some, htrim]
  simp [Option.filter, hempty]

/-- **Injection.** A token that passes the check is put into the only header, behind the scheme;
and the check is passed by all visible tokens. -/
theorem tokenHeaders_eq_some {token : String} {headers : HeaderMap}
    (h : tokenHeaders token = some headers) :
    headers = ⟨[("authorization", bearerValue token)]⟩ ∧ token ≠ "" ∧
      ∀ c ∈ token.toList, Text.isWhitespace c = false ∧ Text.isControl c = false := by
  rw [tokenHeaders] at h
  split at h
  · cases h
  · rename_i hcheck
    simp only [Bool.or_eq_true, not_or, Bool.not_eq_true, List.any_eq_false,
      decide_eq_true_eq] at hcheck
    obtain ⟨⟨⟨hempty, -⟩, hspace⟩, hcontrol⟩ := hcheck
    obtain ⟨value, hvalue, rfl⟩ := Option.map_eq_some_iff.mp h
    rw [HeaderMap.fromStr] at hvalue
    split at hvalue
    · refine ⟨by rw [← Option.some.inj hvalue]; rfl, ?_, fun c hc => ⟨?_, ?_⟩⟩
      · rintro rfl
        cases hempty
      · simpa using hspace c hc
      · simpa using hcontrol c hc
    · cases hvalue

theorem VisibleToken.tokenHeaders {token : String} (h : VisibleToken token) :
    tokenHeaders token = some ⟨[("authorization", bearerValue token)]⟩ := by
  have hchars := fun c hc => not_isWhitespace_of_visible (h.visible c hc)
  have hspace : token.toList.any Text.isWhitespace = false :=
    List.any_eq_false.mpr fun c hc => by simp [(hchars c hc).1]
  have hcontrol : token.toList.any Text.isControl = false :=
    List.any_eq_false.mpr fun c hc => by simp [(hchars c hc).2]
  have hempty : token.isEmpty = false := by simpa [String.isEmpty_iff] using h.nonempty
  have hsize : ¬ 16 * 1024 < token.utf8ByteSize := Nat.not_lt.mpr h.size
  -- the value is visible ASCII and blanks, so the header map accepts it
  have hvalue : HeaderMap.fromStr ("Bearer " ++ token) = some (bearerValue token) := by
    refine if_pos (List.all_eq_true.mpr fun b hb => ?_)
    have hascii : ∀ c ∈ ("Bearer " ++ token).toList, 0x20 ≤ c.toNat ∧ c.toNat ≤ 0x7E := by
      intro c hc
      rcases mem_bearerValue hc with hc | hc
      · exact hc
      · have hb := h.visible c hc
        omega
    rw [Text.utf8_ascii fun c hc => by have hb := hascii c hc; omega] at hb
    obtain ⟨c, hc, rfl⟩ := List.mem_map.mp hb
    have hrange := hascii c hc
    have hnat : (UInt8.ofNat c.toNat).toNat = c.toNat := by
      rw [UInt8.toNat_ofNat']
      omega
    simp only [Bool.or_eq_true, Bool.and_eq_true, decide_eq_true_eq, ne_eq]
    refine .inl ⟨?_, fun heq => ?_⟩
    · rw [UInt8.le_iff_toNat_le, hnat]
      exact hrange.1
    · have hdel := congrArg UInt8.toNat heq
      rw [hnat] at hdel
      have hnum : c.toNat = 127 := hdel
      omega
  rw [ApmeApi.tokenHeaders, hempty, hspace, hcontrol, decide_eq_false hsize]
  simp [hvalue]

/-! ### Authentication -/

section

variable [SharedAuth]

/-- **Only the extracted token is introspected.** -/
theorem authenticate_bearer (service : AuthService) (headers : HeaderMap) (scopes : List String)
    (h : History sql) :
    wp (fun _ (o : Observed sql) => ∀ b a s, o.call = .introspect b a s → bearer headers = some b)
      (fun _ _ => True) (service.authenticateWithScopes headers scopes).run h := by
  rw [AuthService.authenticateWithScopes]
  cases hb : bearer headers with
  | none => trivial
  | some token =>
    simp only [wp_run_bind, wp_run_lift, wp_request]
    refine fun i w => ⟨fun _ _ _ hc => (by cases hc), ?_⟩
    cases Obs.reply (M := apiMachine sql) ⟨i, w, .guardCheck headers⟩ with
    | anonymous => trivial
    | unauthenticated => trivial
    | degraded => trivial
    | authenticated identity authority =>
      dsimp only
      split
      · simp only [wp_run_bind, wp_run_lift, wp_request]
        refine fun i' w' => ⟨fun b a s hc => by rw [(Call.introspect.inj hc).1], ?_⟩
        cases Obs.reply (M := apiMachine sql)
          ⟨i', w', .introspect token service.audience scopes⟩ with
        | none => trivial
        | some introspection =>
          simp only [wp_run_bind, wp_run_lift, wp_request, wp_run_ofExcept]
          exact fun i'' w'' => ⟨fun _ _ _ hc => (by cases hc), trivial⟩
      · trivial

/-- Without a token that can be extracted nothing is asked. -/
theorem authenticate_of_bearer_eq_none {service : AuthService} {headers : HeaderMap}
    (scopes : List String) (h : bearer headers = none) :
    service.authenticateWithScopes headers scopes = throw .unauthorized := by
  rw [AuthService.authenticateWithScopes, h]

omit [SharedAuth] in
/-- The header of a map of one header. -/
theorem get_bearerValue (token : String) :
    HeaderMap.get ⟨[("authorization", bearerValue token)]⟩ "authorization" =
      some (bearerValue token) := by
  simp [HeaderMap.get]

omit [SharedAuth] in
/-- **What is extracted from the map of a token is this token**, or nothing. -/
theorem bearer_of_tokenHeaders {token : String} {headers : HeaderMap}
    (hh : tokenHeaders token = some headers) :
    bearer headers = none ∨ bearer headers = some token := by
  obtain ⟨rfl, hne, hchars⟩ := tokenHeaders_eq_some hh
  by_cases hascii : ∀ c ∈ token.toList, c.toNat < 0x80
  · exact .inr (bearer_eq_some (get_bearerValue token) hne fun c hc =>
      visible_of_ascii (hchars c hc).1 (hchars c hc).2 (hascii c hc))
  · left
    -- beyond ASCII the value has a byte that no header text may have
    push Not at hascii
    obtain ⟨c, hc, hge⟩ := hascii
    have hmem : c ∈ ("Bearer " ++ token).toList := by
      rw [String.toList_append]
      exact List.mem_append_right _ hc
    rw [bearer, HeaderMap.getStr, get_bearerValue, Option.bind_some, bearerValue,
      toStr_utf8_eq_none hmem hge]
    rfl

/-- Authorization by a token introspects nothing but this token. -/
theorem authorizeToken_introspects (state : AppState) (token : String) (tenantId : Uuid)
    (scopes : List String) :
    wp (fun _ (o : Observed sql) => ∀ b a s, o.call = .introspect b a s → b = token)
      (fun _ _ => True) (authorizeToken state token tenantId scopes).run [] := by
  rw [authorizeToken]
  cases hh : tokenHeaders token with
  | none => trivial
  | some headers =>
    simp only [ofAuth, ofCases, wp_run_bind, wp_run_adapt]
    refine wp_mono (authenticate_bearer state.auth headers scopes []) ?_ ?_
    · intro t o hb b a s hc
      rcases bearer_of_tokenHeaders hh with hnone | hsome
      · cases hnone.symm.trans (hb b a s hc)
      · exact Option.some.inj ((hb b a s hc).symm.trans hsome)
    · rintro t r -
      rcases r with f | subject
      · trivial
      · refine wp_mono (tenantContext_wp (G := fun _ (o : Observed sql) => ∀ b a s,
          o.call = .introspect b a s → b = token) subject tenantId
          (fun _ _ _ _ _ _ hc => (by cases hc)) _) (fun _ _ hg => hg) ?_
        rintro t' r -
        rcases r with e | context <;> trivial

/-- The only header that a token is put into. -/
abbrev tokenHeader (token : String) : HeaderMap := ⟨[("authorization", bearerValue token)]⟩

/-- **The token is passed on**: authorization is the authentication of a map with one header, the
token behind the scheme, and then the membership query. From this map exactly the token is
extracted, so the guard is asked about this map, and if it vouches for a user outside the sandbox,
exactly the token is introspected. -/
structure PassedOn (state : AppState) (token : String) (tenantId : Uuid)
    (scopes : List String) : Prop where
  authorizes : authorizeToken state token tenantId scopes = do
    let subject ← ofAuth (state.auth.authenticateWithScopes (tokenHeader token) scopes)
    let context ← ofCases (CaseService.tenantContext subject tenantId)
    return (subject, context)
  extracted : bearer (tokenHeader token) = some token
  asks : ∃ k, (authorizeToken state token tenantId scopes).run =
      .call (S := apiSig) (.guardCheck (tokenHeader token)) k ∧
    ∀ identity, identity.isSandboxed = false → ∃ k',
      k (.authenticated identity .sharedAuth) =
        .call (.introspect token state.auth.audience scopes) k'

/-- A token that is extracted from its header is passed on. -/
theorem passedOn_of_bearer {state : AppState} {token : String} {tenantId : Uuid}
    {scopes : List String} (hh : tokenHeaders token = some (tokenHeader token))
    (hb : bearer (tokenHeader token) = some token) : PassedOn state token tenantId scopes := by
  have hgoes : authorizeToken state token tenantId scopes = do
      let subject ← ofAuth (state.auth.authenticateWithScopes (tokenHeader token) scopes)
      let context ← ofCases (CaseService.tenantContext subject tenantId)
      return (subject, context) := by
    rw [authorizeToken, hh]
  refine ⟨hgoes, hb, ?_⟩
  rw [hgoes, AuthService.authenticateWithScopes, hb]
  refine ⟨_, rfl, fun identity hsandbox => ?_⟩
  -- a full identity of the shared authority goes to introspection
  obtain ⟨user, session, sandboxed⟩ := identity
  obtain rfl : sandboxed = false := hsandbox
  exact ⟨_, rfl⟩

/-- **A token is passed on unchanged, or nothing is asked.** For every text given as a token:
authorization answers `unauthorized` without a call, or the token is passed on; the latter for
every token of visible ASCII within the limit. And in every execution nothing but this token is
introspected. -/
theorem token_passed (state : AppState) (token : String) (tenantId : Uuid)
    (scopes : List String) :
    ((authorizeToken state token tenantId scopes).run =
        pure (.error (.authentication .unauthorized)) ∨
      PassedOn state token tenantId scopes) ∧
    (VisibleToken token → PassedOn state token tenantId scopes) ∧
    ∀ (h : History sql) (q : Prog apiSig (Except ApiError (VerifiedSubject × TenantContext))),
      Follows (authorizeToken state token tenantId scopes).run h q →
        ∀ o ∈ h, ∀ b a s, o.call = .introspect b a s → b = token := by
  refine ⟨?_, fun hv => passedOn_of_bearer hv.tokenHeaders
    (bearer_eq_some (get_bearerValue token) hv.nonempty hv.visible), ?_⟩
  · cases hh : tokenHeaders token with
    | none =>
      left
      rw [authorizeToken, hh]
      rfl
    | some headers =>
      obtain ⟨rfl, -⟩ := tokenHeaders_eq_some hh
      -- a map without a token in it is as good as no map
      rcases bearer_of_tokenHeaders hh with hnone | hsome
      · left
        rw [authorizeToken, hh]
        simp only [authenticate_of_bearer_eq_none scopes hnone]
        rfl
      · exact .inr (passedOn_of_bearer hh hsome)
  · intro h q hf o ho b a s hcall
    obtain ⟨h₁, h₂, rfl⟩ := List.append_of_mem ho
    exact hf.guarantee (authorizeToken_introspects state token tenantId scopes) rfl b a s hcall

end

/-! ### Two tokens -/

section Tokens

open Reference

/-- A token of visible ASCII. -/
theorem visibleToken_sample : VisibleToken "token" := by
  have hvisible : ("token".toList.all fun c => 0x21 ≤ c.toNat ∧ c.toNat ≤ 0x7E) = true := by
    decide
  exact ⟨by decide, by decide, fun c hc => of_decide_eq_true (List.all_eq_true.mp hvisible c hc)⟩

/-- Its authorization asks the guard about its header and then has it introspected. -/
theorem token_passed_sample : PassedOn Reference.state "token" Uuid.nil [casesReadScope] :=
  (@token_passed Reference.sql _ Reference.state "token" Uuid.nil [casesReadScope]).2.1
    visibleToken_sample

/-- A letter beyond ASCII passes the check, and is refused without a call. -/
example : (tokenHeaders "\u00e9").isSome ∧
    (authorizeToken Reference.state "\u00e9" Uuid.nil [casesReadScope]).run =
      pure (.error (.authentication .unauthorized)) := ⟨by decide, rfl⟩

end Tokens

end ApmeApi
