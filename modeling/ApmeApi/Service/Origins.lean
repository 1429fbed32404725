import ApmeApi.Lib.Traversal
import ApmeApi.Lib.Utf8
import ApmeApi.Lib.WebOrigin
import ApmeApi.Service.Http

/-!
# The browser origins that the API allows

`parseAllowedOrigins` reads the allow-list of the CORS layer: parts between commas, trimmed, the
blank ones left out. A part has to begin with one of the two schemes and is then held against a
list of what must not stand in it. What passes is not always an origin: user information, white
space, wildcards and anything behind a colon pass as well (`exactlyOrigins_iff`).
-/

namespace ApmeApi

open Traversal
open Web (Scheme Origin Idna)

/-! ### The parser -/

def defaultDevOrigins : String := "http://127.0.0.1:3000,http://localhost:3000"

/-- One part of the list. -/
def parseOrigin (origin : String) : Except String (List UInt8) :=
  if origin = "*" then .error "wildcard CORS origins are not allowed"
  else
    match (Text.stripPrefix "https://" origin).or (Text.stripPrefix "http://" origin) with
    | none => .error s!"CORS origin must use http or https: {origin}"
    | some authority =>
      if authority = "" ∨ '/' ∈ authority.toList ∨ '?' ∈ authority.toList ∨
          '#' ∈ authority.toList then
        .error s!"CORS origin must not contain a path, query, or fragment: {origin}"
      else
        match HeaderMap.fromStr origin with
        | none => .error "failed to parse header value"
        | some value => .ok value

/-- The parts of the list that are not blank, trimmed. -/
def originCandidates (raw : String) : List String :=
  ((raw.toList.splitOn ',').map fun part => Text.trim (String.ofList part)).filter
    fun origin => origin ≠ ""

def parseAllowedOrigins (raw : String) : Except String (List (List UInt8)) :=
  if originCandidates raw = [] then
    .error "CORS_ALLOWED_ORIGINS must contain at least one origin"
  else (originCandidates raw).mapM parseOrigin

/-- The CORS layer, as far as it is configured here. -/
structure CorsLayer where
  allowOrigin : List (List UInt8)
  allowMethods : List String
  allowHeaders : List String
  deriving DecidableEq

def corsLayer (raw : String) : Except String CorsLayer := do
  let origins ← parseAllowedOrigins raw
  return ⟨origins, ["GET", "POST"],
    ["authorization", "content-type", tenantHeader, idempotencyHeader]⟩

/-- `cors_layer_from_env`, over the variables of the environment that are Unicode. -/
def corsLayerFromEnv (env : String → Option String) : Except String CorsLayer :=
  match env "CORS_ALLOWED_ORIGINS" with
  | some value => corsLayer value
  | none =>
    if (env "APP_ENV").any fun value => value.toList.map Char.toLower = "production".toList then
      .error "CORS_ALLOWED_ORIGINS is required when APP_ENV=production"
    else corsLayer defaultDevOrigins

/-! ### What the checks let through -/

/-- A character that can stand in a header value. -/
def IsHeaderChar (c : Char) : Prop := c = '\t' ∨ (0x20 ≤ c.toNat ∧ c.toNat ≠ 0x7F)

/-- The bytes of a character are bytes of a header value when the character is one. -/
theorem headerBytes_iff (c : Char) :
    ((String.utf8EncodeChar c).all fun b => (0x20 ≤ b && b ≠ 0x7F) || b = 0x09) = true ↔
      IsHeaderChar c := by
  by_cases hlt : c.toNat < 0x80
  · have hnat : (UInt8.ofNat c.toNat).toNat = c.toNat := by
      rw [UInt8.toNat_ofNat']
      omega
    have htab : c = '\t' ↔ c.toNat = 9 :=
      ⟨fun h => h ▸ rfl, fun h => Char.toNat_inj.mp (h.trans rfl)⟩
    rw [Text.utf8EncodeChar_of_lt hlt, List.all_cons, List.all_nil, Bool.and_true, IsHeaderChar,
      htab]
    simp only [Bool.or_eq_true, Bool.and_eq_true, decide_eq_true_eq, ne_eq,
      UInt8.le_iff_toNat_le, ← UInt8.toNat_inj, hnat]
    exact or_comm
  · refine iff_of_true (List.all_eq_true.mpr fun b hb => ?_) (.inr (by omega))
    have hge := Text.utf8EncodeChar_high (Nat.not_lt.mp hlt) b hb
    simp only [Bool.or_eq_true, Bool.and_eq_true, decide_eq_true_eq, ne_eq,
      UInt8.le_iff_toNat_le, ← UInt8.toNat_inj]
    refine .inl ⟨Nat.le_trans (by decide) hge, fun h => ?_⟩
    rw [h] at hge
    exact absurd hge (by decide)

theorem fromStr_eq_some_iff {s : String} {v : List UInt8} :
    HeaderMap.fromStr s = some v ↔ (∀ c ∈ s.toList, IsHeaderChar c) ∧ v = Text.utf8 s.toList := by
  have hall : ((Text.utf8 s.toList).all fun b => (0x20 ≤ b && b ≠ 0x7F) || b = 0x09) = true ↔
      ∀ c ∈ s.toList, IsHeaderChar c := by
    rw [Text.utf8, List.all_flatMap, List.all_eq_true]
    exact forall₂_congr fun c _ => headerBytes_iff c
  rw [HeaderMap.fromStr, Option.ite_none_right_eq_some, hall, Option.some_inj, eq_comm (a := v)]

/-- What the checks let through: behind a scheme, an authority that is not empty and has none of
the characters that are looked for. -/
structure Admitted (origin : List Char) (scheme : Scheme) (authority : List Char) : Prop where
  text : origin = scheme.text ++ authority
  nonempty : authority ≠ []
  bare : ∀ c ∈ authority, c ≠ '/' ∧ c ≠ '?' ∧ c ≠ '#' ∧ IsHeaderChar c

theorem stripPrefix_eq_some_iff {p s r : String} :
    Text.stripPrefix p s = some r ↔ s.toList = p.toList ++ r.toList := by
  rw [Text.stripPrefix, Option.map_eq_some_iff]
  constructor
  · rintro ⟨l, hl, rfl⟩
    rw [Text.stripPrefixList_eq_some_iff.mp hl, String.toList_ofList]
  · intro h
    exact ⟨r.toList, Text.stripPrefixList_eq_some_iff.mpr h, String.ofList_toList⟩

/-- The authority that the parser finds. -/
theorem stripScheme_eq_some_iff {origin authority : String} :
    (Text.stripPrefix "https://" origin).or (Text.stripPrefix "http://" origin) = some authority ↔
      ∃ scheme : Scheme, origin.toList = scheme.text ++ authority.toList := by
  have hhttps : ∀ r, Text.stripPrefix "https://" origin = some r ↔
      origin.toList = Scheme.https.text ++ r.toList := fun _ => stripPrefix_eq_some_iff
  have hhttp : ∀ r, Text.stripPrefix "http://" origin = some r ↔
      origin.toList = Scheme.http.text ++ r.toList := fun _ => stripPrefix_eq_some_iff
  generalize Text.stripPrefix "https://" origin = x at hhttps ⊢
  generalize Text.stripPrefix "http://" origin = y at hhttp ⊢
  rw [Option.or_eq_some_iff, hhttps, hhttp]
  constructor
  · rintro (h | ⟨-, h⟩)
    · exact ⟨.https, h⟩
    · exact ⟨.http, h⟩
  · rintro ⟨scheme, h⟩
    cases scheme with
    | https => exact .inl h
    | http =>
      refine .inr ⟨Option.eq_none_iff_forall_ne_some.mpr fun r hr => ?_, h⟩
      cases (Scheme.text_append_inj (h.symm.trans ((hhttps r).mp hr))).1

theorem isHeaderChar_scheme (scheme : Scheme) : ∀ c ∈ scheme.text, IsHeaderChar c := by
  have hrange : (scheme.text.all fun c => 0x20 ≤ c.toNat ∧ c.toNat ≠ 0x7F) = true := by
    cases scheme <;> decide
  exact fun c hc => .inr (of_decide_eq_true (List.all_eq_true.mp hrange c hc))

/-- **The checks** on a part behind its scheme, the conversion to a header value among them. -/
theorem admitted_iff {scheme : Scheme} {origin authority : String}
    (htext : origin.toList = scheme.text ++ authority.toList) :
    (∃ scheme' authority', Admitted origin.toList scheme' authority') ↔
      ¬ (authority = "" ∨ '/' ∈ authority.toList ∨ '?' ∈ authority.toList ∨
        '#' ∈ authority.toList) ∧ ∀ c ∈ origin.toList, IsHeaderChar c := by
  simp only [not_or]
  constructor
  · rintro ⟨scheme', authority', h⟩
    obtain ⟨rfl, rfl⟩ := Scheme.text_append_inj (h.text.symm.trans htext)
    refine ⟨⟨?_, fun hmem => (h.bare _ hmem).1 rfl, fun hmem => (h.bare _ hmem).2.1 rfl,
      fun hmem => (h.bare _ hmem).2.2.1 rfl⟩, fun c hc => ?_⟩
    · rintro rfl
      exact h.nonempty rfl
    · rw [htext] at hc
      rcases List.mem_append.mp hc with hc | hc
      · exact isHeaderChar_scheme scheme' c hc
      · exact (h.bare c hc).2.2.2
  · rintro ⟨⟨hne, hslash, hquery, hfragment⟩, hchars⟩
    refine ⟨scheme, authority.toList, htext, fun hnil => hne (String.toList_eq_nil_iff.mp hnil),
      fun c hc => ⟨?_, ?_, ?_, hchars c ?_⟩⟩
    · rintro rfl
      exact hslash hc
    · rintro rfl
      exact hquery hc
    · rintro rfl
      exact hfragment hc
    · rw [htext]
      exact List.mem_append_right _ hc

/-- **One part** is accepted exactly when the checks let it through, and then unchanged. -/
theorem parseOrigin_eq_ok_iff {origin : String} {v : List UInt8} :
    parseOrigin origin = .ok v ↔
      (∃ scheme authority, Admitted origin.toList scheme authority) ∧
        v = Text.utf8 origin.toList := by
  by_cases hstar : origin = "*"
  · -- the wildcard itself has no scheme
    rw [parseOrigin, if_pos hstar]
    refine iff_of_false (fun h => by cases h) ?_
    rintro ⟨⟨scheme, authority, h⟩, -⟩
    have htext : ['*'] = scheme.text ++ authority := by
      rw [← h.text, hstar]
      rfl
    cases scheme <;> cases htext
  rw [parseOrigin, if_neg hstar]
  have hstrip := @stripScheme_eq_some_iff origin
  generalize (Text.stripPrefix "https://" origin).or (Text.stripPrefix "http://" origin) = found
    at hstrip ⊢
  rcases found with _ | authority
  · refine iff_of_false (fun h => by cases h) ?_
    rintro ⟨⟨scheme, authority, h⟩, -⟩
    have htext : origin.toList = scheme.text ++ (String.ofList authority).toList := by
      rw [String.toList_ofList]
      exact h.text
    cases hstrip.mpr ⟨scheme, htext⟩
  · obtain ⟨scheme, htext⟩ := hstrip.mp rfl
    dsimp only
    rw [admitted_iff htext]
    split
    · rename_i hbad
      exact iff_of_false (fun h => by cases h) fun h => h.1.1 hbad
    · rename_i hgood
      cases hvalue : HeaderMap.fromStr origin with
      | none =>
        refine iff_of_false (fun h => by cases h) fun h => ?_
        cases hvalue.symm.trans (fromStr_eq_some_iff.mpr ⟨h.1.2, rfl⟩)
      | some value =>
        obtain ⟨hchars, rfl⟩ := fromStr_eq_some_iff.mp hvalue
        rw [Except.ok.injEq, and_iff_right ⟨hgood, hchars⟩, eq_comm]

/-- **The list** is accepted when it has a part and the checks let every part through. -/
theorem parseAllowedOrigins_eq_ok_iff {raw : String} {list : List (List UInt8)} :
    parseAllowedOrigins raw = .ok list ↔ originCandidates raw ≠ [] ∧
      (∀ p ∈ originCandidates raw, ∃ scheme authority, Admitted p.toList scheme authority) ∧
        list = (originCandidates raw).map fun p => Text.utf8 p.toList := by
  rw [parseAllowedOrigins]
  split
  · rename_i hnil
    refine iff_of_false (fun h => by cases h) fun h => h.1 hnil
  · rename_i hne
    have hall : ∀ {ps : List String} {vs : List (List UInt8)},
        List.Forall₂ (fun p v => parseOrigin p = .ok v) ps vs ↔
          (∀ p ∈ ps, ∃ scheme authority, Admitted p.toList scheme authority) ∧
            vs = ps.map fun p => Text.utf8 p.toList := by
      intro ps
      induction ps with
      | nil => simp
      | cons p ps ih =>
        intro vs
        rw [List.forall₂_cons_left_iff, List.forall_mem_cons, List.map_cons]
        simp only [ih]
        simp only [parseOrigin_eq_ok_iff]
        constructor
        · rintro ⟨v, vs', ⟨hp, rfl⟩, ⟨hps, rfl⟩, rfl⟩
          exact ⟨⟨hp, hps⟩, rfl⟩
        · rintro ⟨⟨hp, hps⟩, rfl⟩
          exact ⟨_, _, ⟨hp, rfl⟩, ⟨hps, rfl⟩, rfl⟩
    rw [mapM_eq_ok_iff, hall]
    exact (and_iff_right hne).symm

/-! ### Exact origins -/

section

variable [Idna]

/-- **The allow-list is exact.** It is accepted when it has a part that is not blank and all these
parts are origins, and then as these parts in order; each of them is one that some browser sends,
up to letter case and the port that goes without saying. -/
structure ExactlyOrigins (raw : String) : Prop where
  accepted : ∀ list, parseAllowedOrigins raw = .ok list ↔
    originCandidates raw ≠ [] ∧ (∀ p ∈ originCandidates raw, Web.IsOrigin p.toList) ∧
      list = (originCandidates raw).map fun p => Text.utf8 p.toList
  sendable : ∀ list, parseAllowedOrigins raw = .ok list → ∀ e ∈ list,
    ∃ (text : List Char) (o : Origin), e = Text.utf8 text ∧ Web.SameOrigin text o.text

/-- The checks let origins through. -/
theorem Admitted.of_host {host : List Char} (hhost : Web.isHost host = true) (scheme : Scheme)
    (port : Option (Fin 65536)) :
    Admitted (scheme.text ++ (host ++ Web.portText port)) scheme (host ++ Web.portText port) := by
  refine ⟨rfl, fun hnil => Web.ne_nil_of_isHost hhost (List.append_eq_nil_iff.mp hnil).1,
    fun c hc => ?_⟩
  have hchar := Web.isAuthorityChar_of_mem hhost hc
  refine ⟨?_, ?_, ?_, ?_⟩
  · rintro rfl
    exact absurd hchar (by decide)
  · rintro rfl
    exact absurd hchar (by decide)
  · rintro rfl
    exact absurd hchar (by decide)
  · simp only [Web.isAuthorityChar, Bool.and_eq_true, decide_eq_true_eq] at hchar
    exact .inr ⟨by omega, by omega⟩

/-- **Exactly.** The allow-list is exact if and only if, should the checks let every part through,
every authority is a host with an optional port. -/
theorem exactlyOrigins_iff (raw : String) :
    ExactlyOrigins raw ↔
      ((∀ p ∈ originCandidates raw, ∃ scheme authority, Admitted p.toList scheme authority) →
        ∀ p ∈ originCandidates raw, ∀ scheme authority, Admitted p.toList scheme authority →
          ∃ (host : List Char) (port : Option (Fin 65536)),
            Web.isHost host = true ∧ authority = host ++ Web.portText port) := by
  constructor
  · intro h hall p hp scheme authority hadmitted
    have hok := parseAllowedOrigins_eq_ok_iff.mpr ⟨List.ne_nil_of_mem hp, hall, rfl⟩
    obtain ⟨scheme', host, port, hhost, ho⟩ := ((h.accepted _).mp hok).2.1 p hp
    have htext : scheme.text ++ authority = scheme'.text ++ (host ++ Web.portText port) :=
      hadmitted.text.symm.trans ho
    exact ⟨host, port, hhost, (Scheme.text_append_inj htext).2⟩
  · intro h
    have hparts : (∀ p ∈ originCandidates raw, ∃ scheme authority,
        Admitted p.toList scheme authority) ↔
          ∀ p ∈ originCandidates raw, Web.IsOrigin p.toList := by
      constructor
      · intro hall p hp
        obtain ⟨scheme, authority, hadmitted⟩ := hall p hp
        obtain ⟨host, port, hhost, rfl⟩ := h hall p hp scheme authority hadmitted
        exact ⟨scheme, host, port, hhost, hadmitted.text⟩
      · intro horigins p hp
        obtain ⟨scheme, host, port, hhost, ho⟩ := horigins p hp
        rw [ho]
        exact ⟨scheme, _, .of_host hhost scheme port⟩
    have haccepted : ∀ list, parseAllowedOrigins raw = .ok list ↔
        originCandidates raw ≠ [] ∧ (∀ p ∈ originCandidates raw, Web.IsOrigin p.toList) ∧
          list = (originCandidates raw).map fun p => Text.utf8 p.toList := fun list => by
      rw [parseAllowedOrigins_eq_ok_iff, hparts]
    refine ⟨haccepted, fun list hok e he => ?_⟩
    obtain ⟨-, horigins, rfl⟩ := (haccepted list).mp hok
    obtain ⟨p, hp, rfl⟩ := List.mem_map.mp he
    obtain ⟨o, hsame⟩ := Web.isOrigin_iff.mp (horigins p hp)
    exact ⟨p.toList, o, rfl, hsame⟩

end

/-- Tables that have every label. -/
scoped instance Reference.idna : Idna where
  isLabel _ := true

section

open Reference

/-- **A wildcard is allowed.** -/
theorem not_exactlyOrigins : ¬ ∀ raw, ExactlyOrigins raw := by
  intro hall
  have hok : parseAllowedOrigins "https://*.apostille.me" =
      .ok [Text.utf8 "https://*.apostille.me".toList] := by
    decide +kernel
  have hcandidates : originCandidates "https://*.apostille.me" = ["https://*.apostille.me"] := by
    decide +kernel
  obtain ⟨-, horigins, -⟩ := ((hall _).accepted _).mp hok
  obtain ⟨scheme, host, port, hhost, ho⟩ :=
    horigins "https://*.apostille.me" (by simp [hcandidates])
  have htext : scheme.text ++ (host ++ Web.portText port) =
      Scheme.https.text ++ "*.apostille.me".toList := ho.symm
  have hstar : '*' ∈ host ++ Web.portText port := by
    rw [(Scheme.text_append_inj htext).2]
    exact List.mem_of_elem_eq_true (by decide)
  exact absurd (Web.isAuthorityChar_of_mem hhost hstar) (by decide)

end

end ApmeApi
