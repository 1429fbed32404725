import ApmeApi.Service.CaseHistory
import ApmeApi.UuidNotation

/-!
# The router

`Router::new()` of `main`: which handler gets a request, and what it is given. A request names its
route by the segments of its path, compared before anything is decoded, and by its method: the
routes of `get` answer `HEAD` too, and the CORS layer answers every `OPTIONS` request itself. A
segment that stands for a case is percent-decoded and read as an identifier.

What `route` gives to a mutation handler was sent with `POST` to the path of that handler
(`route_asks_iff`). So a case changes only by name: when it is shown in a state in which it was not
before, some request named it, in its path and in the header for the tenant, and with the
credentials of a member who may write (`changed_by_name`).
-/

namespace ApmeApi

open Interaction CaseService
open Json (ascii)

/-! ### Requests -/

/-- `http::Method`. -/
inductive Method where
  | get
  | head
  | post
  | options
  | other (name : String)
  deriving DecidableEq

/-- A request as it arrives: `path` is that of its URI, not decoded. -/
structure HttpRequest where
  method : Method
  path : List UInt8
  query : Option (List UInt8)
  headers : HeaderMap
  body : List UInt8

/-- What the extractors of the framework and the `Deserialize` impls of the commands make of a
request, when they do not reject it. -/
class Extractors where
  createCaseCommand : HttpRequest → Option CreateCaseCommand
  transitionCaseCommand : HttpRequest → Option TransitionCaseCommand
  rotateEncryptedObjectCommand : HttpRequest → Option RotateEncryptedObjectCommand
  webSocketUpgrade : HttpRequest → Option Unit
  webSocketQuery : HttpRequest → Option WebSocketQuery

/-! ### Paths -/

/-- The byte of two hexadecimal digits. -/
def hexByte (a b : UInt8) : Option UInt8 := do
  let high ← Text.hexValue (Char.ofNat a.toNat)
  let low ← Text.hexValue (Char.ofNat b.toNat)
  return UInt8.ofNat (16 * high + low)

/-- `percent_decode`: an escape that is none stands for itself. -/
def percentDecode : List UInt8 → List UInt8
  | [] => []
  | [a] => [a]
  | [a, b] => [a, b]
  | a :: b :: c :: rest =>
    match if a = 0x25 then hexByte b c else none with
    | some byte => byte :: percentDecode rest
    | none => a :: percentDecode (b :: c :: rest)

/-- `Path<Uuid>`. -/
def pathId (segment : List UInt8) : Option Uuid :=
  (Text.utf8Decode (percentDecode segment)).bind fun cs => Uuid.parse (String.ofList cs)

/-- The segments of a path. -/
def segments (path : List UInt8) : Option (List (List UInt8)) :=
  (Text.stripPrefixList [0x2F] path).map (List.splitOn 0x2F)

/-- The routes. -/
inductive Route where
  | index
  | healthz
  | readyz
  | metrics
  | cases
  | case (segment : List UInt8)
  | transition (segment : List UInt8)
  | rotateObject (segment : List UInt8)
  | ws
  deriving DecidableEq

/-- The segments of the path that the cases are under. -/
def casesPath : List (List UInt8) := [ascii "api", ascii "v1", ascii "cases"]

/-- The paths of the routes. -/
def Route.path : Route → List (List UInt8)
  | .index => [[]]
  | .healthz => [ascii "healthz"]
  | .readyz => [ascii "readyz"]
  | .metrics => [ascii "metrics"]
  | .cases => casesPath
  | .case segment => casesPath ++ [segment]
  | .transition segment => casesPath ++ [segment, ascii "transition"]
  | .rotateObject segment => casesPath ++ [segment, ascii "rotate-object"]
  | .ws => [ascii "ws"]

/-- The routes without a parameter. -/
def plainRoutes : List Route := [.index, .healthz, .readyz, .metrics, .cases, .ws]

/-- The route of a path. -/
def matchRoute (path : List (List UInt8)) : Option Route :=
  match plainRoutes.find? fun r => r.path = path with
  | some r => some r
  | none =>
    match Text.stripPrefixList casesPath path with
    | some [segment] => some (.case segment)
    | some [segment, action] =>
      if action = ascii "transition" then some (.transition segment)
      else if action = ascii "rotate-object" then some (.rotateObject segment)
      else none
    | _ => none

/-- **A path has the route whose path it is**: no route hides another. -/
theorem matchRoute_eq_some_iff {path : List (List UInt8)} {r : Route} :
    matchRoute path = some r ↔ r.path = path := by
  constructor
  · intro h
    rw [matchRoute] at h
    split at h
    · rename_i r' hfound
      obtain rfl := Option.some.inj h
      have hpath := List.find?_some hfound
      exact of_decide_eq_true hpath
    · split at h
      · rename_i segment hsegment
        obtain rfl := Option.some.inj h
        exact (Text.stripPrefixList_eq_some_iff.mp hsegment).symm
      · rename_i segment action hsegment
        have hpath := Text.stripPrefixList_eq_some_iff.mp hsegment
        split_ifs at h with htransition hrotate
        · obtain rfl := Option.some.inj h
          rw [hpath, htransition]
          rfl
        · obtain rfl := Option.some.inj h
          rw [hpath, hrotate]
          rfl
      · cases h
  · rintro rfl
    -- the paths with a parameter are longer than those without
    have hcase : ∀ rest, rest ≠ [] → matchRoute (casesPath ++ rest) =
        match some rest with
        | some [segment] => some (.case segment)
        | some [segment, action] =>
          if action = ascii "transition" then some (.transition segment)
          else if action = ascii "rotate-object" then some (.rotateObject segment)
          else none
        | _ => none := by
      intro rest hrest
      have hplain : (plainRoutes.find? fun r => r.path = casesPath ++ rest) = none := by
        simp [plainRoutes, Route.path, casesPath, hrest]
      rw [matchRoute, hplain, Text.stripPrefixList_eq_some_iff.mpr rfl]
    cases r with
    | case segment => rw [Route.path, hcase _ (by simp)]
    | transition segment =>
      rw [Route.path, hcase _ (by simp)]
      exact if_pos rfl
    | rotateObject segment =>
      rw [Route.path, hcase _ (by simp)]
      exact (if_neg (by decide)).trans (if_pos rfl)
    | _ => decide

/-! ### URLs -/

/-- The path of a route in a URI. -/
def Route.url (r : Route) : List UInt8 := 0x2F :: [0x2F].intercalate r.path

/-- The segments of a URL are those of the route, unless a slash is in one. -/
theorem segments_url {r : Route} (h : ∀ s ∈ r.path, 0x2F ∉ s) :
    segments r.url = some r.path := by
  have hne : r.path ≠ [] := by cases r <;> simp [Route.path, casesPath]
  rw [segments, Route.url, Text.stripPrefixList_eq_some_iff.mpr List.singleton_append.symm,
    Option.map_some, List.splitOn_intercalate _ h hne]

/-- Without an escape there is nothing to decode. -/
theorem percentDecode_of_not_mem {bs : List UInt8} (h : 0x25 ∉ bs) : percentDecode bs = bs := by
  fun_induction percentDecode bs with
  | case1 => rfl
  | case2 => rfl
  | case3 => rfl
  | case4 a b c rest byte hbyte =>
    have ha : a ≠ 0x25 := fun ha => h (ha ▸ List.mem_cons_self)
    rw [if_neg ha] at hbyte
    cases hbyte
  | case5 a b c rest _ ih => rw [ih fun hmem => h (List.mem_cons_of_mem _ hmem)]

/-- The bytes of the identifier as `Display` writes it, in a URL. -/
theorem not_mem_display (u : Uuid) {b : Char} (hb : b = '/' ∨ b = '%') :
    UInt8.ofNat b.toNat ∉ Text.utf8 u.display := by
  have hlt : b.toNat < 0x80 := by rcases hb with rfl | rfl <;> decide
  rw [Text.mem_utf8_iff hlt]
  intro hmem
  rcases u.display_chars hmem with rfl | ⟨n, hn, rfl⟩
  · revert hb
    decide
  · interval_cases n <;> revert hb <;> decide

/-- **A segment with the displayed identifier** stands for it. -/
theorem pathId_display (u : Uuid) : pathId (Text.utf8 u.display) = some u := by
  rw [pathId, percentDecode_of_not_mem (not_mem_display u (.inr rfl)), Text.utf8Decode_utf8,
    Option.bind_some, Uuid.parse_eq_some_iff, String.toList_ofList]
  exact u.notation_display

/-! ### Dispatch -/

/-- `index`. -/
def Http.index : HttpResponse :=
  ⟨200, .json (Json.toValue (.obj [("service", .str "apme-api"), ("product", .str "Apostille Me"),
    ("rest", .str "/api/v1/cases"), ("websocket", .str "/ws")]))⟩

/-- `health`, with the version of the package. -/
def Http.health : HttpResponse :=
  ⟨200, .json (.obj [("status", .str "ok"), ("service", .str "apme-api"),
    ("version", .str "0.1.0")])⟩

/-- Who answers a request: the framework (a preflight, an unknown path, another method, a rejected
extraction), a constant page, or a handler. -/
inductive Routed where
  | framework
  | page (response : HttpResponse)
  | handler (q : ApiRequest)

/-- The handler is called when its extractors accept. -/
def Routed.extracted {α : Type} (f : α → ApiRequest) (a : Option α) : Routed :=
  a.elim .framework fun a => .handler (f a)

theorem extracted_eq_handler {α : Type} {f : α → ApiRequest} {a : Option α} {r : ApiRequest}
    (h : Routed.extracted f a = .handler r) : ∃ x, a = some x ∧ f x = r := by
  cases a with
  | none => cases h
  | some x => exact ⟨x, rfl, Routed.handler.inj h⟩

section

variable [Extractors]

/-- The method router of each route: what it does on `get` and on `post`. -/
def Route.get (q : HttpRequest) : Route → Routed
  | .index => .page Http.index
  | .healthz => .page Http.health
  | .readyz => .page Http.health
  | .metrics => .handler .metrics
  | .cases => .handler (.listCases q.headers)
  | .case segment => .extracted (fun id => .getCase id q.headers) (pathId segment)
  | .transition _ => .framework
  | .rotateObject _ => .framework
  | .ws => .extracted (fun query => .websocket query q.headers) (do
      let () ← Extractors.webSocketUpgrade q
      Extractors.webSocketQuery q)

def Route.post (q : HttpRequest) : Route → Routed
  | .cases => .extracted (fun command => .createCase q.headers command)
      (Extractors.createCaseCommand q)
  | .transition segment => .extracted (fun x => .transitionCase x.1 q.headers x.2) (do
      let id ← pathId segment
      let command ← Extractors.transitionCaseCommand q
      return (id, command))
  | .rotateObject segment => .extracted (fun x => .rotateEncryptedObject x.1 q.headers x.2) (do
      let id ← pathId segment
      let command ← Extractors.rotateEncryptedObjectCommand q
      return (id, command))
  | _ => .framework

/-- The router with its CORS layer. -/
def route (q : HttpRequest) : Routed :=
  match (segments q.path).bind matchRoute with
  | none => .framework
  | some r =>
    match q.method with
    | .get => r.get q
    | .head => r.get q
    | .post => r.post q
    | _ => .framework

/-- **What a mutation request sent**: the path of its handler, and a body with its command. -/
inductive HttpRequest.Sends (q : HttpRequest) : MutationRequest → Prop
  | createCase {command : CreateCaseCommand} (hp : segments q.path = some Route.cases.path)
    (hc : Extractors.createCaseCommand q = some command) : Sends q (.createCase command)
  | transitionCase {segment : List UInt8} {id : Uuid} {command : TransitionCaseCommand}
    (hp : segments q.path = some (Route.transition segment).path) (hid : pathId segment = some id)
    (hc : Extractors.transitionCaseCommand q = some command) : Sends q (.transitionCase id command)
  | rotateEncryptedObject {segment : List UInt8} {id : Uuid}
    {command : RotateEncryptedObjectCommand}
    (hp : segments q.path = some (Route.rotateObject segment).path)
    (hid : pathId segment = some id)
    (hc : Extractors.rotateEncryptedObjectCommand q = some command) :
    Sends q (.rotateEncryptedObject id command)

/-- No `get` route asks for a mutation. -/
theorem get_asks {q : HttpRequest} {rt : Route} {r : ApiRequest} (h : rt.get q = .handler r) :
    r.asks = none := by
  cases rt with
  | metrics => exact Routed.handler.inj h ▸ rfl
  | cases => exact Routed.handler.inj h ▸ rfl
  | case segment =>
    obtain ⟨id, -, rfl⟩ := extracted_eq_handler h
    rfl
  | ws =>
    obtain ⟨query, -, rfl⟩ := extracted_eq_handler h
    rfl
  | _ => cases h

/-- **What reaches a mutation handler**: what was posted to its path with a command in the body. -/
theorem route_asks_iff {q : HttpRequest} {r : ApiRequest} {headers : HeaderMap}
    {m : MutationRequest} (hasks : r.asks = some (headers, m)) :
    route q = .handler r ↔ q.method = .post ∧ headers = q.headers ∧ q.Sends m := by
  constructor
  · intro hroute
    rw [route] at hroute
    split at hroute
    · cases hroute
    rename_i rt hmatched
    obtain ⟨path, hpath, hrt⟩ := Option.bind_eq_some_iff.mp hmatched
    rw [← matchRoute_eq_some_iff.mp hrt] at hpath
    split at hroute
    · rw [get_asks hroute] at hasks
      cases hasks
    · rw [get_asks hroute] at hasks
      cases hasks
    · rename_i hpost
      refine ⟨hpost, ?_⟩
      cases rt with
      | cases =>
        obtain ⟨command, hcommand, rfl⟩ := extracted_eq_handler hroute
        obtain ⟨rfl, rfl⟩ := Prod.mk.inj (Option.some.inj hasks)
        exact ⟨rfl, .createCase hpath hcommand⟩
      | transition segment =>
        obtain ⟨x, hx, rfl⟩ := extracted_eq_handler hroute
        obtain ⟨id, hid, hx⟩ := Option.bind_eq_some_iff.mp hx
        obtain ⟨command, hcommand, hx⟩ := Option.bind_eq_some_iff.mp hx
        obtain rfl := Option.some.inj hx
        obtain ⟨rfl, rfl⟩ := Prod.mk.inj (Option.some.inj hasks)
        exact ⟨rfl, .transitionCase hpath hid hcommand⟩
      | rotateObject segment =>
        obtain ⟨x, hx, rfl⟩ := extracted_eq_handler hroute
        obtain ⟨id, hid, hx⟩ := Option.bind_eq_some_iff.mp hx
        obtain ⟨command, hcommand, hx⟩ := Option.bind_eq_some_iff.mp hx
        obtain rfl := Option.some.inj hx
        obtain ⟨rfl, rfl⟩ := Prod.mk.inj (Option.some.inj hasks)
        exact ⟨rfl, .rotateEncryptedObject hpath hid hcommand⟩
      | _ => cases hroute
    · cases hroute
  · rintro ⟨hpost, rfl, hsends⟩
    have hmatched : ∀ {rt : Route}, segments q.path = some rt.path →
        route q = rt.post q := by
      intro rt hp
      simp only [route, hp, Option.bind_some, matchRoute_eq_some_iff.mpr rfl, hpost]
    cases hsends with
    | createCase hp hc =>
      rw [hmatched hp, Route.post, hc]
      cases r <;> cases hasks
      rfl
    | transitionCase hp hid hc =>
      rw [hmatched hp, Route.post, hid, hc]
      cases r <;> cases hasks
      rfl
    | rotateEncryptedObject hp hid hc =>
      rw [hmatched hp, Route.post, hid, hc]
      cases r <;> cases hasks
      rfl

/-- **A case has its URLs**: those with its identifier as `Display` writes it lead to it. -/
theorem case_url (q : HttpRequest) (id : Uuid) :
    (q.path = (Route.case (Text.utf8 id.display)).url → q.method = .get ∨ q.method = .head →
      route q = .handler (.getCase id q.headers)) ∧
    (q.path = (Route.transition (Text.utf8 id.display)).url → q.method = .post →
      ∀ command, Extractors.transitionCaseCommand q = some command →
        route q = .handler (.transitionCase id q.headers command)) ∧
    (q.path = (Route.rotateObject (Text.utf8 id.display)).url → q.method = .post →
      ∀ command, Extractors.rotateEncryptedObjectCommand q = some command →
        route q = .handler (.rotateEncryptedObject id q.headers command)) := by
  have hslash : 0x2F ∉ Text.utf8 id.display := not_mem_display id (.inl rfl)
  have hprefix : ∀ s ∈ casesPath, 0x2F ∉ s := by decide
  -- no segment of the three paths has a slash
  have hcase : ∀ rest : List (List UInt8), (∀ s ∈ rest, 0x2F ∉ s) →
      ∀ s ∈ casesPath ++ Text.utf8 id.display :: rest, 0x2F ∉ s := by
    intro rest hrest s hs
    rcases List.mem_append.mp hs with hs | hs
    · exact hprefix s hs
    · rcases List.mem_cons.mp hs with rfl | hs
      · exact hslash
      · exact hrest s hs
  have hid := pathId_display id
  refine ⟨fun hpath hmethod => ?_, fun hpath hpost command hcommand => ?_,
    fun hpath hpost command hcommand => ?_⟩
  · have hp : segments q.path = some (Route.case (Text.utf8 id.display)).path :=
      hpath ▸ segments_url (hcase [] (by simp))
    rcases hmethod with hmethod | hmethod <;>
      simp only [route, hp, Option.bind_some, matchRoute_eq_some_iff.mpr rfl, hmethod, Route.get,
        hid, Routed.extracted, Option.elim_some]
  · have hp : segments q.path = some (Route.transition (Text.utf8 id.display)).path :=
      hpath ▸ segments_url (hcase [ascii "transition"] (by decide))
    exact (route_asks_iff rfl).mpr ⟨hpost, rfl, .transitionCase hp hid hcommand⟩
  · have hp : segments q.path = some (Route.rotateObject (Text.utf8 id.display)).path :=
      hpath ▸ segments_url (hcase [ascii "rotate-object"] (by decide))
    exact (route_asks_iff rfl).mpr ⟨hpost, rfl, .rotateEncryptedObject hp hid hcommand⟩

end

/-! ### The front -/

/-- What arrives at the process. -/
inductive FrontRequest where
  | http (q : HttpRequest)
  | connection (config : Tcp.Config)

/-- What is answered: by the framework, or with a response, whose body is left out on `HEAD`. -/
inductive FrontResponse where
  | framework
  | bodyless (status : ℕ)
  | answer (r : ApiResponse)

/-- The answer to a request. -/
def HttpRequest.answer (q : HttpRequest) : ApiResponse → FrontResponse
  | .http r => if q.method = .head then .bodyless r.status else .answer (.http r)
  | r => .answer r

section

variable [SharedAuth] [ApmeInterfaces] [Sha2] [Extractors]

/-- The program of what arrives. -/
def FrontRequest.run (state : AppState) : FrontRequest → Prog apiSig FrontResponse
  | .http q =>
    match route q with
    | .framework => pure .framework
    | .page response => pure (q.answer (.http response))
    | .handler r => r.run state >>= fun response => pure (q.answer response)
  | .connection config =>
    (ApiRequest.connection config).run state >>= fun response => pure (.answer response)

/-- The process behind its router. -/
abbrev frontSystem (sql : SqlFunctions) (state : AppState) : System :=
  clients sql (FrontRequest.run state)

variable {sql : SqlFunctions} {state : AppState}

/-- **Every mutation was sent**: with `POST` to the path of its handler, and asked for with the
headers of the request. -/
theorem front_sent (state : AppState) (f : FrontRequest) :
    wp (fun (h : History sql) o => ∀ m, o.call = .mutate m → ∃ q r subject context key now,
      f = .http q ∧ q.method = .post ∧ q.Sends r ∧
        AskedFor state q.headers r h subject context key now m) (fun _ _ => True)
      (f.run state) [] := by
  cases f with
  | connection config =>
    rw [FrontRequest.run, wp_bind]
    refine wp_mono (run_asked state (.connection config)) (fun h o ho m hm => ?_)
      fun _ _ _ => trivial
    obtain ⟨headers, r, subject, context, key, now, hasks, -⟩ := ho m hm
    cases hasks
  | http q =>
    rw [FrontRequest.run]
    split
    · trivial
    · trivial
    · rename_i r hroute
      rw [wp_bind]
      refine wp_mono (run_asked state r) (fun h o ho m hm => ?_) fun _ _ _ => trivial
      obtain ⟨headers, asked, subject, context, key, now, hasks, hasked⟩ := ho m hm
      obtain ⟨hpost, rfl, hsends⟩ := (route_asks_iff hasks).mp hroute
      exact ⟨q, asked, subject, context, key, now, rfl, hpost, hsends, hasked⟩

/-! ### Every change has a name -/

/-- The case that a request names. -/
def MutationRequest.caseId : MutationRequest → Option Uuid
  | .createCase _ => none
  | .transitionCase id _ => some id
  | .rotateEncryptedObject id _ => some id

/-- **The request made the case what it is**: it was posted to the path of its mutation, with the
name of the case unless it created it, and for its tenant; its caller was authorized before; and it
committed a step from the state that it found to this one, with the version in its receipt. -/
structure Makes (state : AppState) (q : HttpRequest) (h : History sql) (o : Observed sql)
    (t c : Uuid) (v : ℤ) (k : CaseContent) : Prop where
  posted : q.method = .post
  asked : ∃ r subject context key now m row, q.Sends r ∧ (r.caseId = none ∨ r.caseId = some c) ∧
    context.tenantId = t ∧ AskedFor state q.headers r h subject context key now m ∧
      Commits o m row ∧ row.caseId = c ∧ row.caseVersion = v ∧
        Versioned.Step caseSpec (o.pre.db.caseState t c) m.operation (.live v k)

section Named

variable (hsql : SqlContract sql) (hversioned : SqlVersioned sql) (hopt : SqlOptimistic sql)
include hopt

omit [Extractors] in
/-- The case of a commit is the one that its request named. -/
theorem commit_named {headers : HeaderMap} {r : MutationRequest} {h : History sql}
    {o : Observed sql} {subject : VerifiedSubject} {context : TenantContext} {key : String}
    {now : DateTime} {m : SqlMutation} {row : MutationRow}
    (ha : AskedFor state headers r h subject context key now m) (hc : Commits o m row)
    (hdb : o.pre.db.UniqueCases) : r.caseId = none ∨ r.caseId = some row.caseId := by
  obtain ⟨i, w, rfl, hok, hfresh⟩ := hc.exec
  have hchecked := ha.checked
  cases r with
  | createCase command => exact .inl rfl
  | transitionCase id command =>
    obtain ⟨-, -, -, rfl⟩ := transitionMutation_eq_ok.mp hchecked
    exact .inr (congrArg some (hopt.transitions hok hfresh hdb).1.symm)
  | rotateEncryptedObject id command =>
    obtain ⟨-, -, -, -, rfl⟩ := rotateMutation_eq_ok.mp hchecked
    exact .inr (congrArg some (hopt.rotations hok hfresh hdb).1.symm)

include hsql hversioned

/-- **A case changes by name.** In every run of the process behind its router, from a database with
unique cases: when a case is shown in a state in which it was not shown at some earlier moment, a
request that the router passed on has made it what it is since then. -/
theorem changed_by_name {w : World} (hw : w.db.UniqueCases)
    (as bs : List (Action (frontSystem sql state))) {t c : Uuid} {v : ℤ} {k : CaseContent}
    (hnow : (((Config.initial w).run (as ++ bs)).state.db.caseState t c).visible = some (v, k))
    (hbefore : (((Config.initial w).run as).state.db.caseState t c).visible ≠ some (v, k)) :
    ∃ x ∈ ((Config.initial w).run as).trace bs, ∃ u q h h',
      ((Config.initial w).run (as ++ bs)).tasks[x.1]? = some u ∧ u.request = .http q ∧
        u.history = h ++ x.2 :: h' ∧ Makes state q h x.2 t c v k := by
  have hrefines := case_refines hsql hversioned hopt (FrontRequest.run state) t c
  have hdb : ((Config.initial w).run as).state.db.UniqueCases :=
    Config.run_stable (Y := frontSystem sql state) hrefines.stable as (c := Config.initial w) hw
  rw [Config.run_append] at hnow ⊢
  rcases hrefines.last_step hdb bs with hexec | ⟨l₁, x, l₂, l, htrace, hlabel, hexec⟩
  · exact absurd (Versioned.Execution.shown_of_nil hexec hnow) hbefore
  obtain ⟨m, row, hc, rfl, rfl, rfl⟩ := caseLabel_eq_some.mp hlabel
  have hstep := Versioned.Execution.step_of_shown hexec hnow
  obtain ⟨hpre, -⟩ := hrefines.before hdb htrace
  have hx : x ∈ ((Config.initial w).run as).trace bs := htrace ▸ by simp
  -- the task that made the call
  rw [← Config.run_append]
  obtain ⟨u, hu, ho⟩ := Config.exists_task_of_mem_trace w (as ++ bs)
    (by rw [Config.trace_append]; exact List.mem_append_right _ hx)
  obtain ⟨h, h', hh⟩ := List.append_of_mem ho
  have hcall : x.2.call = .mutate m := by
    obtain ⟨i, w', heq, -⟩ := hc.exec
    rw [heq]
  obtain ⟨q, r, subject, context, key, now, hq, hpost, hsends, hasked⟩ :=
    (Config.run_follows (Y := frontSystem sql state) w (as ++ bs) hu).guarantee
      (front_sent state u.request) hh m hcall
  refine ⟨x, hx, u, q, h, h', hu, hq, hh, hpost, r, subject, context, key, now, m, row, hsends,
    commit_named hopt hasked hc hpre, ?_, hasked, hc, rfl, ?_, hstep⟩
  · exact congrArg IdempotencyKey.tenantId hasked.mutation_key.symm
  · obtain ⟨k', hreceipt⟩ := hc.receipt hversioned hopt hpre
    exact hreceipt.version_eq hstep

end Named

end

/-! ### A transition by its URL -/

section Collecting

open Reference

/-- A transition as it is sent. -/
def collectingBody : List UInt8 :=
  (TransitionCaseCommand.toJson ⟨1, .collectingDocuments⟩).render

/-- Extractors that know this body. -/
scoped instance Reference.extractors : Extractors where
  createCaseCommand _ := none
  transitionCaseCommand q :=
    if q.body = collectingBody then some ⟨1, .collectingDocuments⟩ else none
  rotateEncryptedObjectCommand _ := none
  webSocketUpgrade _ := none
  webSocketQuery _ := none

/-- The transition of the case. -/
def collecting : HttpRequest where
  method := .post
  path := (Route.transition (Text.utf8 Uuid.nil.display)).url
  query := none
  headers := headers "collecting"
  body := collectingBody

/-- The world with a case that is in intake. -/
def intakeWorld : World := World.initial (officeWith [storedCase Uuid.nil "intake" 0]) 1

/-- The request arrives and is served. -/
def collectingRun : List (Action (frontSystem Reference.sql Reference.state)) :=
  .start (.http collecting) :: List.replicate 9 (.call 0 (drawing 0))

/-- What the case then shows. -/
def collected : CaseContent := ⟨"collecting_documents", none, none, none⟩

theorem collectingRun_shown :
    ((((Config.initial intakeWorld).run collectingRun).state : World).db.caseState Uuid.nil
        Uuid.nil).visible = some (2, collected) ∧
      (intakeWorld.db.caseState Uuid.nil Uuid.nil).visible ≠ some (2, collected) := by
  decide +kernel

/-- Its request made the case what it is. -/
theorem changed_by_name_collecting :
    ∃ (i : ℕ) (o : Observed Reference.sql) (u : Task (frontSystem Reference.sql Reference.state))
      (q : HttpRequest) (h h' : History Reference.sql),
      ((Config.initial intakeWorld).run collectingRun).tasks[i]? = some u ∧ u.request = .http q ∧
        u.history = h ++ o :: h' ∧
          Makes Reference.state q h o Uuid.nil Uuid.nil 2 collected := by
  obtain ⟨hnow, hbefore⟩ := collectingRun_shown
  obtain ⟨⟨i, o⟩, -, hmakes⟩ := changed_by_name Reference.contract Reference.versioned
    Reference.optimistic (w := intakeWorld) (List.pairwise_singleton _ _) [] collectingRun hnow
    hbefore
  exact ⟨i, o, hmakes⟩

end Collecting

end ApmeApi
