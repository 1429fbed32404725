import ApmeApi.Lib.Trace
import ApmeApi.Service.AccessControl

/-!
# A standing that ends

While the process runs, a membership is deactivated or its role lowered. Every request looks the
membership up anew, and so does every frame of a connection that was opened before: as soon as the
standing of a user in a tenant has ended, no request at hand that begins afterwards acts for that
user (`ended_standing_refused`).
-/

namespace ApmeApi

open Interaction CaseService

variable {sql : SqlFunctions}

/-- The standing of a user in a tenant permits a request: an active membership in a role that may
make it. -/
def StandingPermits [ApmeInterfaces] (db : Db) (tenantId : Uuid) (user : String)
    (q : ApiRequest) : Prop :=
  ∃ row ∈ db.memberships, row.tenantId = tenantId ∧ row.sharedUserId = user ∧
    row.active = true ∧ ∃ role, parseRole row.role = .ok role ∧ q.permits role

/-- The calls of the request at hand are the last ones. -/
theorem Presents.suffix {q : ApiRequest} {h h' : History sql} {headers : HeaderMap} {t : Uuid}
    (hp : Presents q h headers t h') : h' <:+ h := by
  cases hp with
  | route hq => exact List.suffix_refl _
  | @frame h _ i w config frame req _ hq hread hlast hframe hheaders =>
    exact ⟨h ++ [⟨i, w, .readFrame Tcp.codec⟩], by simp⟩

section

variable [SharedAuth] [ApmeInterfaces] {state : AppState}

/-- A caller for whom an access is made had standing when its membership was looked up. -/
theorem ActsFor.standing {q : ApiRequest} {headers : HeaderMap} {h : History sql} {c : Call}
    {tenantId : Uuid} {subject : VerifiedSubject} {role : TenantRole}
    (ha : ActsFor state q headers h c tenantId subject role) :
    ∃ o ∈ h, StandingPermits o.pre.db tenantId subject.sharedUserId q := by
  obtain ⟨o, ho, -, row, hrow, ht, hu, hactive, hrole⟩ := ha.member
  exact ⟨o, ho, row, hrow, ht, hu, hactive, role, hrole, ha.permitted⟩

variable [Sha2]

/-- **An ended standing is refused.** Let a user have no standing in a tenant in any state of the
run `bs` that follows the run `as`. Then an access to the tenant whose request at hand began after
`as` is made for an authorized caller other than that user, be it a new request or a frame on a
connection that was opened before. -/
theorem ended_standing_refused (w : World) (as bs : List (Action (apiSystem sql state))) {i : ℕ}
    {t : Task (apiSystem sql state)} (ht : ((Config.initial w).run (as ++ bs)).tasks[i]? = some t)
    {tenant : Uuid} {user : String}
    (hended : ∀ bs₁ bs₂, bs = bs₁ ++ bs₂ → ¬ StandingPermits
      (((Config.initial w).run (as ++ bs₁)).state : World).db tenant user t.request)
    {h₁ h₂ : History sql} {o : Observed sql} (hh : t.history = h₁ ++ o :: h₂)
    (ho : o.call.access = some tenant) :
    ∃ headers h subject role, Presents t.request h₁ headers tenant h ∧
      ActsFor state t.request headers h o.call tenant subject role ∧
        (((Config.initial w).run as).made i + h.length ≤ h₁.length →
          subject.sharedUserId ≠ user) := by
  have hguarded : AccessGuarded state t.request h₁ o :=
    (Config.run_follows (Y := apiSystem sql state) w (as ++ bs) ht).guarantee
      (run_accessGuarded state t.request) hh
  obtain ⟨headers, h, subject, role, hpresents, hacts⟩ := hguarded tenant ho
  refine ⟨headers, h, subject, role, hpresents, hacts, ?_⟩
  rintro hlen rfl
  obtain ⟨o', ho', hstanding⟩ := hacts.standing
  obtain ⟨h₀, rfl⟩ := hpresents.suffix
  -- the membership was looked up after `as`
  have hlate : o' ∈ t.history.drop (((Config.initial w).run as).made i) := by
    have hle : ((Config.initial w).run as).made i ≤ h₀.length := by
      rw [List.length_append] at hlen
      omega
    rw [hh, List.append_assoc, List.drop_append_of_le_length hle]
    exact List.mem_append_right _ (List.mem_append_left _ ho')
  obtain ⟨bs₁, a, bs₂, hbs, hpre⟩ := Config.history_since w as bs ht hlate
  rw [hpre] at hstanding
  exact hended bs₁ (a :: bs₂) hbs hstanding

end

/-! ### A deactivated member -/

section

open Reference

/-- The office has an agent besides its administrator. -/
def officeOfTwo : Db :=
  { office with
    memberships := [⟨Uuid.nil, "user", "administrator", true⟩, ⟨Uuid.nil, "agent", "agent", true⟩] }

/-- The memberships once the administrator is deactivated. -/
def deactivated : List MembershipRow :=
  [⟨Uuid.nil, "user", "administrator", false⟩, ⟨Uuid.nil, "agent", "agent", true⟩]

/-- The administrator lists the cases and is deactivated. -/
def untilDeactivated : List (Action (apiSystem Reference.sql Reference.state)) :=
  listRun ++ [.env (.memberships deactivated)]

/-- Then the agent lists the cases. -/
def sinceDeactivated : List (Action (apiSystem Reference.sql Reference.state)) :=
  [.start (.listCases (headers "key")), .call 1 (inputOf "agent"), .call 1 (inputOf "agent"),
    .call 1 (inputOf "agent"), .call 1 (inputOf "agent"), .call 1 (inputOf "agent")]

theorem sinceDeactivated_memberships : ∀ n ≤ sinceDeactivated.length,
    (((Config.initial (World.initial officeOfTwo 0)).run
      (untilDeactivated ++ sinceDeactivated.take n)).state : World).db.memberships =
        deactivated := by
  decide +kernel

theorem sinceDeactivated_access :
    (((Config.initial (World.initial officeOfTwo 0)).run
      (untilDeactivated ++ sinceDeactivated)).tasks[1]?.bind fun t =>
        (t.history.getLast?).bind fun (o : Observed Reference.sql) => o.call.access) =
          some Uuid.nil ∧
      ((Config.initial (World.initial officeOfTwo 0)).run untilDeactivated).made 1 = 0 := by
  decide +kernel

/-- The later access is made for somebody else. -/
theorem ended_standing_refused_agent : ∃ (t : Task (apiSystem Reference.sql Reference.state))
    (h₁ : History Reference.sql) (o : Observed Reference.sql) (headers : HeaderMap)
    (h : History Reference.sql) (subject : VerifiedSubject) (role : TenantRole),
    ((Config.initial (World.initial officeOfTwo 0)).run
      (untilDeactivated ++ sinceDeactivated)).tasks[1]? = some t ∧
      t.history = h₁ ++ [o] ∧ Presents t.request h₁ headers Uuid.nil h ∧
        ActsFor Reference.state t.request headers h o.call Uuid.nil subject role ∧
          subject.sharedUserId ≠ "user" := by
  obtain ⟨t, ht, hlast⟩ := Option.bind_eq_some_iff.mp sinceDeactivated_access.1
  obtain ⟨o, ho, haccess⟩ := Option.bind_eq_some_iff.mp hlast
  have hh : t.history = t.history.dropLast ++ o :: [] :=
    (List.dropLast_append_getLast? o ho).symm
  have hended : ∀ bs₁ bs₂, sinceDeactivated = bs₁ ++ bs₂ → ¬ StandingPermits
      (((Config.initial (World.initial officeOfTwo 0)).run (untilDeactivated ++ bs₁)).state :
        World).db Uuid.nil "user" t.request := by
    intro bs₁ bs₂ hbs
    have htake : sinceDeactivated.take bs₁.length = bs₁ := by rw [hbs, List.take_left]
    have hrows := sinceDeactivated_memberships bs₁.length (by rw [hbs]; simp)
    rw [htake] at hrows
    rintro ⟨row, hrow, -, huser, hactive, -⟩
    rw [hrows] at hrow
    exact absurd ⟨huser, hactive⟩ ((by decide : ∀ row ∈ deactivated,
      ¬ (row.sharedUserId = "user" ∧ row.active = true)) row hrow)
  obtain ⟨headers, h, subject, role, hpresents, hacts, hother⟩ :=
    ended_standing_refused _ untilDeactivated sinceDeactivated ht hended hh haccess
  refine ⟨t, _, o, headers, h, subject, role, ht, hh, hpresents, hacts, hother ?_⟩
  rw [sinceDeactivated_access.2, Nat.zero_add]
  exact hpresents.suffix.length_le

end

end ApmeApi
