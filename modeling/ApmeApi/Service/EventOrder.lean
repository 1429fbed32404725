import ApmeApi.Service.CaseVersions
import ApmeApi.Service.Provenance

/-!
# The order of the events of a case

The version of a case only grows, so the versions of the events of one case grow in the order in
which their mutations commit. A handler publishes only after two reads that follow its commit, and
another mutation of the case may commit and publish in between: the events of a case can be
published in another order than they were committed in (`not_published_in_version_order`).

What the code keeps is the order of commits (`published_in_commit_order`): no version of a case is
published twice, and of two events of a case, the one whose mutation was committed at some moment
has a smaller version than one whose mutation was not, wherever the two are published. So an event
published before the mutation of the other is even committed comes first in both orders.
-/

namespace ApmeApi

open Interaction CaseService

variable {sql : SqlFunctions}

/-- The event of a mutation that has committed is stored. -/
def EventStored (w : World) (e : TenantEvent) : Prop :=
  w.db.selectEvent e.tenantId e.event.eventId ≠ none

/-! ### Versions in every run -/

section Runs

variable [SharedAuth] [ApmeInterfaces] [Sha2] {state : AppState}

section

variable (hversioned : SqlVersioned sql)
include hversioned

theorem unique_stable :
    Config.Stable (apiSystem sql state) fun w : World => w.db.UniqueCases where
  exec i c w h := exec_unique hversioned i c w h
  env e w h := by cases e <;> exact h

/-- Every call found unique cases, when there were unique cases to begin with. -/
theorem unique_pre {w : World} (hw : w.db.UniqueCases) {as : List (Action (apiSystem sql state))}
    {i : ℕ} {t : Task (apiSystem sql state)} (ht : ((Config.initial w).run as).tasks[i]? = some t)
    {o : Observed sql} (ho : o ∈ t.history) : o.pre.db.UniqueCases :=
  Config.run_later (unique_stable hversioned) (c := Config.initial w) hw as (Nat.zero_le i) ht ho

end

variable (hsql : SqlContract sql) (hversioned : SqlVersioned sql)
include hsql hversioned

theorem reached_stable (t c : Uuid) (version : ℤ) :
    Config.Stable (apiSystem sql state) fun w : World =>
      w.db.UniqueCases ∧ w.db.Reached t c version where
  exec i cl w h := ⟨exec_unique hversioned i cl w h.1, exec_reached hsql hversioned i cl w h.1 h.2⟩
  env e w h := by cases e <;> exact h

/-- **A version is committed once**: two commits of a run that produce the same version of one
case are of the same task. -/
theorem version_unique {w : World} (hw : w.db.UniqueCases)
    {as : List (Action (apiSystem sql state))} {i j : ℕ} {t u : Task (apiSystem sql state)}
    {o o' : Observed sql} {m m' : SqlMutation} {row row' : MutationRow}
    (ht : ((Config.initial w).run as).tasks[i]? = some t)
    (hu : ((Config.initial w).run as).tasks[j]? = some u) (ho : o ∈ t.history)
    (ho' : o' ∈ u.history) (hc : Commits o m row) (hc' : Commits o' m' row')
    (htenant : m'.tenantId = m.tenantId) (hcase : row'.caseId = row.caseId)
    (hversion : row'.caseVersion = row.caseVersion) : i = j := by
  obtain ⟨k, hk⟩ := List.mem_iff_getElem?.mp ho
  obtain ⟨k', hk'⟩ := List.mem_iff_getElem?.mp ho'
  have hdb := unique_pre hversioned hw ht ho
  have hdb' := unique_pre hversioned hw hu ho'
  refine (Config.run_token_unique (T := Uuid × Uuid × ℤ)
    (P := fun x (s : World) => s.db.UniqueCases ∧ s.db.Reached x.1 x.2.1 x.2.2)
    (R := fun (o : Observed sql) x => o.pre.db.UniqueCases ∧
      ∃ m row, Commits o m row ∧ x = (m.tenantId, row.caseId, row.caseVersion)) ?_ ?_ ?_ w as ht
    hk hu hk' ⟨hdb, m, row, hc, rfl⟩
    ⟨hdb', m', row', hc', by rw [htenant, hcase, hversion]⟩).1
  · exact fun x => reached_stable hsql hversioned x.1 x.2.1 x.2.2
  · rintro o x ⟨hdb, m, row, hc, rfl⟩ ⟨-, hr⟩
    exact hc.not_reached hversioned hdb hr
  · rintro o x ⟨hdb, m, row, hc, rfl⟩
    exact ⟨exec_unique hversioned o.input o.call o.pre hdb, hc.reached hversioned hdb⟩

omit hversioned in
/-- A commit was made before a configuration exactly when its event is stored there. -/
theorem commit_before {w : World} (bs cs : List (Action (apiSystem sql state))) {i : ℕ}
    {t : Task (apiSystem sql state)}
    (ht : (((Config.initial w).run bs).run cs).tasks[i]? = some t) {o : Observed sql}
    (ho : o ∈ t.history) {m : SqlMutation} {row : MutationRow} (hc : Commits o m row) :
    ((Config.initial w).run bs).state.db.selectEvent m.tenantId row.eventId ≠ none ↔
      ∃ t₀, ((Config.initial w).run bs).tasks[i]? = some t₀ ∧ o ∈ t₀.history := by
  constructor
  · intro hstored
    have hstable : Config.Stable (apiSystem sql state) fun w : World =>
        w.db.selectEvent m.tenantId row.eventId ≠ none := by
      refine ⟨fun input c s h => ?_, fun e s h => ?_⟩
      · obtain ⟨ev, he⟩ := Option.ne_none_iff_exists'.mp h
        exact Option.ne_none_iff_exists'.mpr ⟨ev, (exec_keeps hsql input c s).event he⟩
      · obtain ⟨ev, he⟩ := Option.ne_none_iff_exists'.mp h
        exact Option.ne_none_iff_exists'.mpr ⟨ev, (env_keeps e s).event he⟩
    rcases Config.run_since hstable hstored cs ht ho with hold | hfound
    · exact hold
    · obtain ⟨i', w', db, rfl, -, hok, hfresh⟩ := hc
      exact absurd (hsql.eventFresh hok hfresh) hfound
  · rintro ⟨t₀, ht₀, ho₀⟩
    obtain ⟨ev, -, -, hpost⟩ := committed_post hsql hc
    have hkept := event_kept hsql ht₀ ho₀ hpost.event
    exact Option.ne_none_iff_exists'.mpr ⟨ev, hkept⟩

/-- **Versions follow commits**: a commit made by a moment of the run produced a smaller version of
the case than one made later. -/
theorem version_lt {w : World} (hw : w.db.UniqueCases)
    (bs cs : List (Action (apiSystem sql state))) {i j : ℕ} {t₀ u : Task (apiSystem sql state)}
    {o o' : Observed sql} {m m' : SqlMutation} {row row' : MutationRow}
    (ht : ((Config.initial w).run bs).tasks[i]? = some t₀) (ho : o ∈ t₀.history)
    (hu : (((Config.initial w).run bs).run cs).tasks[j]? = some u) (ho' : o' ∈ u.history)
    (hc : Commits o m row) (hc' : Commits o' m' row') (htenant : m'.tenantId = m.tenantId)
    (hcase : row'.caseId = row.caseId)
    (hlater : ¬ ∃ u₀, ((Config.initial w).run bs).tasks[j]? = some u₀ ∧ o' ∈ u₀.history) :
    row.caseVersion < row'.caseVersion := by
  have hdb := unique_pre hversioned hw ht ho
  have hreached := Config.run_recorded (Y := apiSystem sql state) (R := fun o₁ s => o₁ = o →
      s.db.UniqueCases ∧ s.db.Reached m.tenantId row.caseId row.caseVersion)
    (unique_stable hversioned) (fun o₁ => ⟨fun input c s h ho₁ =>
        (reached_stable hsql hversioned _ _ _).exec input c s (h ho₁),
      fun e s h ho₁ => (reached_stable hsql hversioned _ _ _).env e s (h ho₁)⟩)
    (fun o₁ hpre ho₁ => by
      subst ho₁
      exact ⟨exec_unique hversioned o₁.input o₁.call o₁.pre hpre, hc.reached hversioned hpre⟩)
    hw bs (List.mem_of_getElem? ht) ho rfl
  -- the later call finds the case at the version of the earlier one or past it
  obtain hold | ⟨hdb', r, hrow, hle⟩ :=
    Config.run_since (reached_stable hsql hversioned _ _ _) hreached cs hu ho'
  · exact absurd hold hlater
  · rw [← htenant, ← hcase] at hrow
    have hraised := (hc'.raises hversioned hdb').raised r hrow
    omega

omit hsql hversioned in
/-- The published events, one after the other by their tasks, have distinct keys when two tasks
never share one. -/
theorem published_nodup {db : Db} {clock : DateTime} (as : List (Action (apiSystem sql state)))
    {K : Type} (key : TenantEvent → K)
    (hkey : ∀ (i j : ℕ) (t u : Task (apiSystem sql state)) (e e' : TenantEvent),
      ((Config.initial (World.initial db clock)).run as).tasks[i]? = some t →
      ((Config.initial (World.initial db clock)).run as).tasks[j]? = some u →
      e ∈ published (t.history : History sql) → e' ∈ published (u.history : History sql) →
      key e = key e' → i = j) :
    (((Config.initial (World.initial db clock)).run as).state.published.map key).Nodup := by
  refine ((published_perm db clock as).map key).nodup_iff.mpr ?_
  rw [List.map_flatMap, List.nodup_flatMap]
  constructor
  · -- one request publishes at most one event
    intro t ht
    obtain ⟨i, hi⟩ := List.mem_iff_getElem?.mp ht
    rcases published_cases (publication_guarded hi) with hnil | ⟨m, row, e, he, -⟩
    · rw [hnil]
      exact List.nodup_nil
    · rw [he]
      exact List.nodup_singleton _
  · refine List.pairwise_iff_getElem.mpr fun i j hi hj hlt => ?_
    rintro x hx hx'
    obtain ⟨e, he, rfl⟩ := List.mem_map.mp hx
    obtain ⟨e', he', hsame⟩ := List.mem_map.mp hx'
    exact absurd (hkey i j _ _ e e' (List.getElem?_eq_getElem hi) (List.getElem?_eq_getElem hj) he
      he' hsame.symm) hlt.ne

/-- **Events in the order of commits.** In every run from a database with unique cases, no version
of a case is published twice. At every moment of the run, the events published so far are those of
mutations that have committed; and an event of a case whose mutation has committed by then has a
smaller version than an event of the case whose mutation has not, wherever they are published. -/
theorem published_in_commit_order {db : Db} (hdb : db.UniqueCases) (clock : DateTime)
    (as : List (Action (apiSystem sql state))) :
    (((Config.initial (World.initial db clock)).run as).state.published.map fun e =>
        (e.tenantId, e.caseId, e.event.caseVersion)).Nodup ∧
      ∀ bs cs, as = bs ++ cs →
        (∀ e ∈ ((Config.initial (World.initial db clock)).run bs).state.published,
          EventStored ((Config.initial (World.initial db clock)).run bs).state e) ∧
        ∀ e ∈ ((Config.initial (World.initial db clock)).run as).state.published,
        ∀ e' ∈ ((Config.initial (World.initial db clock)).run as).state.published,
          e'.tenantId = e.tenantId → e'.caseId = e.caseId →
          EventStored ((Config.initial (World.initial db clock)).run bs).state e →
          ¬ EventStored ((Config.initial (World.initial db clock)).run bs).state e' →
            e.event.caseVersion < e'.event.caseVersion := by
  have hinitial : (World.initial db clock).db.UniqueCases := hdb
  refine ⟨published_nodup as _ ?_, ?_⟩
  · intro i j t u e e' ht hu he he' hkey
    obtain ⟨o, ho, m, row, hc, -, ha⟩ := published_announces hsql ht he
    obtain ⟨o', ho', m', row', hc', -, ha'⟩ := published_announces hsql hu he'
    obtain ⟨htenant, hrest⟩ := Prod.mk.inj hkey
    obtain ⟨hcase, hversion⟩ := Prod.mk.inj hrest
    rw [ha.tenantId, ha'.tenantId] at htenant
    rw [ha.caseId, ha'.caseId] at hcase
    rw [ha.caseVersion, ha'.caseVersion] at hversion
    exact version_unique hsql hversioned hinitial ht hu ho ho' hc hc' htenant.symm hcase.symm
      hversion.symm
  · rintro bs cs rfl
    refine ⟨fun e he => ?_, fun e he e' he' htenant hcase hstored hnot => ?_⟩
    · obtain ⟨i, t, ht, o, ho, m, row, hc, -, ha⟩ := published_provenance hsql bs he
      have hbefore := (commit_before hsql bs [] ht ho hc).mpr ⟨t, ht, ho⟩
      rwa [← ha.tenantId, ← ha.eventId] at hbefore
    · obtain ⟨i, t, ht, o, ho, m, row, hc, -, ha⟩ := published_provenance hsql _ he
      obtain ⟨j, u, hu, o', ho', m', row', hc', -, ha'⟩ := published_provenance hsql _ he'
      rw [EventStored, ha.tenantId, ha.eventId] at hstored
      rw [EventStored, ha'.tenantId, ha'.eventId] at hnot
      rw [Config.run_append] at ht hu
      obtain ⟨t₀, ht₀, ho₀⟩ := (commit_before hsql bs cs ht ho hc).mp hstored
      rw [ha.caseVersion, ha'.caseVersion]
      refine version_lt hsql hversioned hinitial bs cs ht₀ ho₀ hu ho' hc hc' ?_ ?_ fun hold => ?_
      · rw [← ha.tenantId, ← ha'.tenantId, htenant]
      · rw [← ha.caseId, ← ha'.caseId, hcase]
      · exact hnot ((commit_before hsql bs cs hu ho' hc').mpr hold)

end Runs

/-! ### Two transitions of one case -/

section Overtaken

open Reference

/-- The choices of the surroundings, with the identifier that a call draws. -/
def drawing (n : BitVec 128) : Input := { input with draw := fun _ => ⟨n⟩ }

/-- A case is created. A first transition commits; before its handler reads the case, a second one
commits, reads and publishes. -/
def overtakenRun : List (Action (apiSystem Reference.sql Reference.state)) :=
  .start (.createCase (headers "create") briefCommand) ::
    List.replicate 9 (.call 0 (drawing 0)) ++
    .start (.transitionCase Uuid.nil (headers "first") ⟨1, .collectingDocuments⟩) ::
    List.replicate 6 (.call 1 (drawing 1)) ++
    .start (.transitionCase Uuid.nil (headers "second") ⟨2, .review⟩) ::
    List.replicate 9 (.call 2 (drawing 2)) ++
    List.replicate 3 (.call 1 (drawing 1))

/-- The third version is published before the second. -/
theorem overtakenRun_published :
    (((Config.initial (World.initial office 1)).run overtakenRun).state.published.map fun e =>
      (e.tenantId, e.caseId, e.event.caseVersion)) =
        [(Uuid.nil, Uuid.nil, 1), (Uuid.nil, Uuid.nil, 3), (Uuid.nil, Uuid.nil, 2)] := by
  decide +kernel

/-- No rows, no two rows of one case. -/
theorem office_unique : office.UniqueCases := List.Pairwise.nil

/-- **Events of a case out of the order of its versions.** -/
theorem not_published_in_version_order : ¬ ∀ (db : Db) (clock : DateTime)
    (as : List (Action (apiSystem Reference.sql Reference.state))), db.UniqueCases →
      ((Config.initial (World.initial db clock)).run as).state.published.Pairwise fun e e' =>
        e'.tenantId = e.tenantId → e'.caseId = e.caseId →
          e.event.caseVersion < e'.event.caseVersion := by
  intro hall
  have hpair := hall office 1 overtakenRun office_unique
  have hmap : ((((Config.initial (World.initial office 1)).run overtakenRun).state.published).map
      fun e => (e.tenantId, e.caseId, e.event.caseVersion)).Pairwise fun x y =>
        y.1 = x.1 → y.2.1 = x.2.1 → x.2.2 < y.2.2 := List.pairwise_map.mpr hpair
  rw [overtakenRun_published] at hmap
  revert hmap
  decide

/-- In that run each version is published once, and each moment splits the events as said. -/
theorem published_in_commit_order_overtaken :
    (((Config.initial (World.initial office 1)).run overtakenRun).state.published.map fun e =>
      (e.tenantId, e.caseId, e.event.caseVersion)).Nodup :=
  (published_in_commit_order Reference.contract Reference.versioned office_unique 1 overtakenRun).1

end Overtaken

end ApmeApi
