import ApmeApi.Lib.Pool

/-!
# Resources of one task

Which resources a task owns is read off its calls: one of them acquires the resource, a later one
gives it up. What the owner relies on (`Ownership.valid`) may depend on its calls and on the state.
When no call touches what another task owns (`Ownership.Respected`), every owner can rely on its
resources in every configuration of a run, and no resource has two owners (`run_owned`).
-/

namespace Interaction

/-- Which resources a task owns after its calls, and what it relies on. -/
structure Ownership (Y : System) (R : Type) where
  owns : List (Obs Y.machine) → R → Prop
  valid : List (Obs Y.machine) → R → Y.machine.State → Prop

variable {Y : System} {R : Type}

/-- Calls under the guarantee `G` respect what other tasks own. -/
structure Ownership.Respected (W : Ownership Y R)
    (G : List (Obs Y.machine) → Obs Y.machine → Prop) : Prop where
  /-- A task starts without resources. -/
  none : ∀ r, ¬ W.owns [] r
  /-- The call of an owner leaves it what it relies on. -/
  own : ∀ h o r, G h o → (∀ r, W.owns h r → W.valid h r o.pre) → W.owns (h ++ [o]) r →
    W.valid (h ++ [o]) r o.post
  /-- What another task owns is not acquired. -/
  fresh : ∀ h o h' r, G h o → W.owns (h ++ [o]) r → ¬ W.owns h r → W.owns h' r →
    ¬ W.valid h' r o.pre
  /-- What another task owns is left as it is. -/
  frame : ∀ h o h' r, G h o → ¬ W.owns h r → W.owns h' r → W.valid h' r o.pre →
    W.valid h' r o.post
  /-- The environment leaves alone what is owned. -/
  env : ∀ e h r s, W.owns h r → W.valid h r s → W.valid h r (Y.env e s)

namespace Config

/-- Every owner can rely on its resources, and each resource has one owner. -/
structure Owned (W : Ownership Y R) (c : Config Y) : Prop where
  valid : ∀ t ∈ c.tasks, ∀ r, W.owns t.history r → W.valid t.history r c.state
  unique : ∀ (i j : ℕ) (t t' : Task Y) (r : R), c.tasks[i]? = some t → c.tasks[j]? = some t' →
    W.owns t.history r → W.owns t'.history r → i = j

variable {W : Ownership Y R} {G : List (Obs Y.machine) → Obs Y.machine → Prop}

/-- A call under the guarantee keeps the owners. -/
theorem Owned.call (hW : W.Respected G) {c : Config Y} (hc : c.Owned W) {i : ℕ} {t : Task Y}
    {o : Obs Y.machine} (ht : c.tasks[i]? = some t) (hpre : o.pre = c.state) (hG : G t.history o)
    (q : Prog Y.sig Y.Response) : Owned W ⟨o.post, c.tasks.set i (t.advance o q)⟩ := by
  have hown : ∀ r, W.owns t.history r → W.valid t.history r o.pre := fun r hr => by
    rw [hpre]
    exact hc.valid t (List.mem_of_getElem? ht) r hr
  -- what another task owns, the caller neither owned nor owns now
  have hothers : ∀ j t' r, i ≠ j → c.tasks[j]? = some t' → W.owns t'.history r →
      ¬ W.owns t.history r ∧ ¬ W.owns (t.history ++ [o]) r ∧ W.valid t'.history r o.pre := by
    intro j t' r hij ht' hr
    have hvalid : W.valid t'.history r o.pre := by
      rw [hpre]
      exact hc.valid t' (List.mem_of_getElem? ht') r hr
    have hnot : ¬ W.owns t.history r := fun hr' => hij (hc.unique i j t t' r ht ht' hr' hr)
    exact ⟨hnot, fun hnew => hW.fresh _ _ _ _ hG hnew hnot hr hvalid, hvalid⟩
  constructor
  · intro t' ht' r hr
    obtain ⟨j, hj⟩ := List.mem_iff_getElem?.mp ht'
    rcases getElem?_set_advance ht hj with ⟨-, rfl⟩ | ⟨hij, hj⟩
    · exact hW.own _ _ _ hG hown hr
    · obtain ⟨hnot, -, hvalid⟩ := hothers j t' r hij hj hr
      exact hW.frame _ _ _ _ hG hnot hr hvalid
  · intro j k t₁ t₂ r h₁ h₂ hr₁ hr₂
    rcases getElem?_set_advance ht h₁ with ⟨rfl, rfl⟩ | ⟨hij, h₁⟩ <;>
      rcases getElem?_set_advance ht h₂ with ⟨rfl, rfl⟩ | ⟨hik, h₂⟩
    · rfl
    · exact absurd hr₁ (hothers k t₂ r hik h₂ hr₂).2.1
    · exact absurd hr₂ (hothers j t₁ r hij h₁ hr₁).2.1
    · exact hc.unique j k t₁ t₂ r h₁ h₂ hr₁ hr₂

/-- **Owners in every configuration.** When the programs make their calls under a guarantee that
respects ownership, every owner can rely on its resources, and no resource has two owners. -/
theorem run_owned {Q : Y.Request → List (Obs Y.machine) → Y.Response → Prop}
    (hmain : ∀ q, wp G (Q q) (Y.main q) []) (hW : W.Respected G) (s : Y.machine.State)
    (as : List (Action Y)) : ((initial s).run as).Owned W := by
  refine (run_invariant (I := fun c => (∀ t ∈ c.tasks, wp G (Q t.request) t.prog t.history) ∧
    c.Owned W) ?_ ?_ ?_ as ⟨by simp [initial], by simp [initial], by simp [initial]⟩).2
  · rintro c q ⟨hwp, hc⟩
    refine ⟨fun t ht => ?_, fun t ht r hr => ?_, fun i j t t' r ht ht' hr hr' => ?_⟩
    · rcases List.mem_append.mp ht with ht | ht
      · exact hwp t ht
      · obtain rfl := List.mem_singleton.mp ht
        exact hmain q
    · rcases List.mem_append.mp ht with ht | ht
      · exact hc.valid t ht r hr
      · obtain rfl := List.mem_singleton.mp ht
        exact absurd hr (hW.none r)
    · rcases getElem?_concat_cases ht with ⟨-, rfl⟩ | ht
      · exact absurd hr (hW.none r)
      · rcases getElem?_concat_cases ht' with ⟨-, rfl⟩ | ht'
        · exact absurd hr' (hW.none r)
        · exact hc.unique i j t t' r ht ht' hr hr'
  · rintro c i t input cl k ⟨hwp, hc⟩ ht hp
    have hcall := hwp t (List.mem_of_getElem? ht)
    rw [hp] at hcall
    obtain ⟨hG, hk⟩ := hcall input c.state
    refine ⟨fun t' ht' => ?_, hc.call hW ht rfl hG _⟩
    rcases List.mem_or_eq_of_mem_set ht' with ht' | rfl
    · exact hwp t' ht'
    · exact hk
  · rintro c e ⟨hwp, hc⟩
    exact ⟨hwp, fun t ht r hr => hW.env e _ r _ hr (hc.valid t ht r hr), hc.unique⟩

end Config

end Interaction
