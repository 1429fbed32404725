import ApmeApi.Lib.Ownership
import ApmeApi.Lib.Trace
import ApmeApi.Secrets.Checkout

/-!
# The working copies of the environments

A recipe writes a decrypted text to a temporary file that it has created, and puts the file in place
when the text is there in full. No other recipe touches the file on the way (`tempOwnership`), so a
working copy that a recipe has put in place has mode 0600 and is all of a decrypted text, never a
part of one (`copies_whole`).
-/

namespace ApmeApi.Secrets

open Dotenv Interaction UnicodeEscape

variable [Sops] [UnicodeNames] [Stdout]

/-! ### The discipline of the recipes -/

/-- The calls of a recipe. -/
abbrev FileHistory := List (Obs recipeMachine)

/-- The temporary file that a task has created and not put in place yet. -/
def heldAfter (w : Option Temp) : (c : FileCall) → c.Reply → Option Temp
  | .mktemp n, some k => some (n, k)
  | .install _, true => none
  | _, _ => w

def held (h : FileHistory) : Option Temp := h.foldl (fun w o => heldAfter w o.call o.reply) none

@[simp]
theorem held_concat (h : FileHistory) (o : Obs recipeMachine) :
    held (h ++ [o]) = heldAfter (held h) o.call o.reply := by
  rw [held, List.foldl_append, List.foldl_cons, List.foldl_nil]
  rfl

/-- **What a recipe has done before a command**: it works on the temporary file that it has created,
puts it in place right after the text was written to it in full, and creates no ciphertext without
having found that there was none. -/
def Disciplined (h : FileHistory) (o : Obs recipeMachine) : Prop :=
  match o.call with
  | .chmod τ | .decryptTo _ τ => held h = some τ
  | .install τ => held h = some τ ∧ ∃ h' i s r, h = h' ++ [⟨i, s, .decryptTo r τ⟩] ∧
      (fileExec i (.decryptTo r τ) s).1 = true
  | .encryptCopy n | .encryptHeader n =>
    ∃ i s, (⟨i, s, .testEnc n⟩ : Obs recipeMachine) ∈ h ∧ s.enc.lookup n = none
  | _ => True

theorem Disciplined.held_of_temp {h : FileHistory} {o : Obs recipeMachine} {τ : Temp}
    (hG : Disciplined h o) (hτ : o.call.temp = some τ) : held h = some τ := by
  obtain ⟨i, s, c⟩ := o
  cases c with
  | chmod τ' => exact hG.trans hτ
  | decryptTo r τ' => exact hG.trans hτ
  | install τ' => exact hG.1.trans hτ
  | _ => cases hτ

/-- A command that is given a file leaves it to its recipe, or has put it in place. -/
theorem held_concat_of_temp {h : FileHistory} {o : Obs recipeMachine} {τ : Temp}
    (hh : held h = some τ) (hτ : o.call.temp = some τ) :
    held (h ++ [o]) = some τ ∨ o.post.temps τ = none := by
  rw [held_concat]
  obtain ⟨i, s, c⟩ := o
  cases c with
  | chmod τ' => exact .inl hh
  | decryptTo r τ' => exact .inl hh
  | install τ' =>
    obtain rfl : τ' = τ := Option.some.inj hτ
    change heldAfter _ (.install τ') (fileExec i (.install τ') s).1 = _ ∨
      (fileExec i (.install τ') s).2.temps τ' = none
    simp only [fileExec]
    split
    · exact .inr (setTemp_temps s τ' none)
    · exact .inl hh
  | _ => cases hτ

section Rules

variable {α β : Type} {G : FileHistory → Obs recipeMachine → Prop} {h : FileHistory}

theorem ok_command {c : FileCall} {P : FileHistory → c.Reply → Prop} (hG : ∀ i s, G h ⟨i, s, c⟩)
    (hP : ∀ i s, P (h ++ [⟨i, s, c⟩]) (fileExec i c s).1) :
    wp G (Ok P) (command c).run h := by
  rw [command, wp_run_lift]
  exact fun i s => ⟨hG i s, hP i s⟩

theorem ok_orExit {ok : Bool} {P : FileHistory → Unit → Prop} (hP : ok = true → P h ()) :
    wp G (Ok P) (orExit ok).run h := by
  cases ok with
  | true => exact hP rfl
  | false => trivial

/-- A loop of a recipe, whose rounds may have to start after any calls. -/
theorem ok_forM {f : α → RecipeM Unit} {l : List α}
    (hf : ∀ a ∈ l, ∀ h, wp G (Ok fun _ _ => True) (f a).run h) :
    wp G (Ok fun _ _ => True) (l.forM f).run h := by
  induction l generalizing h with
  | nil => trivial
  | cons a l ih =>
    refine ok_bind (wp_post (hf a (by simp) h) ?_)
    rintro h' (e | u) -
    · trivial
    · exact ih fun a ha => hf a (List.mem_cons_of_mem _ ha)

theorem ok_selected {names : List EnvName} {all : RecipeM (List EnvName)}
    (hall : wp G (Ok fun _ _ => True) all.run h) :
    wp G (Ok fun _ _ => True) (selected names all).run h := by
  rw [selected]
  split
  · exact hall
  · trivial

end Rules

theorem materialise_disciplined (r : Rendering) (n : EnvName) (h : FileHistory) :
    wp Disciplined (Ok fun _ _ => True) (materialise r n).run h := by
  refine ok_bind (ok_command (fun _ _ => trivial) fun i₀ s₀ => ?_)
  refine ok_bind (ok_orExit fun _ => ?_)
  refine ok_bind (ok_command (fun _ _ => trivial) fun i₁ s₁ => ?_)
  cases hnew : (fileExec i₁ (.mktemp n) s₁).1 with
  | none => trivial
  | some k =>
    set h₁ := h ++ [⟨i₀, s₀, .testEnc n⟩] ++ [⟨i₁, s₁, .mktemp n⟩] with hh₁
    have hheld₁ : held h₁ = some (n, k) := by
      rw [hh₁, held_concat]
      change heldAfter _ (.mktemp n) (fileExec i₁ (.mktemp n) s₁).1 = _
      rw [hnew]
      rfl
    refine ok_bind (ok_command (fun _ _ => hheld₁) fun i₂ s₂ => ?_)
    have hheld₂ : held (h₁ ++ [⟨i₂, s₂, .chmod (n, k)⟩]) = some (n, k) := by
      rw [held_concat]
      exact hheld₁
    refine ok_bind (ok_orExit fun _ => ?_)
    refine ok_bind (ok_command (fun _ _ => hheld₂) fun i₃ s₃ => ?_)
    refine ok_bind (ok_orExit fun hprinted => ?_)
    refine ok_bind (ok_command (fun _ _ => ⟨?_, _, i₃, s₃, r, rfl, hprinted⟩) fun i₄ s₄ => ?_)
    · rw [held_concat]
      exact hheld₂
    · exact ok_orExit fun _ => trivial

theorem foldBack_disciplined (n : EnvName) (h : FileHistory) :
    wp Disciplined (Ok fun _ _ => True) (foldBack n).run h := by
  refine ok_bind (ok_command (fun _ _ => trivial) fun i₀ s₀ => ?_)
  refine ok_bind (ok_orExit fun _ => ?_)
  refine ok_bind (ok_command (fun _ _ => trivial) fun i₁ s₁ => ?_)
  cases hfound : (fileExec i₁ (.testEnc n) s₁).1 with
  | true => exact ok_bind (ok_command (fun _ _ => trivial) fun _ _ => ok_orExit fun _ => trivial)
  | false =>
    exact ok_bind (ok_command (fun _ _ => ⟨i₁, s₁, by simp, testEnc_false hfound⟩) fun _ _ =>
      ok_orExit fun _ => trivial)

/-- **The recipes are disciplined**, whatever their commands reply. -/
theorem recipe_disciplined (q : FileRecipe) :
    wp Disciplined (Ok fun _ _ => True) q.run.run [] := by
  have hlist : ∀ h, wp Disciplined (Ok fun _ _ => True) (command .listEnc).run h := fun h =>
    ok_command (fun _ _ => trivial) fun _ _ => trivial
  have hcopies : ∀ h, wp Disciplined (Ok fun _ _ => True) (command .listCopies).run h := fun h =>
    ok_command (fun _ _ => trivial) fun _ _ => trivial
  have hloop : ∀ {x : RecipeM (List EnvName)} {f : EnvName → RecipeM Unit},
      (∀ h, wp Disciplined (Ok fun _ _ => True) x.run h) →
      (∀ n h, wp Disciplined (Ok fun _ _ => True) (f n).run h) →
      wp Disciplined (Ok fun _ _ => True) (x >>= fun l => l.forM f).run [] := by
    intro x f hx hf
    refine ok_bind (wp_post (hx []) ?_)
    rintro h (e | l) -
    · trivial
    · exact ok_forM fun n _ h => hf n h
  cases q with
  | decrypt names =>
    exact hloop (fun h => ok_selected (hlist h)) fun n h => materialise_disciplined .plain n h
  | encrypt names => exact hloop (fun h => ok_selected (hcopies h)) foldBack_disciplined
  | edit n => exact ok_bind (ok_command (fun _ _ => trivial) fun _ _ => ok_orExit fun _ => trivial)
  | new n =>
    refine ok_bind (ok_command (fun _ _ => trivial) fun i s => ok_bind (ok_orExit fun hnew => ?_))
    have hnone : s.enc.lookup n = none := testEnc_false (i := i) ((Bool.not_eq_true' _).mp hnew)
    exact ok_bind (ok_command (fun _ _ => ⟨i, s, by simp, hnone⟩) fun _ _ =>
      ok_orExit fun _ => trivial)
  | rekey =>
    exact hloop hlist fun n h =>
      ok_bind (ok_command (fun _ _ => trivial) fun _ _ => ok_orExit fun _ => trivial)
  | dockerEnvFile n => exact materialise_disciplined .envfile n []
  | clean =>
    refine hloop hcopies fun n h => ok_bind (ok_command (fun _ _ => trivial) fun _ _ => ?_)
    exact ok_bind (ok_command (fun _ _ => trivial) fun _ _ => ok_orExit fun _ => trivial)

/-! ### Temporary files -/

/-- **A text in full**: the command decrypted the ciphertext of the environment, as it then was, and
this is all of the text, or all of its environment file. -/
def Printed (n : EnvName) (content : List UInt8) (o : Obs recipeMachine) : Prop :=
  ∃ r k t, o.call = .decryptTo r (n, k) ∧ (o.pre.enc.lookup n).bind Sops.text = some t ∧
    (render r ⟨t, true⟩).ok = true ∧ content = (render r ⟨t, true⟩).stdout

/-- A command that reports success has written a text in full. -/
theorem decryptTo_ok {i : FileInput} {r : Rendering} {τ : Temp} {s : Checkout} {f : File}
    (hok : (fileExec i (.decryptTo r τ) s).1 = true) (hf : s.temps τ = some f) :
    ∃ content, (fileExec i (.decryptTo r τ) s).2.temps τ = some ⟨content, f.mode⟩ ∧
      Printed τ.1 content ⟨i, s, .decryptTo r τ⟩ := by
  change (render r (sopsDecrypt i s τ.1)).ok = true at hok
  refine ⟨(render r (sopsDecrypt i s τ.1)).stdout, ?_, ?_⟩
  · simp only [fileExec, Checkout.writeTemp, setTemp_temps, hok, if_true, hf, Option.map_some,
      Option.getD_some]
  · cases htext : (s.enc.lookup τ.1).bind Sops.text with
    | none =>
      have hfailed : (sopsDecrypt i s τ.1).ok = false := by rw [sopsDecrypt, htext]
      cases r with
      | plain => cases hok.symm.trans hfailed
      | envfile =>
        rw [render, pipeline, hfailed, Bool.false_and] at hok
        cases hok
    | some t =>
      have hdecrypt : sopsDecrypt i s τ.1 = ⟨t, i.ok⟩ := by rw [sopsDecrypt, htext]
      have hi : i.ok = true := by
        rw [hdecrypt] at hok
        cases r with
        | plain => exact hok
        | envfile =>
          rw [render, pipeline, Bool.and_eq_true] at hok
          exact hok.1
      rw [hdecrypt, hi] at hok ⊢
      exact ⟨r, τ.2, t, rfl, htext, hok, rfl⟩

/-- A recipe owns the temporary file that it has created, until it puts it in place: the file has
mode 0600, and holds a text in full when that is what was written last. -/
def tempOwnership : Ownership recipeSystem Temp where
  owns h τ := held h = some τ
  valid h τ s := ∃ f, s.temps τ = some f ∧ f.mode = 0o600 ∧ ∀ h' i s' r,
    h = h' ++ [⟨i, s', .decryptTo r τ⟩] → (fileExec i (.decryptTo r τ) s').1 = true →
      Printed τ.1 f.content ⟨i, s', .decryptTo r τ⟩

/-- What is said of a last call says nothing after another call. -/
theorem not_last {P : Prop} {h h' : FileHistory} {o : Obs recipeMachine} {i : FileInput}
    {s : Checkout} {r : Rendering} {τ : Temp} (hne : ∀ r, o.call ≠ .decryptTo r τ)
    (hlast : h ++ [o] = h' ++ [⟨i, s, .decryptTo r τ⟩]) : P := by
  obtain ⟨-, he⟩ := List.append_inj' hlast rfl
  exact absurd (congrArg Obs.call (List.cons.inj he).1) (hne r)

/-- The recipes respect the temporary files of each other. -/
theorem tempOwnership_respected : tempOwnership.Respected Disciplined where
  none τ h := by cases h
  own := by
    rintro h ⟨i, s, c⟩ τ hG hvalid howns
    change held (h ++ [_]) = some τ at howns
    rw [held_concat] at howns
    -- a file that the call leaves as it is
    have hkept : ∀ f, s.temps τ = some f → f.mode = 0o600 → c.temp ≠ some τ →
        (∀ r, c ≠ .decryptTo r τ) → tempOwnership.valid (h ++ [⟨i, s, c⟩]) τ
          (fileExec i c s).2 := fun f hf hmode htemp hne =>
      ⟨f, fileExec_temps_some i htemp hf, hmode, fun h' i' s' r hlast _ => not_last hne hlast⟩
    have hheld : held h = some τ → ∃ f, s.temps τ = some f ∧ f.mode = 0o600 := fun hh =>
      (hvalid τ hh).imp fun f hf => ⟨hf.1, hf.2.1⟩
    cases c with
    | mktemp n =>
      change heldAfter _ (.mktemp n) (fileExec i (.mktemp n) s).1 = _ at howns
      simp only [fileExec] at howns
      split at howns
      · rename_i hnew
        obtain rfl : (n, i.pick) = τ := Option.some.inj howns
        rw [Bool.and_eq_true, Option.isNone_iff_eq_none] at hnew
        refine ⟨⟨[], 0o600⟩, ?_, rfl, fun h' i' s' r hlast _ =>
          not_last (o := ⟨i, s, .mktemp n⟩) (by simp) hlast⟩
        change (fileExec i (.mktemp n) s).2.temps _ = _
        simp only [fileExec, hnew.1, hnew.2, Option.isNone_none, Bool.and_self, if_true,
          Checkout.writeTemp, setTemp_temps, Option.map_none, Option.getD_none]
      · obtain ⟨f, hf, hmode⟩ := hheld howns
        exact hkept f hf hmode (by simp [FileCall.temp]) (by simp)
    | chmod τ' =>
      obtain ⟨f, hf, hmode⟩ := hheld howns
      obtain rfl : τ' = τ := Option.some.inj (hG.symm.trans howns)
      refine ⟨f, ?_, hmode, fun h' i' s' r hlast _ =>
        not_last (o := ⟨i, s, .chmod τ'⟩) (by simp) hlast⟩
      change (fileExec i (.chmod τ') s).2.temps _ = _
      cases hi : i.ok with
      | true => simp only [fileExec, hf, hi, setTemp_temps, ← hmode]
      | false => simp only [fileExec, hf, hi]
    | decryptTo r τ' =>
      obtain ⟨f, hf, hmode⟩ := hheld howns
      obtain rfl : τ' = τ := Option.some.inj (hG.symm.trans howns)
      cases hok : (fileExec i (.decryptTo r τ') s).1 with
      | true =>
        obtain ⟨content, hcontent, hprinted⟩ := decryptTo_ok hok hf
        refine ⟨_, hcontent, hmode, fun h' i' s' r' hlast _ => ?_⟩
        obtain ⟨-, he⟩ := List.append_inj' hlast rfl
        rw [← (List.cons.inj he).1]
        exact hprinted
      | false =>
        refine ⟨⟨i.output, f.mode⟩, ?_, hmode, fun h' i' s' r' hlast hok' => ?_⟩
        · change (render r (sopsDecrypt i s τ'.1)).ok = false at hok
          change (fileExec i (.decryptTo r τ') s).2.temps _ = _
          simp only [fileExec, Checkout.writeTemp, setTemp_temps, hok, Bool.false_eq_true, if_false,
            hf, Option.map_some, Option.getD_some]
        · obtain ⟨-, he⟩ := List.append_inj' hlast rfl
          injection (List.cons.inj he).1 with hi hs hc
          injection hc with hr
          subst hi hs hr
          cases hok.symm.trans hok'
    | install τ' =>
      change heldAfter _ (.install τ') (fileExec i (.install τ') s).1 = _ at howns
      cases hok : (fileExec i (.install τ') s).1 with
      | true =>
        rw [hok] at howns
        cases howns
      | false =>
        rw [hok] at howns
        obtain ⟨f, hf, hmode⟩ := hheld howns
        refine ⟨f, ?_, hmode, fun h' i' s' r hlast _ =>
          not_last (o := ⟨i, s, .install τ'⟩) (by simp) hlast⟩
        change (fileExec i (.install τ') s).2.temps _ = _
        simp only [fileExec] at hok ⊢
        split
        · rename_i hsome hi
          simp only [hsome, hi] at hok
          cases hok
        · exact hf
    | _ =>
      obtain ⟨f, hf, hmode⟩ := hheld howns
      exact hkept f hf hmode (by simp [FileCall.temp]) (by simp)
  fresh := by
    rintro h ⟨i, s, c⟩ h' τ hG howns hnot - ⟨f, hf, -⟩
    change held (h ++ [_]) = some τ at howns
    rw [held_concat] at howns
    cases c with
    | mktemp n =>
      change heldAfter _ (.mktemp n) (fileExec i (.mktemp n) s).1 = _ at howns
      simp only [fileExec] at howns
      split at howns
      · rename_i hnew
        obtain rfl : (n, i.pick) = τ := Option.some.inj howns
        rw [Bool.and_eq_true, Option.isNone_iff_eq_none, hf] at hnew
        cases hnew.2
      · exact hnot howns
    | install τ' =>
      change heldAfter _ (.install τ') (fileExec i (.install τ') s).1 = _ at howns
      cases hok : (fileExec i (.install τ') s).1 with
      | true =>
        rw [hok] at howns
        cases howns
      | false =>
        rw [hok] at howns
        exact hnot howns
    | _ => exact hnot howns
  frame := by
    rintro h ⟨i, s, c⟩ h' τ hG hnot - ⟨f, hf, hmode, hlast⟩
    exact ⟨f, fileExec_temps_some i (fun hτ => hnot (hG.held_of_temp hτ)) hf, hmode, hlast⟩
  env := by
    rintro e h τ s - ⟨f, hf, hrest⟩
    refine ⟨f, ?_, hrest⟩
    cases e with
    | save n file => cases file <;> exact hf
    | pull n c => exact hf

/-! ### Working copies -/

/-- Where a working copy comes from. The induction is on the run, from its last action. -/
theorem copy_source (s : Checkout) (as : List (Action recipeSystem)) {n : EnvName} {f : File}
    (hf : ((Config.initial s).run as).state.copies.lookup n = some f) :
    s.copies.lookup n = some f ∨ .env (.save n (some f)) ∈ as ∨
      (∃ e ∈ (Config.initial s).trace as, Wiped n f e.2) ∨
      f.mode = 0o600 ∧ ∃ e ∈ (Config.initial s).trace as, Printed n f.content e.2 := by
  induction as using List.reverseRecOn with
  | nil => exact .inl hf
  | append_singleton as a ih =>
    -- what was said of the copy before the last action
    have hkept : ((Config.initial s).run as).state.copies.lookup n = some f →
        s.copies.lookup n = some f ∨ .env (.save n (some f)) ∈ as ++ [a] ∨
          (∃ e ∈ (Config.initial s).trace (as ++ [a]), Wiped n f e.2) ∨ f.mode = 0o600 ∧
            ∃ e ∈ (Config.initial s).trace (as ++ [a]), Printed n f.content e.2 := by
      intro h
      rcases ih h with h | h | ⟨e, he, h⟩ | ⟨hmode, e, he, h⟩
      · exact .inl h
      · exact .inr (.inl (List.mem_append_left _ h))
      · refine .inr (.inr (.inl ⟨e, ?_, h⟩))
        rw [Config.trace_append]
        exact List.mem_append_left _ he
      · refine .inr (.inr (.inr ⟨hmode, e, ?_, h⟩))
        rw [Config.trace_append]
        exact List.mem_append_left _ he
    cases hcalled : ((Config.initial s).run as).called a with
    | none =>
      cases a with
      | start q =>
        rw [Config.run_append] at hf
        exact hkept hf
      | env e =>
        rw [Config.run_append] at hf
        rcases checkoutEnv_copies e ((Config.initial s).run as).state n with h | h | ⟨g, rfl, h⟩
        · exact hkept (h.symm.trans hf)
        · cases h.symm.trans hf
        · obtain rfl := Option.some.inj (h.symm.trans hf)
          exact .inr (.inl (List.mem_append_right _ (List.mem_singleton_self _)))
      | call j input =>
        rw [Config.run_append, Config.run_cons, Config.run_nil,
          Config.step_of_called_none hcalled] at hf
        exact hkept hf
    | some e =>
      obtain ⟨j, o⟩ := e
      obtain ⟨t, t', ht, hpre, hG, -, -, hpost⟩ :=
        Config.called_guarantee recipe_disciplined hcalled
      rw [hpost] at hf
      rcases fileExec_copies o.input o.call o.pre n with h | h | ⟨g, hwiped, h⟩ | ⟨k, hc, h⟩
      · rw [Obs.post, h, hpre] at hf
        exact hkept hf
      · cases h.symm.trans hf
      · obtain rfl := Option.some.inj (h.symm.trans hf)
        refine .inr (.inr (.inl ⟨(j, o), ?_, hwiped⟩))
        rw [Config.trace_append, Config.trace, hcalled]
        simp
      · -- the caller owns the file that it puts in place
        rw [Obs.post, h] at hf
        obtain ⟨i, s', c⟩ := o
        subst hc
        obtain ⟨hheld, h', i', s'', r, hh, hok⟩ := hG
        obtain ⟨g, hg, hmode, hprinted⟩ := (Config.run_owned recipe_disciplined
          tempOwnership_respected s as).valid t (List.mem_of_getElem? ht) _ hheld
        obtain rfl : f = g := Option.some.inj (hf.symm.trans (hpre ▸ hg))
        obtain ⟨l₁, l₂, htrace⟩ := Config.exists_trace_split s as ht
          (o := ⟨i', s'', .decryptTo r (n, k)⟩) (by simp [hh])
        refine .inr (.inr (.inr ⟨hmode, (j, ⟨i', s'', .decryptTo r (n, k)⟩), ?_,
          hprinted h' i' s'' r hh hok⟩))
        rw [Config.trace_append, htrace]
        simp

/-- **The files of a recipe on the way are private.** A temporary file was there from the start, or
has mode 0600. -/
theorem temps_private (s : Checkout) (as : List (Action recipeSystem)) {τ : Temp} {f : File}
    (hf : ((Config.initial s).run as).state.temps τ = some f) :
    s.temps τ = some f ∨ f.mode = 0o600 := by
  induction as using List.reverseRecOn with
  | nil => exact .inl hf
  | append_singleton as a ih =>
    cases hcalled : ((Config.initial s).run as).called a with
    | none =>
      rw [Config.run_append] at hf
      cases a with
      | start q => exact ih hf
      | env e =>
        refine ih (Eq.trans ?_ hf)
        cases e with
        | save n file => cases file <;> rfl
        | pull n x => rfl
      | call j input =>
        rw [Config.run_cons, Config.run_nil, Config.step_of_called_none hcalled] at hf
        exact ih hf
    | some e =>
      obtain ⟨j, o⟩ := e
      obtain ⟨t, t', ht, hpre, hG, ht', hh, hpost⟩ :=
        Config.called_guarantee recipe_disciplined hcalled
      by_cases htemp : o.call.temp = some τ
      · -- the caller owns the file, and still owns it afterwards unless it has put it in place
        rcases held_concat_of_temp (hG.held_of_temp htemp) htemp with hheld | hnone
        · obtain ⟨g, hg, hmode, -⟩ := (Config.run_owned recipe_disciplined
            tempOwnership_respected s (as ++ [a])).valid t' (List.mem_of_getElem? ht') τ
            (by rw [hh]; exact hheld)
          obtain rfl : f = g := Option.some.inj (hf.symm.trans hg)
          exact .inr hmode
        · rw [hpost, hnone] at hf
          cases hf
      · rw [hpost, Obs.post] at hf
        rcases fileExec_temps o.input htemp o.pre with h | ⟨-, h⟩
        · rw [h, hpre] at hf
          exact ih hf
        · exact .inr (congrArg File.mode (Option.some.inj (h.symm.trans hf))).symm

/-- **Working copies are whole, and private.** In every run of the recipes, in any number of shells,
interrupted anywhere and with commands that fail at any time:

* a working copy was there from the start, or a user saved it, or it is what the wiping of
  `env-clean` left of one, or it has mode 0600 and is all of what the ciphertext of its environment
  held at some moment of the run, or all of the environment file of that;
* a temporary file was there from the start, or has mode 0600. -/
theorem copies_whole (s : Checkout) (as : List (Action recipeSystem)) :
    (∀ n f, ((Config.initial s).run as).state.copies.lookup n = some f →
      s.copies.lookup n = some f ∨ .env (.save n (some f)) ∈ as ∨
        (∃ e ∈ (Config.initial s).trace as, Wiped n f e.2) ∨
        f.mode = 0o600 ∧ ∃ e ∈ (Config.initial s).trace as, Printed n f.content e.2) ∧
    ∀ τ f, ((Config.initial s).run as).state.temps τ = some f →
      s.temps τ = some f ∨ f.mode = 0o600 :=
  ⟨fun _ _ hf => copy_source s as hf, fun _ _ hf => temps_private s as hf⟩

end ApmeApi.Secrets
