import ApmeApi.Secrets.Environments

/-!
# Folding working copies back

What becomes of the files when recipes run one after the other, alone on the checkout, and come to
their end. What was decrypted folds back without a change, what was folded back is decrypted as
`sops` writes it, and wiped copies are gone (`fold_round_trip`).
-/

namespace ApmeApi.Secrets

open Dotenv Interaction UnicodeEscape

variable [Sops] {α β : Type} {s s' : Checkout}

/-! ### The program `sops` -/

/-- The text of an environment. -/
def Checkout.textOf (s : Checkout) (n : EnvName) : Option (List Char) :=
  (s.enc.lookup n).bind Sops.text

/-- Editing a text into itself changes nothing, if it does not fail. -/
theorem sopsEdit_same {i : FileInput} {n : EnvName} {t : List Char} (ht : s.textOf n = some t)
    (h : (sopsEdit i s n (some (Text.utf8 t))).1 ≠ .failed) :
    (sopsEdit i s n (some (Text.utf8 t))).2 = s := by
  obtain ⟨x, hx, htext⟩ := Option.bind_eq_some_iff.mp ht
  cases hi : i.ok with
  | true => simp only [sopsEdit, hx, htext, hi, Bool.true_and, decide_true, if_true]
  | false =>
    refine absurd ?_ h
    simp only [sopsEdit, hx, htext, hi, Bool.false_and, Bool.false_eq_true, if_false, encryptInto,
      Option.map_none, Option.getD_none]

/-- An encryption that succeeds is one of the text. -/
theorem sopsEncrypt_ok {i : FileInput} {n : EnvName} {plain : Option (List UInt8)}
    (h : (sopsEncrypt i s n plain).1 = true) : ∃ p x, plain = some p ∧
      Sops.encrypt i.pick p = some x ∧
      (sopsEncrypt i s n plain).2 = { s with enc := s.enc.insert n x } := by
  rw [sopsEncrypt] at h ⊢
  cases he : plain.bind (encryptInto i s n) with
  | none =>
    rw [he] at h
    cases h
  | some s' =>
    obtain ⟨p, hp, hinto⟩ := Option.bind_eq_some_iff.mp he
    obtain ⟨x, hx, rfl⟩ := encryptInto_eq_some hinto
    exact ⟨p, x, hp, hx, rfl⟩

variable [UnicodeNames] [Stdout]

/-! ### Recipes that run alone -/

/-- A recipe that runs alone and comes to its end. -/
def Succeeds {α : Type} (x : RecipeM α) (s : Checkout) (a : α) (s' : Checkout) : Prop :=
  Alone recipeMachine x.run s (.ok a) s'

theorem Succeeds.of_run {x : RecipeM α} {i : ℕ → FileInput} {a : α}
    (h : (Prog.run recipeMachine x.run i s).1 = .ok a) :
    Succeeds x s a (Prog.run recipeMachine x.run i s).2 :=
  ⟨i, Prod.ext h rfl⟩

theorem Succeeds.of_bind {x : RecipeM α} {f : α → RecipeM β} {b : β}
    (h : Succeeds (x >>= f) s b s') : ∃ a s₁, Succeeds x s a s₁ ∧ Succeeds (f a) s₁ b s' :=
  Alone.of_ok_bind h

theorem Succeeds.of_pure {a b : α} (h : Succeeds (pure a) s b s') : b = a ∧ s' = s := by
  obtain ⟨hba, hs⟩ := Alone.of_pure (a := Except.ok a) h
  exact ⟨Except.ok.inj hba, hs⟩

theorem Succeeds.of_command {c : FileCall} {r : c.Reply} (h : Succeeds (command c) s r s') :
    ∃ i, fileExec i c s = (r, s') :=
  (Alone.of_ok_lift h).of_perform

theorem Succeeds.of_orExit {ok : Bool} {u : Unit} (h : Succeeds (orExit ok) s u s') :
    ok = true ∧ s' = s := by
  cases ok with
  | true => exact ⟨rfl, (Succeeds.of_pure h).2⟩
  | false => cases (Alone.of_pure (a := Except.error ()) h).1

/-- A command that has to report success. -/
theorem Succeeds.of_check {c : FileCall} {f : c.Reply → Bool} {g : Unit → RecipeM α} {a : α}
    (h : Succeeds (command c >>= fun r => orExit (f r) >>= g) s a s') :
    ∃ i, f (fileExec i c s).1 = true ∧ Succeeds (g ()) (fileExec i c s).2 a s' := by
  obtain ⟨r, s₁, hr, h⟩ := h.of_bind
  obtain ⟨i, hi⟩ := hr.of_command
  obtain ⟨u, s₂, hexit, hg⟩ := h.of_bind
  obtain ⟨hok, rfl⟩ := hexit.of_orExit
  refine ⟨i, ?_, ?_⟩ <;> rw [hi]
  · exact hok
  · exact hg

theorem Succeeds.of_last {c : FileCall} {f : c.Reply → Bool} {u : Unit}
    (h : Succeeds (command c >>= fun r => orExit (f r)) s u s') :
    ∃ i, f (fileExec i c s).1 = true ∧ s' = (fileExec i c s).2 := by
  obtain ⟨r, s₁, hr, hexit⟩ := h.of_bind
  obtain ⟨i, hi⟩ := hr.of_command
  obtain ⟨hok, rfl⟩ := hexit.of_orExit
  refine ⟨i, ?_, ?_⟩ <;> rw [hi]
  exact hok

/-! ### One environment -/

theorem mktemp_ok {i : FileInput} {n : EnvName} {k : ℕ}
    (h : fileExec i (.mktemp n) s = (some k, s')) :
    s.temps (n, k) = none ∧ s' = s.setTemp (n, k) (some ⟨[], 0o600⟩) := by
  simp only [fileExec] at h
  split at h
  · rename_i hnew
    rw [Bool.and_eq_true, Option.isNone_iff_eq_none] at hnew
    obtain ⟨hk, rfl⟩ := Prod.ext_iff.mp h
    obtain rfl : i.pick = k := Option.some.inj hk
    refine ⟨hnew.2, ?_⟩
    rw [Checkout.writeTemp, hnew.2]
    rfl
  · cases congrArg Prod.fst h

theorem chmod_ok {i : FileInput} {τ : Temp} {f : File} (hf : s.temps τ = some f)
    (h : (fileExec i (.chmod τ) s).1 = true) :
    (fileExec i (.chmod τ) s).2 = s.setTemp τ (some { f with mode := 0o600 }) := by
  cases hi : i.ok with
  | true => simp only [fileExec, hf, hi]
  | false =>
    simp only [fileExec, hf, hi] at h
    cases h

omit [Sops] in
theorem render_ok {r : Rendering} {d : Decrypted} (h : (render r d).ok = true) : d.ok = true := by
  cases r with
  | plain => exact h
  | envfile => exact (Bool.and_eq_true_iff.mp h).1

theorem decrypt_ok {i : FileInput} {r : Rendering} {τ : Temp} {f : File} (hf : s.temps τ = some f)
    (h : (fileExec i (.decryptTo r τ) s).1 = true) :
    ∃ t, s.textOf τ.1 = some t ∧ (render r ⟨t, true⟩).ok = true ∧
      (fileExec i (.decryptTo r τ) s).2 =
        s.setTemp τ (some ⟨(render r ⟨t, true⟩).stdout, f.mode⟩) := by
  change (render r (sopsDecrypt i s τ.1)).ok = true at h
  have hwrite : (fileExec i (.decryptTo r τ) s).2 =
      s.setTemp τ (some ⟨(render r (sopsDecrypt i s τ.1)).stdout, f.mode⟩) := by
    simp only [fileExec, h, if_true, Checkout.writeTemp, hf, Option.map_some, Option.getD_some]
  have hd := render_ok h
  rw [hwrite]
  rw [sopsDecrypt] at h hd ⊢
  cases ht : (s.enc.lookup τ.1).bind Sops.text with
  | none =>
    rw [ht] at hd
    cases hd
  | some t =>
    rw [ht] at h hd
    replace hd : i.ok = true := hd
    rw [hd] at h
    refine ⟨t, ht, h, ?_⟩
    dsimp only
    rw [hd]

theorem install_ok {i : FileInput} {τ : Temp} {f : File} (hf : s.temps τ = some f)
    (h : (fileExec i (.install τ) s).1 = true) : (fileExec i (.install τ) s).2 =
      { s.setTemp τ none with copies := s.copies.insert τ.1 f } := by
  cases hi : i.ok with
  | true => simp only [fileExec, hf, hi]
  | false =>
    simp only [fileExec, hf, hi] at h
    cases h

theorem remove_ok {i : FileInput} {n : EnvName} (h : (fileExec i (.remove n) s).1 = true) :
    (fileExec i (.remove n) s).2 = { s with copies := s.copies.erase n } := by
  cases hi : i.ok with
  | true => simp only [fileExec, hi, if_true]
  | false =>
    simp only [fileExec, hi, Bool.false_eq_true, if_false] at h

/-- **One environment is put in place**, rendered, with mode 0600, and everything else is left as it
was. -/
theorem Succeeds.of_materialise {r : Rendering} {n : EnvName} {u : Unit}
    (h : Succeeds (materialise r n) s u s') :
    ∃ t, s.textOf n = some t ∧ (render r ⟨t, true⟩).ok = true ∧
      s' = { s with copies := s.copies.insert n ⟨(render r ⟨t, true⟩).stdout, 0o600⟩ } := by
  rw [materialise] at h
  obtain ⟨i₀, -, h⟩ := h.of_check
  change Succeeds _ s u s' at h
  obtain ⟨k, s₁, hr, h⟩ := h.of_bind
  obtain ⟨i₁, hi₁⟩ := hr.of_command
  cases k with
  | none => cases (Alone.of_pure (a := Except.error ()) h).1
  | some k =>
    obtain ⟨hnone, rfl⟩ := mktemp_ok hi₁
    obtain ⟨i₂, hchmod, h⟩ := h.of_check
    rw [chmod_ok (setTemp_temps _ _ _) hchmod, setTemp_setTemp] at h
    obtain ⟨i₃, hdecrypt, h⟩ := h.of_check
    obtain ⟨t, ht, hok, hwrite⟩ := decrypt_ok (setTemp_temps _ _ _) hdecrypt
    rw [hwrite, setTemp_setTemp] at h
    obtain ⟨i₄, hinstall, rfl⟩ := h.of_last
    refine ⟨t, ht, hok, ?_⟩
    rw [install_ok (setTemp_temps _ _ _) hinstall, setTemp_setTemp, ← hnone, setTemp_self]
    rfl

/-- **`env-encrypt` of one environment**: nothing changes when the copy holds the text of the
environment, and otherwise the ciphertext is made of the copy. -/
theorem Succeeds.of_foldBack {n : EnvName} {u : Unit} (h : Succeeds (foldBack n) s u s') :
    ∃ f, s.copies.lookup n = some f ∧
      ((∃ t, s.textOf n = some t ∧ f.content = Text.utf8 t ∧ s' = s) ∨
        (∀ t, s.textOf n = some t → f.content ≠ Text.utf8 t) ∧
        ∃ r x, Sops.encrypt r f.content = some x ∧ s' = { s with enc := s.enc.insert n x }) := by
  rw [foldBack] at h
  obtain ⟨i₀, hcopy, h⟩ := h.of_check
  change Succeeds _ s u s' at h
  obtain ⟨f, hf⟩ := Option.isSome_iff_exists.mp hcopy
  refine ⟨f, hf, ?_⟩
  obtain ⟨found, s₁, htest, h⟩ := h.of_bind
  obtain ⟨i₁, hi₁⟩ := htest.of_command
  obtain ⟨hfound, rfl⟩ := Prod.ext_iff.mp hi₁
  change (fileExec i₁ (.testEnc n) s).1 = found at hfound
  change Succeeds _ s u s' at h
  cases found with
  | true =>
    obtain ⟨i₂, hedit, rfl⟩ := h.of_last
    replace hedit : (sopsEdit i₂ s n ((s.copies.lookup n).map File.content)).1 ≠ .failed :=
      of_decide_eq_true hedit
    change (∃ t, s.textOf n = some t ∧ f.content = Text.utf8 t ∧
      (sopsEdit i₂ s n ((s.copies.lookup n).map File.content)).2 = s) ∨ _ ∧ ∃ r x, _ ∧
        (sopsEdit i₂ s n ((s.copies.lookup n).map File.content)).2 = _
    rw [hf, Option.map_some] at hedit ⊢
    by_cases hsync : ∃ t, s.textOf n = some t ∧ f.content = Text.utf8 t
    · obtain ⟨t, ht, hcontent⟩ := hsync
      exact .inl ⟨t, ht, hcontent, by rw [hcontent] at hedit ⊢; exact sopsEdit_same ht hedit⟩
    · refine .inr ⟨fun t ht hcontent => hsync ⟨t, ht, hcontent⟩, ?_⟩
      rcases sopsEdit_cases i₂ s n (some f.content) with
        ⟨p, x, hp, hx, h⟩ | h | ⟨t, ht, htext, -⟩ | h
      · obtain rfl := Option.some.inj hp
        exact ⟨i₂.pick, x, hx, by rw [h]⟩
      · rw [h] at hedit
        exact absurd rfl hedit
      · exact absurd ⟨t, htext, Option.some.inj ht⟩ hsync
      · rw [h] at hedit
        exact absurd rfl hedit
  | false =>
    have hnone : s.textOf n = none := by rw [Checkout.textOf, testEnc_false hfound]; rfl
    obtain ⟨i₂, hencrypt, rfl⟩ := h.of_last
    obtain ⟨p, x, hp, hx, hs⟩ := sopsEncrypt_ok hencrypt
    rw [hf, Option.map_some] at hp
    obtain rfl := Option.some.inj hp
    refine .inr ⟨fun t ht => ?_, i₂.pick, x, hx, hs⟩
    cases hnone.symm.trans ht

/-! ### Loops -/

theorem Succeeds.of_forM_cons {f : α → RecipeM Unit} {a : α} {l : List α} {u : Unit}
    (h : Succeeds ((a :: l).forM f) s u s') :
    ∃ s₁, Succeeds (f a) s () s₁ ∧ Succeeds (l.forM f) s₁ () s' := by
  obtain ⟨v, s₁, ha, hl⟩ := h.of_bind
  exact ⟨s₁, ha, hl⟩

/-- The texts of `l` are in place. -/
theorem Succeeds.of_decryptAll {l : List EnvName} {u : Unit}
    (h : Succeeds (l.forM (materialise .plain)) s u s') :
    s'.enc = s.enc ∧ s'.temps = s.temps ∧
      (∀ n ∈ l, ∃ t, s.textOf n = some t ∧ s'.copies.lookup n = some ⟨Text.utf8 t, 0o600⟩) ∧
      ∀ n, n ∉ l → s'.copies.lookup n = s.copies.lookup n := by
  induction l generalizing s with
  | nil =>
    obtain ⟨-, rfl⟩ := Succeeds.of_pure (a := ()) h
    exact ⟨rfl, rfl, by simp, fun n _ => rfl⟩
  | cons a l ih =>
    obtain ⟨s₁, ha, hl⟩ := h.of_forM_cons
    obtain ⟨t, ht, -, rfl⟩ := ha.of_materialise
    obtain ⟨henc, htemps, hin, hout⟩ := ih hl
    refine ⟨henc, htemps, fun n hn => ?_, fun n hn => ?_⟩
    · by_cases hnl : n ∈ l
      · exact hin n hnl
      · obtain rfl := (List.mem_cons.mp hn).resolve_right hnl
        exact ⟨t, ht, (hout n hnl).trans (AList.lookup_insert _)⟩
    · rw [List.mem_cons, not_or] at hn
      exact (hout n hn.2).trans (AList.lookup_insert_ne hn.1)

/-- An environment holds what its copy held, or what `sops` makes of it. -/
def Folded (s s' : Checkout) (n : EnvName) : Prop :=
  ∃ f t, s.copies.lookup n = some f ∧ s'.textOf n = some t ∧
    (f.content = Text.utf8 t ∨ Sops.normal f.content = some t)

/-- The copies of `l` are folded back. -/
theorem Succeeds.of_encryptAll (hsops : SopsContract) {l : List EnvName} {u : Unit}
    (h : Succeeds (l.forM foldBack) s u s') :
    s'.copies = s.copies ∧ s'.temps = s.temps ∧ (∀ n ∈ l, Folded s s' n) ∧
      ∀ n, n ∉ l → s'.enc.lookup n = s.enc.lookup n := by
  induction l generalizing s with
  | nil =>
    obtain ⟨-, rfl⟩ := Succeeds.of_pure (a := ()) h
    exact ⟨rfl, rfl, by simp, fun n _ => rfl⟩
  | cons a l ih =>
    obtain ⟨s₁, ha, hl⟩ := h.of_forM_cons
    obtain ⟨hcopies, htemps, hin, hout⟩ := ih hl
    -- the first round changes the ciphertext of `a` at most, and folds its copy back
    have hfirst : s₁.copies = s.copies ∧ s₁.temps = s.temps ∧ Folded s s₁ a ∧
        ∀ n, n ≠ a → s₁.enc.lookup n = s.enc.lookup n := by
      obtain ⟨f, hf, ⟨t, ht, hcontent, rfl⟩ | ⟨-, r, x, hx, rfl⟩⟩ := ha.of_foldBack
      · exact ⟨rfl, rfl, ⟨f, t, hf, ht, .inl hcontent⟩, fun n _ => rfl⟩
      · obtain ⟨t, hnormal, htext⟩ := hsops.encrypt_text r _ x hx
        refine ⟨rfl, rfl, ⟨f, t, hf, ?_, .inr hnormal⟩, fun n hn => AList.lookup_insert_ne hn⟩
        rw [Checkout.textOf, AList.lookup_insert, Option.bind_some, htext]
    obtain ⟨hcopies₁, htemps₁, hfolded, henc₁⟩ := hfirst
    refine ⟨hcopies.trans hcopies₁, htemps.trans htemps₁, fun n hn => ?_, fun n hn => ?_⟩
    · by_cases hnl : n ∈ l
      · obtain ⟨f, t, hf, ht⟩ := hin n hnl
        exact ⟨f, t, by rwa [← hcopies₁], ht⟩
      · obtain rfl := (List.mem_cons.mp hn).resolve_right hnl
        obtain ⟨f, t, hf, ht, hcontent⟩ := hfolded
        exact ⟨f, t, hf, by rwa [Checkout.textOf, hout n hnl], hcontent⟩
    · rw [List.mem_cons, not_or] at hn
      exact (hout n hn.2).trans (henc₁ n hn.1)

/-- Copies that hold the texts of their environments change nothing. -/
theorem Succeeds.of_encryptSame {l : List EnvName} {u : Unit}
    (h : Succeeds (l.forM foldBack) s u s') (hsync : ∀ n ∈ l, ∃ f t, s.copies.lookup n = some f ∧
      s.textOf n = some t ∧ f.content = Text.utf8 t) : s' = s := by
  induction l generalizing s with
  | nil => exact (Succeeds.of_pure (a := ()) h).2
  | cons a l ih =>
    obtain ⟨s₁, ha, hl⟩ := h.of_forM_cons
    obtain ⟨g, u, hg, hu, hcontent⟩ := hsync a List.mem_cons_self
    obtain ⟨f, hf, ⟨t, -, -, rfl⟩ | ⟨hdiff, -⟩⟩ := ha.of_foldBack
    · exact ih hl fun n hn => hsync n (List.mem_cons_of_mem _ hn)
    · obtain rfl := Option.some.inj (hf.symm.trans hg)
      exact absurd hcontent (hdiff u hu)

/-- The copies of `l` are gone. -/
theorem Succeeds.of_cleanAll {l : List EnvName} {u : Unit}
    (h : Succeeds (l.forM fun n => do
      command (.zero n)
      orExit (← command (.remove n))) s u s') :
    s'.enc = s.enc ∧ s'.temps = s.temps ∧ (∀ n ∈ l, s'.copies.lookup n = none) ∧
      ∀ n, n ∉ l → s'.copies.lookup n = s.copies.lookup n := by
  induction l generalizing s with
  | nil =>
    obtain ⟨-, rfl⟩ := Succeeds.of_pure (a := ()) h
    exact ⟨rfl, rfl, by simp, fun n _ => rfl⟩
  | cons a l ih =>
    obtain ⟨s₁, ha, hl⟩ := h.of_forM_cons
    obtain ⟨v, s₂, hzero, ha⟩ := ha.of_bind
    obtain ⟨i, hi⟩ := hzero.of_command
    obtain ⟨-, rfl⟩ := Prod.ext_iff.mp hi
    obtain ⟨j, hremove, rfl⟩ := ha.of_last
    obtain ⟨henc, htemps, hin, hout⟩ := ih hl
    rw [remove_ok hremove] at henc htemps hout
    refine ⟨henc, htemps, fun n hn => ?_, fun n hn => ?_⟩
    · by_cases hnl : n ∈ l
      · exact hin n hnl
      · obtain rfl := (List.mem_cons.mp hn).resolve_right hnl
        exact (hout n hnl).trans (AList.lookup_erase _ _)
    · rw [List.mem_cons, not_or] at hn
      exact (hout n hn.2).trans ((AList.lookup_erase_ne hn.1).trans (AList.lookup_insert_ne hn.1))

omit [Sops] [UnicodeNames] [Stdout] in
theorem mem_glob {order keys : List EnvName} {n : EnvName} :
    n ∈ glob order keys ↔ n.visible = true ∧ n ∈ keys := by
  rw [glob]
  split
  · rename_i hperm
    rw [hperm.mem_iff, List.mem_filter, and_comm]
  · rw [List.mem_filter, and_comm]

/-- The environments that a recipe is run on: those it is given, or all that a `*` matches. -/
def Selected (names keys : List EnvName) (n : EnvName) : Prop :=
  n ∈ names ∨ names = [] ∧ n.visible = true ∧ n ∈ keys

theorem Succeeds.of_selected {all : RecipeM (List EnvName)} {names keys l : List EnvName}
    (h : Succeeds (selected names all) s l s')
    (hall : ∀ l s', Succeeds all s l s' → s' = s ∧ ∃ order, l = glob order keys) :
    s' = s ∧ ∀ n, n ∈ l ↔ Selected names keys n := by
  rw [selected] at h
  cases names with
  | nil =>
    obtain ⟨rfl, order, rfl⟩ := hall l s' h
    exact ⟨rfl, fun n => by simp [mem_glob, Selected]⟩
  | cons m names =>
    obtain ⟨rfl, rfl⟩ := Succeeds.of_pure h
    exact ⟨rfl, fun n => by simp [Selected]⟩

theorem Succeeds.of_listEnc {l : List EnvName} (h : Succeeds (command .listEnc) s l s') :
    s' = s ∧ ∃ order, l = glob order s.enc.keys := by
  obtain ⟨i, hi⟩ := h.of_command
  obtain ⟨rfl, rfl⟩ := Prod.ext_iff.mp hi
  exact ⟨rfl, i.names, rfl⟩

theorem Succeeds.of_listCopies {l : List EnvName} (h : Succeeds (command .listCopies) s l s') :
    s' = s ∧ ∃ order, l = glob order s.copies.keys := by
  obtain ⟨i, hi⟩ := h.of_command
  obtain ⟨rfl, rfl⟩ := Prod.ext_iff.mp hi
  exact ⟨rfl, i.names, rfl⟩

/-! ### Whole recipes -/

/-- **`env-decrypt`** puts the text of each environment that it is run on in place. -/
theorem Succeeds.of_envDecrypt {names : List EnvName} (h : Succeeds (envDecrypt names) s () s') :
    s'.enc = s.enc ∧ ∀ n, Selected names s.enc.keys n →
      ∃ t, s.textOf n = some t ∧ s'.copies.lookup n = some ⟨Text.utf8 t, 0o600⟩ := by
  obtain ⟨l, s₀, hselected, hloop⟩ := h.of_bind
  obtain ⟨rfl, hl⟩ := hselected.of_selected fun _ _ => Succeeds.of_listEnc
  obtain ⟨henc, -, hin, -⟩ := hloop.of_decryptAll
  exact ⟨henc, fun n hn => hin n ((hl n).mpr hn)⟩

/-- **`env-encrypt`** folds back the copies of the environments that it is run on. -/
theorem Succeeds.of_envEncrypt {names : List EnvName} (h : Succeeds (envEncrypt names) s () s') :
    ∃ l : List EnvName, (∀ n, n ∈ l ↔ Selected names s.copies.keys n) ∧
      Succeeds (l.forM foldBack) s () s' := by
  obtain ⟨l, s₀, hselected, hloop⟩ := h.of_bind
  obtain ⟨rfl, hl⟩ := hselected.of_selected fun _ _ => Succeeds.of_listCopies
  exact ⟨l, hl, hloop⟩

/-- **The round trips of the recipes.** For recipes that run one after the other, alone, and come to
their end:

* what `env-decrypt` has put in place, `env-encrypt` folds back without changing any file;
* what `env-encrypt` has folded back, `env-decrypt` puts in place as `sops` writes it, in a file of
  mode 0600;
* `env-clean` removes the working copies that a `*` matches, and touches neither a ciphertext nor a
  file that an interrupted recipe has left. -/
theorem fold_round_trip (hsops : SopsContract) (s : Checkout) :
    (∀ names names' s₁ s₂, Succeeds (envDecrypt names) s () s₁ →
      Succeeds (envEncrypt names') s₁ () s₂ →
      (∀ n, Selected names' s₁.copies.keys n → Selected names s.enc.keys n) → s₂ = s₁) ∧
    (∀ names names' s₁ s₂, Succeeds (envEncrypt names) s () s₁ →
      Succeeds (envDecrypt names') s₁ () s₂ →
      ∀ n, Selected names s.copies.keys n → Selected names' s₁.enc.keys n →
        ∃ f t, s.copies.lookup n = some f ∧
          (f.content = Text.utf8 t ∨ Sops.normal f.content = some t) ∧ s₂.textOf n = some t ∧
          s₂.copies.lookup n = some ⟨Text.utf8 t, 0o600⟩) ∧
    ∀ s₁, Succeeds envClean s () s₁ → s₁.enc = s.enc ∧ s₁.temps = s.temps ∧
      ∀ n, s₁.copies.lookup n = if n.visible then none else s.copies.lookup n := by
  refine ⟨fun names names' s₁ s₂ hdec henc hsub => ?_,
    fun names names' s₁ s₂ henc hdec n hn hn' => ?_, fun s₁ hclean => ?_⟩
  · obtain ⟨hsame, hin⟩ := hdec.of_envDecrypt
    obtain ⟨l, hl, hloop⟩ := henc.of_envEncrypt
    refine hloop.of_encryptSame fun n hn => ?_
    obtain ⟨t, ht, hcopy⟩ := hin n (hsub n ((hl n).mp hn))
    exact ⟨_, t, hcopy, by rwa [Checkout.textOf, hsame], rfl⟩
  · obtain ⟨hsame, hin⟩ := hdec.of_envDecrypt
    obtain ⟨l, hl, hloop⟩ := henc.of_envEncrypt
    obtain ⟨-, -, hfolded, -⟩ := hloop.of_encryptAll hsops
    obtain ⟨f, t, hf, ht, hcontent⟩ := hfolded n ((hl n).mpr hn)
    obtain ⟨u, hu, hcopy⟩ := hin n hn'
    obtain rfl := Option.some.inj (ht.symm.trans hu)
    exact ⟨f, t, hf, hcontent, by rwa [Checkout.textOf, hsame], hcopy⟩
  · obtain ⟨l, s₀, hlist, hloop⟩ := hclean.of_bind
    obtain ⟨rfl, order, rfl⟩ := hlist.of_listCopies
    obtain ⟨henc, htemps, hin, hout⟩ := hloop.of_cleanAll
    refine ⟨henc, htemps, fun n => ?_⟩
    by_cases hn : n ∈ glob order s₀.copies.keys
    · rw [hin n hn, if_pos (mem_glob.mp hn).1]
    · rw [hout n hn]
      split
      · rename_i hvisible
        rw [AList.lookup_eq_none]
        exact fun hmem => hn (mem_glob.mpr ⟨hvisible, hmem⟩)
      · rfl

/-- The checkout after the working copy has been folded back. -/
def foldedCheckout : Checkout :=
  ⟨AList.singleton devName (0x45 :: bytes "A=2\n"), devCheckout.copies, fun _ => none⟩

omit [Sops] [UnicodeNames] [Stdout] in
theorem fold_round_trip_dev :
    letI : UnicodeNames := ⟨fun _ => none⟩
    letI : Stdout := ⟨.strict⟩
    letI := markingSops
    ∃ s₂, Succeeds (envEncrypt []) devCheckout () foldedCheckout ∧
      Succeeds (envDecrypt []) foldedCheckout () s₂ ∧
      ∃ f t, devCheckout.copies.lookup devName = some f ∧
        (f.content = Text.utf8 t ∨ Sops.normal f.content = some t) ∧ s₂.textOf devName = some t ∧
        s₂.copies.lookup devName = some ⟨Text.utf8 t, 0o600⟩ := by
  let _ : UnicodeNames := ⟨fun _ => none⟩
  let _ : Stdout := ⟨.strict⟩
  let _ := markingSops
  have hfold : Succeeds (envEncrypt []) devCheckout () foldedCheckout := ⟨fun _ => obeyed, rfl⟩
  obtain ⟨s₂, hdecrypt⟩ : ∃ s₂, Succeeds (envDecrypt []) foldedCheckout () s₂ :=
    ⟨_, fun _ => obeyed, rfl⟩
  exact ⟨s₂, hfold, hdecrypt, (fold_round_trip markingSops_contract devCheckout).2.1 [] [] _ _ hfold
    hdecrypt devName (.inr ⟨rfl, by decide, by decide⟩) (.inr ⟨rfl, by decide, by decide⟩)⟩

end ApmeApi.Secrets
