import ApmeApi.Secrets.WorkingCopies

/-!
# The ciphertexts of the environments

Only `sops edit` and the renewal of recipients replace a ciphertext that exists. When they succeed
they replace it as a whole; when they fail, anything may be left of it. So an environment that
exists holds a whole text at every moment, until a command fails on it (`environments_kept`).
-/

namespace ApmeApi.Secrets

open Dotenv Interaction UnicodeEscape

section

variable [Sops] [UnicodeNames] [Stdout]

/-- **A text that `sops edit` was given** for an environment: by the working copy of its name, or by
the editor of a user. -/
def SavedAs (n : EnvName) (plain : List UInt8) (o : Obs recipeMachine) : Prop :=
  (o.call = .fold n ∧ (o.pre.copies.lookup n).map File.content = some plain) ∨
    (o.call = .edit n ∧ o.input.output = plain)

/-- **What a failure left of a ciphertext**, of `sops edit` or of the renewal of recipients. -/
def Torn (n : EnvName) (x : List UInt8) (o : Obs recipeMachine) : Prop :=
  o.input.torn = some x ∧
    match o.call with
    | .fold m => m = n ∧ (fileExec o.input (.fold m) o.pre).1 = .failed
    | .edit m => m = n ∧ (fileExec o.input (.edit m) o.pre).1 = .failed
    | .updateKeys m => m = n ∧ (fileExec o.input (.updateKeys m) o.pre).1 = false
    | _ => False

omit [UnicodeNames] [Stdout] in
/-- What `sops edit` leaves of its ciphertext: what was there, or what it makes of the text that was
saved, or what a failure left. -/
theorem sopsEdit_enc (i : FileInput) (s : Checkout) (n : EnvName) (saved : Option (List UInt8)) :
    (sopsEdit i s n saved).2.enc.lookup n = s.enc.lookup n ∨
      (∃ plain x, saved = some plain ∧ Sops.encrypt i.pick plain = some x ∧
        (sopsEdit i s n saved).2.enc.lookup n = some x) ∨
      ∃ x, (sopsEdit i s n saved).1 = .failed ∧ i.torn = some x ∧
        (sopsEdit i s n saved).2.enc.lookup n = some x := by
  rcases sopsEdit_cases i s n saved with ⟨plain, x, hplain, hx, h⟩ | h | ⟨t, -, -, h⟩ | h
  · rw [h]
    exact .inr (.inl ⟨plain, x, hplain, hx, AList.lookup_insert _⟩)
  · rw [h]
    exact .inl rfl
  · rw [h]
    exact .inl rfl
  · rcases tear_cases i s n with htear | ⟨x, hx, htear⟩
    · rw [h, htear]
      exact .inl rfl
    · refine .inr (.inr ⟨x, by rw [h], hx, ?_⟩)
      rw [h, htear]
      exact AList.lookup_insert _

/-- What a renewal of recipients leaves of its ciphertext. -/
theorem updateKeys_enc (i : FileInput) (s : Checkout) (n : EnvName) :
    (fileExec i (.updateKeys n) s).2.enc.lookup n = s.enc.lookup n ∨
      (∃ old x, s.enc.lookup n = some old ∧ Sops.rekey i.pick old = some x ∧
        (fileExec i (.updateKeys n) s).2.enc.lookup n = some x) ∨
      ∃ x, (fileExec i (.updateKeys n) s).1 = false ∧ i.torn = some x ∧
        (fileExec i (.updateKeys n) s).2.enc.lookup n = some x := by
  cases hx : (s.enc.lookup n).bind (Sops.rekey i.pick) with
  | none => exact .inl (by simp only [fileExec, hx])
  | some x =>
    obtain ⟨old, hold, hrekey⟩ := Option.bind_eq_some_iff.mp hx
    cases hi : i.ok with
    | true =>
      refine .inr (.inl ⟨old, x, hold, hrekey, ?_⟩)
      simp only [fileExec, hx, hi]
      exact AList.lookup_insert _
    | false =>
      have hexec : fileExec i (.updateKeys n) s = (false, tear i s n) := by
        simp only [fileExec, hx, hi]
      rcases tear_cases i s n with htear | ⟨y, hy, htear⟩
      · exact .inl (by rw [hexec, htear])
      · refine .inr (.inr ⟨y, by rw [hexec], hy, ?_⟩)
        rw [hexec, htear]
        exact AList.lookup_insert _

omit [UnicodeNames] [Stdout] in
/-- What `sops encrypt` leaves of a ciphertext. -/
theorem sopsEncrypt_enc (i : FileInput) (s : Checkout) (m : EnvName)
    (plain : Option (List UInt8)) (n : EnvName) :
    (sopsEncrypt i s m plain).2.enc.lookup n = s.enc.lookup n ∨
      (m = n ∧ ((sopsEncrypt i s m plain).2.enc.lookup n).isSome = true) := by
  obtain ⟨x, hx⟩ := sopsEncrypt_writes i s m plain
  rw [hx]
  rcases eq_or_ne n m with rfl | hne
  · exact .inr ⟨rfl, by rw [AList.lookup_insert, Option.isSome_some]⟩
  · exact .inl (AList.lookup_insert_ne hne)

/-- What a command does to a ciphertext: nothing, or it encrypts what `sops edit` was given, or it
renews the recipients, or it creates the environment, or it fails in the middle. -/
theorem fileExec_enc (i : FileInput) (c : FileCall) (s : Checkout) (n : EnvName) :
    (fileExec i c s).2.enc.lookup n = s.enc.lookup n ∨
      (∃ plain x, SavedAs n plain ⟨i, s, c⟩ ∧ Sops.encrypt i.pick plain = some x ∧
        (fileExec i c s).2.enc.lookup n = some x) ∨
      (∃ old x, s.enc.lookup n = some old ∧ Sops.rekey i.pick old = some x ∧
        (fileExec i c s).2.enc.lookup n = some x) ∨
      ((c = .encryptCopy n ∨ c = .encryptHeader n) ∧
        ((fileExec i c s).2.enc.lookup n).isSome = true) ∨
      ∃ x, Torn n x ⟨i, s, c⟩ ∧ (fileExec i c s).2.enc.lookup n = some x := by
  cases c with
  | fold m =>
    rcases eq_or_ne m n with rfl | hne
    · rcases sopsEdit_enc i s m ((s.copies.lookup m).map File.content) with
        h | ⟨plain, x, hplain, hx, h⟩ | ⟨x, hfailed, htorn, h⟩
      · exact .inl h
      · exact .inr (.inl ⟨plain, x, .inl ⟨rfl, hplain⟩, hx, h⟩)
      · exact .inr (.inr (.inr (.inr ⟨x, ⟨htorn, rfl, hfailed⟩, h⟩)))
    · exact .inl (sopsEdit_enc_of_ne i s _ hne.symm)
  | edit m =>
    rcases eq_or_ne m n with rfl | hne
    · rcases sopsEdit_enc i s m (some i.output) with
        h | ⟨plain, x, hplain, hx, h⟩ | ⟨x, hfailed, htorn, h⟩
      · exact .inl h
      · exact .inr (.inl ⟨plain, x, .inr ⟨rfl, Option.some.inj hplain⟩, hx, h⟩)
      · exact .inr (.inr (.inr (.inr ⟨x, ⟨htorn, rfl, hfailed⟩, h⟩)))
    · exact .inl (sopsEdit_enc_of_ne i s _ hne.symm)
  | encryptCopy m =>
    refine (sopsEncrypt_enc i s m _ n).imp id fun h => .inr (.inr (.inl ?_))
    exact ⟨.inl (congrArg FileCall.encryptCopy h.1), h.2⟩
  | encryptHeader m =>
    refine (sopsEncrypt_enc i s m _ n).imp id fun h => .inr (.inr (.inl ?_))
    exact ⟨.inr (congrArg FileCall.encryptHeader h.1), h.2⟩
  | updateKeys m =>
    rcases eq_or_ne n m with rfl | hne
    · rcases updateKeys_enc i s n with h | h | ⟨x, hfailed, htorn, h⟩
      · exact .inl h
      · exact .inr (.inr (.inl h))
      · exact .inr (.inr (.inr (.inr ⟨x, ⟨htorn, rfl, hfailed⟩, h⟩)))
    · rcases updateKeys_writes i s m with h | ⟨x, h⟩ <;> rw [h]
      · exact .inl rfl
      · exact .inl (AList.lookup_insert_ne hne)
  | mktemp m =>
    simp only [fileExec]
    split <;> exact .inl rfl
  | chmod τ =>
    simp only [fileExec]
    split <;> exact .inl rfl
  | install τ =>
    simp only [fileExec]
    split <;> exact .inl rfl
  | remove m =>
    simp only [fileExec]
    split <;> exact .inl rfl
  | listEnc => exact .inl rfl
  | listCopies => exact .inl rfl
  | testEnc m => exact .inl rfl
  | testCopy m => exact .inl rfl
  | decryptTo r τ => exact .inl rfl
  | zero m => exact .inl rfl

/-- **An environment that exists is not removed.** -/
theorem enc_stable (n : EnvName) :
    Config.Stable recipeSystem fun s => (s.enc.lookup n).isSome = true where
  exec i c s hs := by
    rcases fileExec_enc i c s n with
      h | ⟨plain, x, -, -, h⟩ | ⟨old, x, -, -, h⟩ | ⟨-, h⟩ | ⟨x, -, h⟩
    · rwa [h]
    · rw [h, Option.isSome_some]
    · rw [h, Option.isSome_some]
    · exact h
    · rw [h, Option.isSome_some]
  env e s hs := by
    rcases checkoutEnv_enc e s n with h | ⟨x, -, h⟩
    · rwa [h]
    · rw [h, Option.isSome_some]

/-- **No environment is lost but by a failure of `sops` on it.** In every run of the recipes, in any
number of shells, interrupted anywhere and with commands that fail at any time: an environment that
exists keeps a ciphertext. It holds the text that it held, or one that came with the repository, or
what `sops` makes of what the working copy of its name or an editor held when it was saved, or else
it goes back to what a `sops edit` or a renewal of recipients left of it when it failed. -/
theorem environments_kept (hsops : SopsContract) (s : Checkout) (as : List (Action recipeSystem))
    {n : EnvName} {x₀ : List UInt8} (hx₀ : s.enc.lookup n = some x₀) :
    ∃ x, ((Config.initial s).run as).state.enc.lookup n = some x ∧
      (Sops.text x = Sops.text x₀ ∨ (∃ x', .env (.pull n x') ∈ as ∧ Sops.text x = Sops.text x') ∨
        (∃ e ∈ (Config.initial s).trace as, ∃ plain t, SavedAs n plain e.2 ∧
          Sops.normal plain = some t ∧ Sops.text x = some t) ∨
        ∃ e ∈ (Config.initial s).trace as, ∃ x', Torn n x' e.2 ∧
          Sops.text x = Sops.text x') := by
  induction as using List.reverseRecOn with
  | nil => exact ⟨x₀, hx₀, .inl rfl⟩
  | append_singleton as a ih =>
    obtain ⟨x, hx, hsource⟩ := ih
    -- a ciphertext with the same text
    have hsame : ∀ y, Sops.text y = Sops.text x →
        Sops.text y = Sops.text x₀ ∨
          (∃ x', .env (.pull n x') ∈ as ++ [a] ∧ Sops.text y = Sops.text x') ∨
          (∃ e ∈ (Config.initial s).trace (as ++ [a]), ∃ plain t, SavedAs n plain e.2 ∧
            Sops.normal plain = some t ∧ Sops.text y = some t) ∨
          ∃ e ∈ (Config.initial s).trace (as ++ [a]), ∃ x', Torn n x' e.2 ∧
            Sops.text y = Sops.text x' := by
      intro y hy
      have hlonger : ∀ e ∈ (Config.initial s).trace as,
          e ∈ (Config.initial s).trace (as ++ [a]) := fun e he => by
        rw [Config.trace_append]
        exact List.mem_append_left _ he
      rcases hsource with h | ⟨x', hx', h⟩ | ⟨e, he, plain, t, hsaved, ht, h⟩ | ⟨e, he, x', hx', h⟩
      · exact .inl (hy.trans h)
      · exact .inr (.inl ⟨x', List.mem_append_left _ hx', hy.trans h⟩)
      · exact .inr (.inr (.inl ⟨e, hlonger e he, plain, t, hsaved, ht, hy.trans h⟩))
      · exact .inr (.inr (.inr ⟨e, hlonger e he, x', hx', hy.trans h⟩))
    cases hcalled : ((Config.initial s).run as).called a with
    | none =>
      rw [Config.run_append]
      cases a with
      | start q => exact ⟨x, hx, hsame x rfl⟩
      | env e =>
        rcases checkoutEnv_enc e ((Config.initial s).run as).state n with h | ⟨x', rfl, h⟩
        · exact ⟨x, h.trans hx, hsame x rfl⟩
        · exact ⟨x', h, .inr (.inl ⟨x', by simp, rfl⟩)⟩
      | call j input =>
        rw [Config.run_cons, Config.run_nil, Config.step_of_called_none hcalled]
        exact ⟨x, hx, hsame x rfl⟩
    | some e =>
      obtain ⟨j, o⟩ := e
      obtain ⟨t, t', ht, hpre, hG, -, -, hpost⟩ :=
        Config.called_guarantee recipe_disciplined hcalled
      rw [hpost, Obs.post]
      have hlast : (j, o) ∈ (Config.initial s).trace (as ++ [a]) := by
        rw [Config.trace_append, Config.trace, hcalled]
        simp
      rcases fileExec_enc o.input o.call o.pre n with
        h | ⟨plain, y, hsaved, hy, h⟩ | ⟨old, y, hold, hy, h⟩ | ⟨hc, h⟩ | ⟨y, htorn, h⟩
      · exact ⟨x, by rw [h, hpre, hx], hsame x rfl⟩
      · obtain ⟨u, hu, htext⟩ := hsops.encrypt_text _ _ _ hy
        exact ⟨y, h, .inr (.inr (.inl ⟨(j, o), hlast, plain, u, hsaved, hu, htext⟩))⟩
      · rw [hpre, hx] at hold
        obtain rfl := Option.some.inj hold
        exact ⟨y, h, hsame y (hsops.rekey_text _ _ _ hy)⟩
      · -- the caller would have found that there is no such environment
        have hfound : ∃ i s', (⟨i, s', .testEnc n⟩ : Obs recipeMachine) ∈ t.history ∧
            s'.enc.lookup n = none := by
          obtain ⟨i, s', c⟩ := o
          rcases hc with rfl | rfl <;> exact hG
        obtain ⟨i, s', hmem, hnone⟩ := hfound
        have hsome : (s'.enc.lookup n).isSome = true :=
          Config.run_later (enc_stable n) (c := Config.initial s) (by simp [Config.initial, hx₀]) as
            (Nat.zero_le j) ht hmem
        rw [hnone] at hsome
        cases hsome
      · exact ⟨y, h, .inr (.inr (.inr ⟨(j, o), hlast, y, htorn, rfl⟩))⟩

end

/-! ### A program that marks its ciphertexts -/

/-- A program whose ciphertexts are the texts behind a mark. -/
abbrev markingSops : Sops where
  text
    | 0x45 :: rest => Text.utf8Decode rest
    | _ => none
  normal := Text.utf8Decode
  encrypt _ plain := if (Text.utf8Decode plain).isSome then some (0x45 :: plain) else none
  rekey _ x := some x

theorem markingSops_contract : @SopsContract markingSops := by
  let _ := markingSops
  refine ⟨fun r p c h => ?_, fun r c c' h => ?_⟩
  · change (if (Text.utf8Decode p).isSome = true then some (0x45 :: p) else none) = some c at h
    split at h
    · rename_i hsome
      obtain ⟨t, ht⟩ := Option.isSome_iff_exists.mp hsome
      obtain rfl := Option.some.inj h
      exact ⟨t, ht, ht⟩
    · cases h
  · obtain rfl : c = c' := Option.some.inj h
    rfl

def devName : EnvName := ⟨"dev", by decide⟩

/-- An environment, with a working copy that differs. -/
def devCheckout : Checkout :=
  ⟨AList.singleton devName (0x45 :: bytes "A=1\n"),
    AList.singleton devName ⟨bytes "A=2\n", 0o600⟩, fun _ => none⟩

def obeyed : FileInput := ⟨true, [], [], 0, 0o644, none⟩

/-- The copy is folded back, while another shell decrypts and is interrupted. -/
def foldedRun [UnicodeNames] [Stdout] [Sops] : List (Action recipeSystem) :=
  [.start (.encrypt [devName]), .start (.decrypt []), .call 1 obeyed, .call 1 obeyed,
    .call 0 obeyed, .call 1 obeyed, .call 0 obeyed, .call 0 obeyed]

theorem environments_kept_folded :
    letI : UnicodeNames := ⟨fun _ => none⟩
    letI : Stdout := ⟨.strict⟩
    letI := markingSops
    ((Config.initial devCheckout).run foldedRun).state.enc.lookup devName =
        some (0x45 :: bytes "A=2\n") ∧
      ∃ x, ((Config.initial devCheckout).run foldedRun).state.enc.lookup devName = some x ∧
        (Sops.text x = Sops.text (0x45 :: bytes "A=1\n") ∨
          (∃ x', .env (.pull devName x') ∈ foldedRun ∧ Sops.text x = Sops.text x') ∨
          (∃ e ∈ (Config.initial devCheckout).trace foldedRun, ∃ plain t,
            SavedAs devName plain e.2 ∧ Sops.normal plain = some t ∧ Sops.text x = some t) ∨
          ∃ e ∈ (Config.initial devCheckout).trace foldedRun, ∃ x', Torn devName x' e.2 ∧
            Sops.text x = Sops.text x') := by
  let _ : UnicodeNames := ⟨fun _ => none⟩
  let _ : Stdout := ⟨.strict⟩
  let _ := markingSops
  exact ⟨rfl, environments_kept markingSops_contract devCheckout foldedRun rfl⟩

end ApmeApi.Secrets
