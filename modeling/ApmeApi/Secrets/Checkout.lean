import ApmeApi.Lib.Pool
import ApmeApi.Secrets.Recipes
import Mathlib.Data.List.AList

/-!
# The recipes that manage environments

An environment is a ciphertext under `env/enc`. The recipes of `env.just` decrypt it into a working
copy under `env/dec`, encrypt a working copy back, edit and create ciphertexts, renew their
recipients and wipe the copies. They may run at the same time in several shells, any of them may be
interrupted after any command, and any command may fail.
-/

namespace ApmeApi.Secrets

open Interaction Dotenv UnicodeEscape

/-! ### The files -/

/-- The name of an environment. It is part of the names of its files. -/
structure EnvName where
  text : String
  noSlash : '/' ∉ text.toList
  deriving DecidableEq

/-- Whether a `*` matches the file: names with a leading dot are left out. -/
def EnvName.visible (n : EnvName) : Bool :=
  match n.text.toList with
  | [] => false
  | c :: _ => c != '.'

structure File where
  content : List UInt8
  mode : ℕ
  deriving DecidableEq

/-- A file that `mktemp` created for an environment, by the characters that it chose. -/
abbrev Temp := EnvName × ℕ

/-- `env/enc/*.env.enc`, `env/dec/*.env` and `env/dec/.*.XXXXXX`. -/
structure Checkout where
  enc : AList fun _ : EnvName => List UInt8
  copies : AList fun _ : EnvName => File
  temps : Temp → Option File

def Checkout.setTemp (s : Checkout) (τ : Temp) (file : Option File) : Checkout :=
  { s with temps := Function.update s.temps τ file }

theorem setTemp_temps (s : Checkout) (τ : Temp) (f : Option File) :
    (s.setTemp τ f).temps τ = f := Function.update_self ..

theorem setTemp_temps_of_ne (s : Checkout) {τ τ' : Temp} (h : τ' ≠ τ) (f : Option File) :
    (s.setTemp τ f).temps τ' = s.temps τ' := Function.update_of_ne h ..

theorem setTemp_setTemp (s : Checkout) (τ : Temp) (f g : Option File) :
    (s.setTemp τ f).setTemp τ g = s.setTemp τ g := by
  rw [Checkout.setTemp, Checkout.setTemp, Function.update_idem]
  rfl

theorem setTemp_self (s : Checkout) (τ : Temp) : s.setTemp τ (s.temps τ) = s := by
  rw [Checkout.setTemp, Function.update_eq_self]

/-- Writing to a file keeps its mode; a new file gets the mode of the shell. -/
def Checkout.writeTemp (s : Checkout) (τ : Temp) (content : List UInt8) (mode : ℕ) : Checkout :=
  s.setTemp τ (some ⟨content, ((s.temps τ).map File.mode).getD mode⟩)

/-- What others do: a user saves or removes a working copy, and a ciphertext comes with the
repository. -/
inductive CheckoutAction where
  | save (n : EnvName) (file : Option File)
  | pull (n : EnvName) (ciphertext : List UInt8)

def checkoutEnv : CheckoutAction → Checkout → Checkout
  | .save n (some f), s => { s with copies := s.copies.insert n f }
  | .save n none, s => { s with copies := s.copies.erase n }
  | .pull n c, s => { s with enc := s.enc.insert n c }

/-- What others do to a working copy: nothing, or they remove it, or they save it. -/
theorem checkoutEnv_copies (e : CheckoutAction) (s : Checkout) (n : EnvName) :
    (checkoutEnv e s).copies.lookup n = s.copies.lookup n ∨
      (checkoutEnv e s).copies.lookup n = none ∨
      ∃ f, e = .save n (some f) ∧ (checkoutEnv e s).copies.lookup n = some f := by
  cases e with
  | pull m c => exact .inl rfl
  | save m file =>
    rcases eq_or_ne n m with rfl | hne
    · cases file with
      | none => exact .inr (.inl (AList.lookup_erase _ _))
      | some f => exact .inr (.inr ⟨f, rfl, AList.lookup_insert _⟩)
    · cases file with
      | none => exact .inl (AList.lookup_erase_ne hne)
      | some f => exact .inl (AList.lookup_insert_ne hne)

/-- What others do to a ciphertext: nothing, or it comes with the repository. -/
theorem checkoutEnv_enc (e : CheckoutAction) (s : Checkout) (n : EnvName) :
    (checkoutEnv e s).enc.lookup n = s.enc.lookup n ∨
      ∃ x, e = .pull n x ∧ (checkoutEnv e s).enc.lookup n = some x := by
  cases e with
  | save m file => cases file <;> exact .inl rfl
  | pull m x =>
    rcases eq_or_ne n m with rfl | hne
    · exact .inr ⟨x, rfl, AList.lookup_insert _⟩
    · exact .inl (AList.lookup_insert_ne hne)

/-- The program `sops`: the text that a ciphertext holds, how a text is written back after it was
loaded, and how a text is encrypted and a ciphertext is given other recipients. -/
class Sops where
  text : List UInt8 → Option (List Char)
  normal : List UInt8 → Option (List Char)
  encrypt : ℕ → List UInt8 → Option (List UInt8)
  rekey : ℕ → List UInt8 → Option (List UInt8)

/-- A ciphertext holds what was encrypted, and new recipients leave its text alone. -/
structure SopsContract [Sops] : Prop where
  encrypt_text : ∀ r p c, Sops.encrypt r p = some c →
    ∃ t, Sops.normal p = some t ∧ Sops.text c = some t
  rekey_text : ∀ r c c', Sops.rekey r c = some c' → Sops.text c' = Sops.text c

/-! ### The commands -/

/-- How `sops edit` ended: 0, 200, or another status. -/
inductive Edited where
  | changed
  | unchanged
  | failed
  deriving DecidableEq

/-- What becomes of a decrypted text: nothing, or an environment file. -/
inductive Rendering where
  | plain
  | envfile

/-- The commands of the recipes. -/
inductive FileCall where
  | listEnc
  | listCopies
  | testEnc (n : EnvName)
  | testCopy (n : EnvName)
  | mktemp (n : EnvName)
  | chmod (τ : Temp)
  | decryptTo (r : Rendering) (τ : Temp)
  | install (τ : Temp)
  | fold (n : EnvName)
  | edit (n : EnvName)
  | encryptCopy (n : EnvName)
  | encryptHeader (n : EnvName)
  | updateKeys (n : EnvName)
  | zero (n : EnvName)
  | remove (n : EnvName)

/-- The reply of each command. -/
abbrev FileCall.Reply : FileCall → Type
  | .listEnc | .listCopies => List EnvName
  | .mktemp _ => Option ℕ
  | .fold _ | .edit _ => Edited
  | .zero _ => Unit
  | _ => Bool

abbrev recipeSig : Signature := ⟨FileCall, FileCall.Reply⟩

/-- What a command is left to: whether it can do its work, what a failure leaves or an editor saves,
the order of a list of files, the choice of `mktemp` or of `sops`, the mode of new files, and what
is left of a ciphertext if a failure comes while `sops` writes it. -/
structure FileInput where
  ok : Bool
  output : List UInt8
  names : List EnvName
  pick : ℕ
  mode : ℕ
  torn : Option (List UInt8)

/-- `*`: the visible names, in the order of the locale. -/
def glob (order keys : List EnvName) : List EnvName :=
  let names := keys.filter EnvName.visible
  if order.Perm names then order else names

/-- The first lines of an environment that `env-new` creates. -/
def newHeader (n : EnvName) : List UInt8 :=
  bytes s!"# {n.text} environment for this repo. Values are encrypted; names are not.\n"

section

variable [Sops]

/-- `sops decrypt`. -/
def sopsDecrypt (i : FileInput) (s : Checkout) (n : EnvName) : Decrypted :=
  match (s.enc.lookup n).bind Sops.text with
  | some t => ⟨t, i.ok⟩
  | none => ⟨[], false⟩

/-- Encryption of a text into the ciphertext of an environment. -/
def encryptInto (i : FileInput) (s : Checkout) (n : EnvName) (plain : List UInt8) :
    Option Checkout :=
  if i.ok then (Sops.encrypt i.pick plain).map fun c => { s with enc := s.enc.insert n c } else none

omit [Sops] in
/-- A rewrite that fails. `sops` writes in place, so that anything may be left of the ciphertext. -/
def tear (i : FileInput) (s : Checkout) (n : EnvName) : Checkout :=
  match i.torn with
  | some x => { s with enc := s.enc.insert n x }
  | none => s

/-- `sops edit`, with what the editor saved. An environment that does not exist is created; what is
no ciphertext cannot be edited. -/
def sopsEdit (i : FileInput) (s : Checkout) (n : EnvName) (saved : Option (List UInt8)) :
    Edited × Checkout :=
  let reseal := fun plain => ((encryptInto i s n plain).map (Edited.changed, ·)).getD
    (.failed, tear i s n)
  match saved, s.enc.lookup n with
  | none, _ => (.failed, s)
  | some plain, none => reseal plain
  | some plain, some c =>
    match Sops.text c with
    | none => (.failed, s)
    | some t => if i.ok && plain = Text.utf8 t then (.unchanged, s) else reseal plain

/-- `sops encrypt … > file`. The shell opens the file before the command runs. -/
def sopsEncrypt (i : FileInput) (s : Checkout) (n : EnvName) (plain : Option (List UInt8)) :
    Bool × Checkout :=
  ((plain.bind (encryptInto i s n)).map (true, ·)).getD
    (false, { s with enc := s.enc.insert n i.output })

theorem encryptInto_eq_some {i : FileInput} {s s' : Checkout} {n : EnvName} {plain : List UInt8}
    (h : encryptInto i s n plain = some s') :
    ∃ c, Sops.encrypt i.pick plain = some c ∧ s' = { s with enc := s.enc.insert n c } := by
  rw [encryptInto] at h
  split at h
  · obtain ⟨c, hc, rfl⟩ := Option.map_eq_some_iff.mp h
    exact ⟨c, hc, rfl⟩
  · cases h

omit [Sops] in
/-- What a rewrite that fails leaves: everything as it was, or another ciphertext. -/
theorem tear_cases (i : FileInput) (s : Checkout) (n : EnvName) :
    tear i s n = s ∨ ∃ x, i.torn = some x ∧ tear i s n = { s with enc := s.enc.insert n x } := by
  rw [tear]
  cases i.torn with
  | none => exact .inl rfl
  | some x => exact .inr ⟨x, rfl, rfl⟩

/-- **Inversion of `sops edit`**: the ciphertext is made of what was saved, or nothing changes, or
it fails while it writes. -/
theorem sopsEdit_cases (i : FileInput) (s : Checkout) (n : EnvName) (saved : Option (List UInt8)) :
    (∃ plain c, saved = some plain ∧ Sops.encrypt i.pick plain = some c ∧
      sopsEdit i s n saved = (.changed, { s with enc := s.enc.insert n c })) ∨
    (sopsEdit i s n saved = (.failed, s)) ∨
    (∃ t, saved = some (Text.utf8 t) ∧ (s.enc.lookup n).bind Sops.text = some t ∧
      sopsEdit i s n saved = (.unchanged, s)) ∨
    sopsEdit i s n saved = (.failed, tear i s n) := by
  have hreseal : ∀ plain, (∃ c, Sops.encrypt i.pick plain = some c ∧
        ((encryptInto i s n plain).map (Edited.changed, ·)).getD (.failed, tear i s n) =
          (.changed, { s with enc := s.enc.insert n c })) ∨
      ((encryptInto i s n plain).map (Edited.changed, ·)).getD (.failed, tear i s n) =
        (.failed, tear i s n) := by
    intro plain
    cases he : encryptInto i s n plain with
    | none => exact .inr rfl
    | some s' =>
      obtain ⟨c, hc, rfl⟩ := encryptInto_eq_some he
      exact .inl ⟨c, hc, rfl⟩
  cases saved with
  | none => exact .inr (.inl rfl)
  | some plain =>
    cases hold : s.enc.lookup n with
    | none =>
      have hedit : sopsEdit i s n (some plain) =
          ((encryptInto i s n plain).map (Edited.changed, ·)).getD (.failed, tear i s n) := by
        simp only [sopsEdit, hold]
      rw [hedit]
      rcases hreseal plain with ⟨c, hc, h⟩ | h
      · exact .inl ⟨plain, c, rfl, hc, h⟩
      · exact .inr (.inr (.inr h))
    | some old =>
      cases htext : Sops.text old with
      | none =>
        refine .inr (.inl ?_)
        simp only [sopsEdit, hold, htext]
      | some t =>
        have hedit : sopsEdit i s n (some plain) =
            if i.ok && plain = Text.utf8 t then (.unchanged, s)
            else ((encryptInto i s n plain).map (Edited.changed, ·)).getD
              (.failed, tear i s n) := by
          simp only [sopsEdit, hold, htext]
        rw [hedit]
        split
        · rename_i hsame
          rw [Bool.and_eq_true, decide_eq_true_eq] at hsame
          refine .inr (.inr (.inl ⟨t, by rw [hsame.2], ?_, rfl⟩))
          rw [Option.bind_some, htext]
        · rcases hreseal plain with ⟨c, hc, h⟩ | h
          · exact .inl ⟨plain, c, rfl, hc, h⟩
          · exact .inr (.inr (.inr h))

/-- `sops edit` writes one ciphertext at most. -/
theorem sopsEdit_writes (i : FileInput) (s : Checkout) (n : EnvName)
    (saved : Option (List UInt8)) :
    (sopsEdit i s n saved).2 = s ∨
      ∃ x, (sopsEdit i s n saved).2 = { s with enc := s.enc.insert n x } := by
  rcases sopsEdit_cases i s n saved with ⟨plain, c, -, -, h⟩ | h | ⟨t, -, -, h⟩ | h <;> rw [h]
  · exact .inr ⟨c, rfl⟩
  · exact .inl rfl
  · exact .inl rfl
  · exact (tear_cases i s n).imp id fun ⟨x, _, hx⟩ => ⟨x, hx⟩

/-- `sops edit` leaves every other file alone. -/
theorem sopsEdit_keeps (i : FileInput) (s : Checkout) (n : EnvName) (saved : Option (List UInt8)) :
    (sopsEdit i s n saved).2.copies = s.copies ∧ (sopsEdit i s n saved).2.temps = s.temps := by
  rcases sopsEdit_writes i s n saved with h | ⟨x, h⟩ <;> rw [h] <;> exact ⟨rfl, rfl⟩

/-- The ciphertexts of other environments, too. -/
theorem sopsEdit_enc_of_ne (i : FileInput) (s : Checkout) {n m : EnvName}
    (saved : Option (List UInt8)) (hne : m ≠ n) :
    (sopsEdit i s n saved).2.enc.lookup m = s.enc.lookup m := by
  rcases sopsEdit_writes i s n saved with h | ⟨x, h⟩ <;> rw [h]
  exact AList.lookup_insert_ne hne

/-- `sops encrypt` writes one ciphertext. -/
theorem sopsEncrypt_writes (i : FileInput) (s : Checkout) (n : EnvName)
    (plain : Option (List UInt8)) :
    ∃ c, (sopsEncrypt i s n plain).2 = { s with enc := s.enc.insert n c } := by
  rw [sopsEncrypt]
  cases he : plain.bind (encryptInto i s n) with
  | none => exact ⟨i.output, rfl⟩
  | some s' =>
    obtain ⟨p, -, hp⟩ := Option.bind_eq_some_iff.mp he
    obtain ⟨c, -, rfl⟩ := encryptInto_eq_some hp
    exact ⟨c, rfl⟩

variable [UnicodeNames] [Stdout]

/-- The pipeline that ends in a file. -/
def render : Rendering → Decrypted → Piped
  | .plain, d => ⟨Text.utf8 d.text, d.ok⟩
  | .envfile, d => pipeline ["envfile".toList] d

/-- The effect of a command. -/
def fileExec (i : FileInput) : (c : FileCall) → Checkout → c.Reply × Checkout
  | .listEnc, s => (glob i.names s.enc.keys, s)
  | .listCopies, s => (glob i.names s.copies.keys, s)
  | .testEnc n, s => ((s.enc.lookup n).isSome, s)
  | .testCopy n, s => ((s.copies.lookup n).isSome, s)
  | .mktemp n, s =>
    -- the file did not exist, and is created with mode 0600
    if i.ok && (s.temps (n, i.pick)).isNone then (some i.pick, s.writeTemp (n, i.pick) [] 0o600)
    else (none, s)
  | .chmod τ, s =>
    match s.temps τ, i.ok with
    | some f, true => (true, s.setTemp τ (some { f with mode := 0o600 }))
    | _, _ => (false, s)
  | .decryptTo r τ, s =>
    let p := render r (sopsDecrypt i s τ.1)
    (p.ok, s.writeTemp τ (if p.ok then p.stdout else i.output) i.mode)
  | .install τ, s =>
    match s.temps τ, i.ok with
    | some f, true => (true, { s.setTemp τ none with copies := s.copies.insert τ.1 f })
    | _, _ => (false, s)
  | .fold n, s => sopsEdit i s n ((s.copies.lookup n).map File.content)
  | .edit n, s => sopsEdit i s n (some i.output)
  | .encryptCopy n, s => sopsEncrypt i s n ((s.copies.lookup n).map File.content)
  | .encryptHeader n, s => sopsEncrypt i s n (some (newHeader n))
  | .updateKeys n, s =>
    match (s.enc.lookup n).bind (Sops.rekey i.pick), i.ok with
    | some c, true => (true, { s with enc := s.enc.insert n c })
    | some _, false => (false, tear i s n)
    | none, _ => (false, s)
  | .zero n, s =>
    -- the length is that of another moment when somebody else writes the file
    let mode := ((s.copies.lookup n).map File.mode).getD i.mode
    ((), { s with copies := s.copies.insert n ⟨List.replicate i.pick 0, mode⟩ })
  | .remove n, s => if i.ok then (true, { s with copies := s.copies.erase n }) else (false, s)

/-! ### The recipes -/

/-- A recipe under `set -e`: it ends at the first command that fails. -/
abbrev RecipeM := ExceptT Unit (Prog recipeSig)

def command (c : FileCall) : RecipeM c.Reply := liftM (Prog.perform (S := recipeSig) c)

def orExit (ok : Bool) : RecipeM Unit := if ok then pure () else throw ()

/-- The files named, or all of them. -/
def selected (names : List EnvName) (all : RecipeM (List EnvName)) : RecipeM (List EnvName) :=
  if names.isEmpty then all else pure names

/-- The body of `env-decrypt` and of `env-docker-env-file`. -/
def materialise (r : Rendering) (n : EnvName) : RecipeM Unit := do
  orExit (← command (.testEnc n))
  match ← command (.mktemp n) with
  | none => throw ()
  | some k =>
    orExit (← command (.chmod (n, k)))
    orExit (← command (.decryptTo r (n, k)))
    orExit (← command (.install (n, k)))

/-- The body of `env-encrypt`. -/
def foldBack (n : EnvName) : RecipeM Unit := do
  orExit (← command (.testCopy n))
  if ← command (.testEnc n) then
    orExit ((← command (.fold n)) ≠ .failed)
  else
    orExit (← command (.encryptCopy n))

/-- `env-decrypt`. -/
def envDecrypt (names : List EnvName) : RecipeM Unit := do
  (← selected names (command .listEnc)).forM (materialise .plain)

/-- `env-encrypt`. -/
def envEncrypt (names : List EnvName) : RecipeM Unit := do
  (← selected names (command .listCopies)).forM foldBack

/-- `env-edit`. -/
def envEdit (n : EnvName) : RecipeM Unit := do
  orExit ((← command (.edit n)) = .changed)

/-- `env-new`. -/
def envNew (n : EnvName) : RecipeM Unit := do
  orExit (!(← command (.testEnc n)))
  orExit (← command (.encryptHeader n))

/-- `env-rekey`. -/
def envRekey : RecipeM Unit := do
  (← command .listEnc).forM fun n => do orExit (← command (.updateKeys n))

/-- `env-docker-env-file`. -/
def envDockerEnvFile (n : EnvName) : RecipeM Unit := materialise .envfile n

/-- `env-clean`. -/
def envClean : RecipeM Unit := do
  (← command .listCopies).forM fun n => do
    command (.zero n)
    orExit (← command (.remove n))

/-- The recipes that change files. -/
inductive FileRecipe where
  | decrypt (names : List EnvName)
  | encrypt (names : List EnvName)
  | edit (n : EnvName)
  | new (n : EnvName)
  | rekey
  | dockerEnvFile (n : EnvName)
  | clean

def FileRecipe.run : FileRecipe → RecipeM Unit
  | .decrypt names => envDecrypt names
  | .encrypt names => envEncrypt names
  | .edit n => envEdit n
  | .new n => envNew n
  | .rekey => envRekey
  | .dockerEnvFile n => envDockerEnvFile n
  | .clean => envClean

abbrev recipeMachine : Machine recipeSig := ⟨Checkout, FileInput, fileExec⟩

/-- Recipes in any number of shells, on one checkout. -/
abbrev recipeSystem : System :=
  ⟨recipeSig, recipeMachine, FileRecipe, Except Unit Unit, fun q => q.run.run, CheckoutAction,
    checkoutEnv⟩

/-! ### What a command changes -/

/-- The temporary file that a command is given. -/
def FileCall.temp : FileCall → Option Temp
  | .chmod τ | .decryptTo _ τ | .install τ => some τ
  | _ => none

/-- The renewal of recipients writes one ciphertext at most. -/
theorem updateKeys_writes (i : FileInput) (s : Checkout) (n : EnvName) :
    (fileExec i (.updateKeys n) s).2 = s ∨
      ∃ x, (fileExec i (.updateKeys n) s).2 = { s with enc := s.enc.insert n x } := by
  simp only [fileExec]
  split
  · exact .inr ⟨_, rfl⟩
  · exact (tear_cases i s n).imp id fun ⟨x, _, hx⟩ => ⟨x, hx⟩
  · exact .inl rfl

/-- **A temporary file is left alone** by the commands that are not given it, unless one of them
creates it. -/
theorem fileExec_temps (i : FileInput) {c : FileCall} {τ : Temp} (hτ : c.temp ≠ some τ)
    (s : Checkout) :
    (fileExec i c s).2.temps τ = s.temps τ ∨
      s.temps τ = none ∧ (fileExec i c s).2.temps τ = some ⟨[], 0o600⟩ := by
  have hother : ∀ {τ' : Temp}, c.temp = some τ' → τ ≠ τ' := by
    rintro τ' hc rfl
    exact hτ hc
  cases c with
  | mktemp n =>
    simp only [fileExec]
    split
    · rename_i hnew
      rw [Bool.and_eq_true, Option.isNone_iff_eq_none] at hnew
      rcases eq_or_ne τ (n, i.pick) with rfl | hne
      · exact .inr ⟨hnew.2, by rw [Checkout.writeTemp, setTemp_temps, hnew.2]; rfl⟩
      · exact .inl (setTemp_temps_of_ne _ hne _)
    · exact .inl rfl
  | chmod τ' =>
    simp only [fileExec]
    split
    · exact .inl (setTemp_temps_of_ne _ (hother rfl) _)
    · exact .inl rfl
  | decryptTo r τ' => exact .inl (setTemp_temps_of_ne _ (hother rfl) _)
  | install τ' =>
    simp only [fileExec]
    split
    · exact .inl (setTemp_temps_of_ne s (hother rfl) none)
    · exact .inl rfl
  | fold n => exact .inl (congrFun (sopsEdit_keeps i s n _).2 τ)
  | edit n => exact .inl (congrFun (sopsEdit_keeps i s n _).2 τ)
  | encryptCopy n =>
    obtain ⟨x, hx⟩ := sopsEncrypt_writes i s n ((s.copies.lookup n).map File.content)
    exact .inl (congrArg (fun s => s.temps τ) hx)
  | encryptHeader n =>
    obtain ⟨x, hx⟩ := sopsEncrypt_writes i s n (some (newHeader n))
    exact .inl (congrArg (fun s => s.temps τ) hx)
  | updateKeys n =>
    obtain h | ⟨x, h⟩ := updateKeys_writes i s n <;> rw [h] <;> exact .inl rfl
  | remove n =>
    simp only [fileExec]
    split <;> exact .inl rfl
  | listEnc => exact .inl rfl
  | listCopies => exact .inl rfl
  | testEnc n => exact .inl rfl
  | testCopy n => exact .inl rfl
  | zero n => exact .inl rfl

/-- A temporary file that exists is not created again. -/
theorem fileExec_temps_some (i : FileInput) {c : FileCall} {s : Checkout} {τ : Temp} {f : File}
    (hτ : c.temp ≠ some τ) (hf : s.temps τ = some f) : (fileExec i c s).2.temps τ = some f := by
  rcases fileExec_temps i hτ s with h | ⟨h, -⟩
  · rw [h, hf]
  · cases h.symm.trans hf

/-- A working copy that `env-clean` wipes: as many zeros as it counted, in a file of the mode that
the copy had, or a new one if somebody else has just removed it. -/
def Wiped (n : EnvName) (f : File) (o : Obs recipeMachine) : Prop :=
  o.call = .zero n ∧ f = ⟨List.replicate o.input.pick 0,
    ((o.pre.copies.lookup n).map File.mode).getD o.input.mode⟩

/-- What a command does to a working copy: nothing, or it removes or wipes it, or it puts in place a
temporary file of its environment. -/
theorem fileExec_copies (i : FileInput) (c : FileCall) (s : Checkout) (n : EnvName) :
    (fileExec i c s).2.copies.lookup n = s.copies.lookup n ∨
      (fileExec i c s).2.copies.lookup n = none ∨
      (∃ f, Wiped n f ⟨i, s, c⟩ ∧ (fileExec i c s).2.copies.lookup n = some f) ∨
      ∃ k, c = .install (n, k) ∧ (fileExec i c s).2.copies.lookup n = s.temps (n, k) := by
  cases c with
  | install τ =>
    simp only [fileExec]
    split
    · rename_i f hf hi
      obtain ⟨m, k⟩ := τ
      rcases eq_or_ne n m with rfl | hne
      · exact .inr (.inr (.inr ⟨k, rfl, by rw [hf]; exact AList.lookup_insert _⟩))
      · exact .inl (AList.lookup_insert_ne hne)
    · exact .inl rfl
  | zero m =>
    rcases eq_or_ne n m with rfl | hne
    · exact .inr (.inr (.inl ⟨_, ⟨rfl, rfl⟩, AList.lookup_insert _⟩))
    · exact .inl (AList.lookup_insert_ne hne)
  | remove m =>
    simp only [fileExec]
    split
    · rcases eq_or_ne n m with rfl | hne
      · exact .inr (.inl (AList.lookup_erase _ _))
      · exact .inl (AList.lookup_erase_ne hne)
    · exact .inl rfl
  | mktemp m =>
    simp only [fileExec]
    split <;> exact .inl rfl
  | chmod τ =>
    simp only [fileExec]
    split <;> exact .inl rfl
  | updateKeys m =>
    obtain h | ⟨x, h⟩ := updateKeys_writes i s m <;> rw [h] <;> exact .inl rfl
  | fold m => exact .inl (congrArg (AList.lookup n) (sopsEdit_keeps i s m _).1)
  | edit m => exact .inl (congrArg (AList.lookup n) (sopsEdit_keeps i s m _).1)
  | encryptCopy m =>
    obtain ⟨x, hx⟩ := sopsEncrypt_writes i s m ((s.copies.lookup m).map File.content)
    exact .inl (congrArg (fun s => s.copies.lookup n) hx)
  | encryptHeader m =>
    obtain ⟨x, hx⟩ := sopsEncrypt_writes i s m (some (newHeader m))
    exact .inl (congrArg (fun s => s.copies.lookup n) hx)
  | listEnc => exact .inl rfl
  | listCopies => exact .inl rfl
  | testEnc m => exact .inl rfl
  | testCopy m => exact .inl rfl
  | decryptTo r τ => exact .inl rfl

/-- A test that fails found no ciphertext. -/
theorem testEnc_false {i : FileInput} {s : Checkout} {n : EnvName}
    (h : (fileExec i (.testEnc n) s).1 = false) : s.enc.lookup n = none := by
  change (s.enc.lookup n).isSome = false at h
  rwa [Option.isSome_eq_false_iff, Option.isNone_iff_eq_none] at h

end

end ApmeApi.Secrets
