import ApmeApi.Lib.Shell
import ApmeApi.Lib.Text

/-!
# The container entrypoint

`entrypoint` is the script that the container starts with. It decrypts the secrets file of the
image into its own variables, one line `KEY=VALUE` at a time, and becomes the command that it was
given, with the variables that it exports.

`loop` is the read/export loop. Its two shell variables `key` and `value` live among all the others,
and a name is exported only when no variable of the shell has it.
-/

namespace ApmeApi.Secrets

open Shell

/-- The bytes of an ASCII text of the script. -/
def bytes (s : String) : List UInt8 := Text.utf8 s.toList

def keyVar : Name := ⟨bytes "key", by decide⟩
def valueVar : Name := ⟨bytes "value", by decide⟩
def secretsVar : Name := ⟨bytes "secrets", by decide⟩

/-! ### The loop -/

/-- The state of the script: its variables, the texts that it evaluated as code, and its messages
on standard error. -/
structure ScriptState where
  vars : Vars
  evaluated : List (List UInt8) := []
  stderr : List (List UInt8) := []

/-- The code that is evaluated to find out whether a variable is set. -/
def testScript (x : Name) : List UInt8 :=
  bytes "printf '%s' \"$\x7b" ++ x.bytes ++ bytes "+x\x7d\""

/-- One iteration: `IFS='=' read -r key value`, then the body of the loop. -/
def iteration (s : ScriptState) (line : List UInt8) : ScriptState :=
  let (key, value) := readTwo 61 line
  let s := { s with vars := (s.vars.assign keyVar key).assign valueVar value }
  if key = [] ∨ key.head? = some 35 ∨ bytes "sops_" <+: key then s
  else if h : isName key then
    let x : Name := ⟨key, h⟩
    let s := { s with evaluated := s.evaluated ++ [testScript x] }
    if s.vars x = none then { s with vars := s.vars.exportVar x value } else s
  else { s with stderr := s.stderr ++ [bytes "sops-entrypoint: skipping invalid variable name"] }

/-- The lines of a here-document with the text as its body. -/
def docLines (secrets : List UInt8) : List (List UInt8) := secrets.splitOn 10

/-- The loop over a here-document with the text as its body. At its end `read` finds no line and
leaves both variables empty. -/
def loop (s : ScriptState) (secrets : List UInt8) : ScriptState :=
  let s := (docLines secrets).foldl iteration s
  { s with vars := (s.vars.assign keyVar []).assign valueVar [] }

/-! ### The script -/

/-- What the container has: files, and the `sops` binary with what it decrypts. -/
structure Container where
  isFile : List UInt8 → Bool
  sops : Option (List UInt8 → Option (List UInt8))

/-- How the script ends: as the command, with its environment, or without. -/
inductive Outcome where
  | exec (env : Name → Option (List UInt8)) (stderr : List (List UInt8))
  | exit (status : ℕ) (stderr : List (List UInt8))

def secretsFileVar : Name := ⟨bytes "SOPS_SECRETS_FILE", by decide⟩
def ageKeyVar : Name := ⟨bytes "SOPS_AGE_KEY", by decide⟩
def ageKeyFileVar : Name := ⟨bytes "SOPS_AGE_KEY_FILE", by decide⟩
def requireKeyVar : Name := ⟨bytes "SOPS_REQUIRE_KEY", by decide⟩

/-- `${x:-default}`. -/
def valueOr (σ : Vars) (x : Name) (default : List UInt8) : List UInt8 :=
  match σ x with
  | some ⟨v, _⟩ => if v = [] then default else v
  | none => default

/-- The decrypted text into the environment. -/
def load (σ : Vars) (plain : List UInt8) : ScriptState :=
  let secrets := commandSubst plain
  let s := loop { vars := σ.assign secretsVar secrets } secrets
  { s with vars := s.vars.unset secretsVar }

def entrypoint (c : Container) (σ : Vars) : Outcome :=
  let file := valueOr σ secretsFileVar (bytes "/app/secrets/app.env")
  let σ := if (σ secretsFileVar).all fun x => x.value = [] then σ.assign secretsFileVar file else σ
  if !c.isFile file then .exec σ.env []
  else if valueOr σ ageKeyVar [] = [] ∧ valueOr σ ageKeyFileVar [] = [] then
    if valueOr σ requireKeyVar (bytes "0") = bytes "1" then
      .exit 1
        [bytes "sops-entrypoint: no SOPS_AGE_KEY or SOPS_AGE_KEY_FILE set (SOPS_REQUIRE_KEY=1).",
          bytes "  docker run -e SOPS_AGE_KEY=\"$(cat ~/.config/sops/age/keys.txt)\" ..."]
    else
      .exec σ.env
        [bytes "sops-entrypoint: no age key supplied; starting without decrypting " ++ file]
  else
    match c.sops with
    | none => .exit 1 [bytes "sops-entrypoint: sops binary not in image"]
    | some decrypt =>
      match decrypt file with
      | none => .exit 1 [bytes "sops-entrypoint: failed to decrypt " ++ file]
      | some plain =>
        let s := load σ plain
        .exec s.vars.env s.stderr

/-! ### Lines -/

/-- The text of a line before its first `=`. -/
def lineName (line : List UInt8) : List UInt8 := line.takeWhile (· ≠ 61)

/-- What the loop takes for the value of a line. -/
def lineValue (line : List UInt8) : List UInt8 := (readTwo 61 line).2

/-- Whether a name is one of the rows that `sops` adds. -/
def IsSopsRow (x : Name) : Prop := bytes "sops_" <+: x.bytes

instance (x : Name) : Decidable (IsSopsRow x) := inferInstanceAs (Decidable (_ <+: _))

theorem lineName_append_cons {k v : List UInt8} (hk : 61 ∉ k) :
    lineName (k ++ 61 :: v) = k := by
  rw [lineName, List.takeWhile_append_of_pos fun b hb => by
    simpa using fun h : b = 61 => hk (h ▸ hb)]
  simp

theorem readTwo_eq (line : List UInt8) : readTwo 61 line = (lineName line, lineValue line) := by
  refine Prod.ext ?_ rfl
  by_cases h : 61 ∈ line
  · obtain ⟨k, v, rfl, hk⟩ := List.eq_append_cons_of_mem h
    rw [readTwo_append_cons hk, lineName_append_cons hk]
  · rw [readTwo_of_not_mem h, lineName, List.takeWhile_eq_self_iff.mpr fun b hb => by
      simpa using fun hb' : b = 61 => h (hb' ▸ hb)]

/-- No name has a delimiter in it. -/
theorem not_mem_name (x : Name) : 61 ∉ x.bytes := x.not_mem (by decide)

/-- A name is neither empty nor a comment. -/
theorem name_head (x : Name) : x.bytes ≠ [] ∧ x.bytes.head? ≠ some 35 :=
  ⟨x.bytes_ne_nil, fun h => x.not_mem (by decide) (List.mem_of_mem_head? h)⟩

/-! ### One iteration -/

section Iteration

variable {s : ScriptState} {line : List UInt8} {x : Name}

/-- **What an iteration does.** It reads into `key` and `value`; a line that names no variable is
left at that, for any other line the name is tested, and exported if no variable has it. -/
theorem iteration_cases (s : ScriptState) (line : List UInt8) :
    (((iteration s line).vars =
          (s.vars.assign keyVar (lineName line)).assign valueVar (lineValue line) ∧
        (iteration s line).evaluated = s.evaluated) ∧
      ∀ x : Name, x.bytes = lineName line → IsSopsRow x) ∨
    ∃ x : Name, x.bytes = lineName line ∧ ¬ IsSopsRow x ∧
      (iteration s line).evaluated = s.evaluated ++ [testScript x] ∧
      let σ := (s.vars.assign keyVar (lineName line)).assign valueVar (lineValue line)
      (iteration s line).vars = if σ x = none then σ.exportVar x (lineValue line) else σ := by
  rw [iteration, readTwo_eq]
  dsimp only
  split
  · rename_i hskip
    refine .inl ⟨⟨rfl, rfl⟩, fun x hx => ?_⟩
    obtain ⟨hne, hcomment⟩ := name_head x
    rw [← hx] at hskip
    rcases hskip with h | h | h
    · exact absurd h hne
    · exact absurd h hcomment
    · exact h
  · rename_i hkeep
    simp only [not_or] at hkeep
    split
    · rename_i hname
      refine .inr ⟨⟨lineName line, hname⟩, rfl, hkeep.2.2, ?_, ?_⟩
      · split <;> rfl
      · split <;> rfl
    · rename_i hname
      exact .inl ⟨⟨rfl, rfl⟩, fun x hx => absurd (hx ▸ x.valid) hname⟩

/-- **A variable of the container** after an iteration: it is exported by the line that names it
when it was not set. -/
theorem iteration_vars (hkey : x ≠ keyVar) (hvalue : x ≠ valueVar) :
    (iteration s line).vars x =
      if s.vars x = none ∧ lineName line = x.bytes ∧ ¬ IsSopsRow x then
        some ⟨lineValue line, true⟩
      else s.vars x := by
  have hread : ((s.vars.assign keyVar (lineName line)).assign valueVar (lineValue line)) x =
      s.vars x := by
    rw [Vars.assign_of_ne hvalue, Vars.assign_of_ne hkey]
  rcases iteration_cases s line with ⟨⟨hvars, -⟩, hsops⟩ | ⟨y, hy, hsops, -, hvars⟩
  · rw [hvars, hread, if_neg]
    rintro ⟨-, hx, hrow⟩
    exact hrow (hsops x hx.symm)
  · dsimp only at hvars
    by_cases hxy : x = y
    · obtain rfl := hxy
      rw [hvars, hread]
      by_cases hset : s.vars x = none
      · rw [if_pos hset, if_pos ⟨hset, hy.symm, hsops⟩, Vars.exportVar_self]
      · rw [if_neg hset, if_neg fun h => hset h.1, hread]
    · have hother : ¬ lineName line = x.bytes := fun h => hxy (Name.ext (h.symm.trans hy.symm))
      rw [if_neg fun h => hother h.2.1, hvars]
      split
      · rw [Vars.exportVar_of_ne hxy, hread]
      · exact hread

/-- `key` and `value` are exported after an iteration when they were before. -/
theorem iteration_own (hx : x = keyVar ∨ x = valueVar) :
    ((iteration s line).vars x).any Var.exported = (s.vars x).any Var.exported := by
  have hread : ∃ v, ((s.vars.assign keyVar (lineName line)).assign valueVar (lineValue line)) x =
      some ⟨v, (s.vars x).any Var.exported⟩ := by
    rcases hx with rfl | rfl
    · exact ⟨_, by rw [Vars.assign_of_ne (by decide), Vars.assign_self]⟩
    · exact ⟨_, by rw [Vars.assign_self, Vars.assign_of_ne (by decide)]⟩
  obtain ⟨v, hread⟩ := hread
  rcases iteration_cases s line with ⟨⟨hvars, -⟩, -⟩ | ⟨y, -, -, -, hvars⟩
  · rw [hvars, hread]
    rfl
  · dsimp only at hvars
    rw [hvars]
    split
    · rename_i hnone
      have hxy : x ≠ y := by
        rintro rfl
        rw [hread] at hnone
        cases hnone
      rw [Vars.exportVar_of_ne hxy, hread]
      rfl
    · rw [hread]
      rfl

/-- The code that an iteration evaluates tests the name on its line. -/
theorem iteration_evaluated {script : List UInt8} (h : script ∈ (iteration s line).evaluated) :
    script ∈ s.evaluated ∨ ∃ x : Name, x.bytes = lineName line ∧ script = testScript x := by
  rcases iteration_cases s line with ⟨⟨-, hlog⟩, -⟩ | ⟨y, hy, -, hlog, -⟩
  · rw [hlog] at h
    exact .inl h
  · rw [hlog] at h
    rcases List.mem_append.mp h with h | h
    · exact .inl h
    · exact .inr ⟨y, hy, List.mem_singleton.mp h⟩

end Iteration

/-! ### The whole loop -/

/-- The value of the first line that names a variable, as the loop takes it. -/
def firstValue (lines : List (List UInt8)) (x : Name) : Option (List UInt8) :=
  if IsSopsRow x then none
  else (lines.find? fun line => lineName line = x.bytes).map lineValue

section Loop

variable {s : ScriptState} {lines : List (List UInt8)} {secrets : List UInt8} {x : Name}

theorem foldl_vars (hkey : x ≠ keyVar) (hvalue : x ≠ valueVar) :
    (lines.foldl iteration s).vars x =
      (s.vars x).or ((firstValue lines x).map fun v => ⟨v, true⟩) := by
  induction lines generalizing s with
  | nil => simp [firstValue]
  | cons line lines ih =>
    rw [List.foldl_cons, ih, iteration_vars hkey hvalue, firstValue, firstValue]
    by_cases hsops : IsSopsRow x
    · simp [hsops]
    cases hset : s.vars x with
    | some var => simp
    | none =>
      by_cases hname : lineName line = x.bytes
      · simp [hname, hsops]
      · simp [hname, hsops]

/-- **The loop**, on a variable that is not its own: what was set stays, anything else is exported
with the value of the first line that names it. -/
theorem loop_vars (hkey : x ≠ keyVar) (hvalue : x ≠ valueVar) :
    (loop s secrets).vars x =
      (s.vars x).or ((firstValue (docLines secrets) x).map fun v => ⟨v, true⟩) := by
  rw [loop]
  dsimp only
  rw [Vars.assign_of_ne hvalue, Vars.assign_of_ne hkey, foldl_vars hkey hvalue]

/-- **The loop**, on its own variables: they end up empty, and exported if they were. -/
theorem loop_own (hx : x = keyVar ∨ x = valueVar) :
    (loop s secrets).vars x = some ⟨[], (s.vars x).any Var.exported⟩ := by
  have hfold : ∀ (lines : List (List UInt8)) (s : ScriptState),
      ((lines.foldl iteration s).vars x).any Var.exported = (s.vars x).any Var.exported := by
    intro lines
    induction lines with
    | nil => exact fun _ => rfl
    | cons line lines ih => exact fun s => (ih _).trans (iteration_own hx)
  rw [loop]
  dsimp only
  rcases hx with rfl | rfl
  · rw [Vars.assign_of_ne (by decide), Vars.assign_self, hfold]
  · rw [Vars.assign_self, Vars.assign_of_ne (by decide), hfold]

/-- **The code that the loop evaluates** tests names. -/
theorem loop_evaluated {script : List UInt8} (h : script ∈ (loop s secrets).evaluated) :
    script ∈ s.evaluated ∨
      ∃ line ∈ docLines secrets, ∃ x : Name, x.bytes = lineName line ∧ script = testScript x := by
  rw [loop] at h
  dsimp only at h
  generalize docLines secrets = lines at h ⊢
  induction lines generalizing s with
  | nil => exact .inl h
  | cons line lines ih =>
    rcases ih h with h | ⟨line', hline', x, hx, rfl⟩
    · rcases iteration_evaluated h with h | ⟨x, hx, rfl⟩
      · exact .inl h
      · exact .inr ⟨line, List.mem_cons_self, x, hx, rfl⟩
    · exact .inr ⟨line', List.mem_cons_of_mem _ hline', x, hx, rfl⟩

end Loop

/-! ### Values that arrive -/

/-- The line `x=v` of the text **is to be exported**: the name is no row of `sops`, it is not set
in the environment, and no earlier line names it. -/
def ToExport (σ : Vars) (secrets : List UInt8) (x : Name) (v : List UInt8) : Prop :=
  ∃ before after, docLines secrets = before ++ (x.bytes ++ 61 :: v) :: after ∧ ¬ IsSopsRow x ∧
    σ.env x = none ∧ ∀ line ∈ before, lineName line ≠ x.bytes

/-- **The loop preserves values**: what is to be exported arrives as it stands on its line, only
tests of names are evaluated as code, and what was set stays as it was. -/
structure PreservesValues (σ : Vars) (secrets : List UInt8) : Prop where
  exported : ∀ x v, ToExport σ secrets x v → (loop { vars := σ } secrets).vars.env x = some v
  inert : ∀ script ∈ (loop { vars := σ } secrets).evaluated,
    ∃ line ∈ docLines secrets, ∃ x : Name, x.bytes = lineName line ∧ script = testScript x
  kept : ∀ x var, σ x = some var → (loop { vars := σ } secrets).vars x = some var

/-- The line that is to be exported is the first that names its variable. -/
theorem ToExport.firstValue {σ : Vars} {secrets : List UInt8} {x : Name} {v : List UInt8}
    (h : ToExport σ secrets x v) : firstValue (docLines secrets) x = some (clip 61 v) := by
  obtain ⟨before, after, hlines, hsops, -, hbefore⟩ := h
  have hnone : before.find? (fun line => lineName line = x.bytes) = none := by
    simpa using hbefore
  rw [Secrets.firstValue, if_neg hsops, hlines, List.find?_append, hnone, Option.none_or,
    List.find?_cons_of_pos (by simpa using lineName_append_cons (not_mem_name x)),
    Option.map_some, lineValue, readTwo_append_cons (not_mem_name x)]

/-- **Exactly when values arrive**: no line that is to be exported has a single `=` behind its name
at the very end, none names a variable that the shell has set itself or that the loop reads
into, and nothing was in these two. -/
theorem preservesValues_iff (σ : Vars) (secrets : List UInt8) :
    PreservesValues σ secrets ↔
      (∀ x v, ToExport σ secrets x v →
        (∀ w, v = w ++ [61] → 61 ∈ w) ∧ σ x = none ∧ x ≠ keyVar ∧ x ≠ valueVar) ∧
      ∀ x, x = keyVar ∨ x = valueVar → ∀ var, σ x = some var → var.value = [] := by
  constructor
  · intro h
    refine ⟨fun x v hx => ?_, fun x hx var hvar => ?_⟩
    swap
    · have hkept := h.kept x var hvar
      rw [loop_own hx] at hkept
      rw [← Option.some.inj hkept]
    have hset := h.exported x v hx
    obtain ⟨-, -, -, -, hunset, -⟩ := id hx
    by_cases hread : x = keyVar ∨ x = valueVar
    · -- what the loop reads into is exported only if it was
      rw [Vars.env_eq_some_iff, loop_own hread] at hset
      obtain ⟨-, hany⟩ := Var.mk.inj (Option.some.inj hset)
      obtain ⟨var, hvar, hexported⟩ := (Option.any_eq_true ..).mp hany
      exact absurd (Vars.env_eq_none_iff.mp hunset var hvar) (by simp [hexported])
    · obtain ⟨hkey, hvalue⟩ := not_or.mp hread
      rw [Vars.env_eq_some_iff, loop_vars hkey hvalue, hx.firstValue] at hset
      dsimp only at hset
      cases hvar : σ x with
      | some var =>
        -- a variable of the shell that is not exported, and stays so
        have hexported := Vars.env_eq_none_iff.mp hunset var hvar
        rw [hvar, Option.some_or] at hset
        rw [Option.some.inj hset] at hexported
        cases hexported
      | none =>
        rw [hvar, Option.none_or, Option.map_some] at hset
        have hclip : clip 61 v = v := (Var.mk.inj (Option.some.inj hset)).1
        exact ⟨clip_eq_self_iff.mp hclip, rfl, hkey, hvalue⟩
  · rintro ⟨hexported, hempty⟩
    refine ⟨fun x v hx => ?_, fun script hscript => ?_, fun x var hvar => ?_⟩
    · obtain ⟨hclip, hunset, hkey, hvalue⟩ := hexported x v hx
      rw [Vars.env_eq_some_iff, loop_vars hkey hvalue, hx.firstValue, clip_eq_self_iff.mpr hclip]
      dsimp only
      rw [hunset]
      rfl
    · rcases loop_evaluated hscript with h | h
      · cases h
      · exact h
    · by_cases hx : x = keyVar ∨ x = valueVar
      · obtain ⟨value, exported⟩ := var
        obtain rfl := hempty x hx _ hvar
        rw [loop_own hx]
        dsimp only
        rw [hvar]
        rfl
      · obtain ⟨hkey, hvalue⟩ := not_or.mp hx
        rw [loop_vars hkey hvalue]
        dsimp only
        rw [hvar, Option.some_or]

/-- **A trailing `=` is lost.** -/
theorem not_preservesValues : ¬ ∀ σ secrets, PreservesValues σ secrets := by
  intro hall
  have hline : ToExport (fun _ => none) (bytes "KEY=c2VjcmV0ISE=") ⟨bytes "KEY", by decide⟩
      (bytes "c2VjcmV0ISE=") :=
    ⟨[], [], by decide +kernel, by decide, rfl, by simp⟩
  have hset := (hall (fun _ => none) (bytes "KEY=c2VjcmV0ISE=")).exported _ _ hline
  rw [Vars.env_eq_some_iff, loop_vars (by decide) (by decide), hline.firstValue] at hset
  exact absurd hset (by decide)

end ApmeApi.Secrets
