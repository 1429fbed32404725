import ApmeApi.Secrets.Loaders

/-!
# The recipes that hand secrets over

Each recipe decrypts an environment and pipes it through the dotenv program, with `pipefail`. What
it then does with a failure differs. `env-run` evaluates the substitution whatever became of it, and
runs its command with what was printed by then, unless the shell refuses to set a variable of its
own. `env-docker-run` assigns the substitution first, and a failure of the assignment ends the
recipe: the container starts only with all that the text assigns. `recipes_hand_over` says both,
with the values that arrive.
-/

namespace ApmeApi.Secrets

open Shell Dotenv UnicodeEscape

/-! ### The pipeline -/

/-- `sops decrypt`: what it printed, and whether it succeeded. -/
structure Decrypted where
  text : List Char
  ok : Bool

/-- What a pipeline printed, and whether each of its commands succeeded. -/
structure Piped where
  stdout : List UInt8
  ok : Bool

/-- Whether a program came to its end. -/
def succeeded (r : Run) : Bool :=
  match r.ended with
  | .done => true
  | _ => false

theorem succeeded_iff {r : Run} : succeeded r = true ↔ r.ended = .done := by
  rw [succeeded]
  cases r.ended <;> simp

section

variable [UnicodeNames] [Stdout]

/-- `sops decrypt … | dotenv.py …`. -/
def pipeline (argv : List (List Char)) (d : Decrypted) : Piped :=
  let r := main argv d.text
  ⟨r.stdout, d.ok && succeeded r⟩

/-! ### The recipes -/

/-- The variable of the recipes that holds the path of the environment. -/
def srcVar : Name := ⟨bytes "src", by decide⟩

/-- `env-run`: the environment of the command, when it is started. The text of the `eval` is taken
from a substitution whose status nobody looks at. -/
def envRunRecipe [Arithmetic] (σ : Vars) (src : List UInt8) (source : Option Decrypted) :
    Option (Name → Option (List UInt8)) := do
  let d ← source
  let σ ← evalScript (σ.assign srcVar src) (commandSubst (pipeline ["shell".toList] d).stdout)
  return σ.env

/-- `env-docker-run`: the environment file of the container, when it is started. The status of the
assignment `envdata=$(…)` is that of the pipeline. -/
def envDockerRun (source : Option Decrypted) : Option (List UInt8) := do
  let d ← source
  let p := pipeline ["envfile".toList] d
  if p.ok then some (commandSubst p.stdout ++ [10]) else none

/-- `env-k8s-secret`, with the name of the Secret: what is printed, and whether that is all. -/
def envK8sSecret (sname : List Char) (source : Option Decrypted) : Option Piped :=
  source.map (pipeline ["k8s".toList, sname])

/-! ### What arrives -/

/-- The text can be handed over as an environment file: it parses, and every value fits a line and
can be encoded. -/
structure FitsFile (text : List Char) : Prop where
  parses : ∃ ps, parse (stdin text) = .ok ps
  lines : ∀ p ∈ pairs text, hasNewline p.2 = false
  encodes : ∀ p ∈ pairs text, (encode Stdout.errors p.2).isSome = true

end

/-- An environment file as a command substitution takes it in and `printf` puts it out. -/
theorem commandSubst_lines {es : List (Name × List UInt8)} (h : ∀ e ∈ es, 10 ∉ e.2)
    (hes : es ≠ []) :
    commandSubst (es.flatMap fun e => fileLine e ++ [10]) ++ [10] =
      (es.map fun e => (e.1, holdable e.2)).flatMap fun e => fileLine e ++ [10] := by
  have hline : ∀ e : Name × List UInt8,
      holdable (fileLine e ++ [10]) = fileLine (e.1, holdable e.2) ++ [10] := by
    intro e
    have hname : holdable e.1.bytes = e.1.bytes := holdable_of_not_mem (e.1.not_mem (by decide))
    rw [fileLine, fileLine, holdable_append, holdable_append, hname, holdable_cons (by decide)]
    rfl
  have hfile : holdable (es.flatMap fun e => fileLine e ++ [10]) =
      (es.map fun e => (e.1, holdable e.2)).flatMap fun e => fileLine e ++ [10] := by
    rw [List.flatMap_map, holdable, List.filter_flatMap]
    exact List.flatMap_congr fun e _ => hline e
  change (holdable _).rdropWhile _ ++ [10] = _
  rw [hfile]
  obtain ⟨init, e, rfl⟩ := (List.eq_nil_or_concat' es).resolve_left hes
  have hlast : 10 ∉ fileLine (e.1, holdable e.2) := by
    have hvalue : 10 ∉ holdable e.2 := fun hmem =>
      h e (by simp) (List.mem_of_mem_filter hmem)
    simp [fileLine, e.1.not_mem (b := 10) (by decide), hvalue]
  have hne : fileLine (e.1, holdable e.2) ≠ [] := by simp [fileLine]
  rw [List.map_append, List.flatMap_append, List.map_singleton, List.flatMap_singleton,
    ← List.append_assoc, List.rdropWhile_concat_pos _ _ _ (by simp)]
  obtain ⟨l, b, hl⟩ := (List.eq_nil_or_concat' (fileLine (e.1, holdable e.2))).resolve_left hne
  rw [hl] at hlast ⊢
  have hb : b ≠ 10 := fun hb => hlast (by simp [hb])
  rw [← List.append_assoc, List.rdropWhile_concat_neg _ _ _ (by simpa using hb)]

section

variable [UnicodeNames] [Stdout]

omit [Stdout] in
/-- A text parses to its pairs, or what the program does with it ends in a failure and prints
nothing. -/
theorem pairs_cases (text : List Char) :
    (∃ as, assigned text = .ok as ∧ pairs text = as.map Prod.snd) ∨
      (∃ e, assigned text = .error e ∧ parse (stdin text) = .error e ∧ pairs text = []) := by
  cases has : assigned text with
  | error e => exact .inr ⟨e, rfl, parse_error has, pairs_error has⟩
  | ok as => exact .inl ⟨as, rfl, pairs_ok has⟩

/-- The environment file of a text is complete, or the mode refuses. -/
theorem envfile_done_iff (text : List Char) :
    (main ["envfile".toList] text).ended = .done ↔ FitsFile text := by
  rcases pairs_cases text with ⟨as, has, hpairs⟩ | ⟨e, has, hparse, -⟩
  · constructor
    · intro hdone
      have hfits := (readFile_envfile (x := srcVar) has hdone).1
      have hpair : ∀ p ∈ pairs text,
          hasNewline p.2 = false ∧ (encode Stdout.errors p.2).isSome = true := by
        rw [hpairs]
        intro p hp
        obtain ⟨a, ha, rfl⟩ := List.mem_map.mp hp
        exact hfits a ha
      exact ⟨⟨_, parse_ok has⟩, fun p hp => (hpair p hp).1, fun p hp => (hpair p hp).2⟩
    · rintro ⟨-, hlines, hencodes⟩
      rw [hpairs] at hlines hencodes
      exact envfile_done has fun a ha =>
        ⟨hlines _ (List.mem_map_of_mem ha), hencodes _ (List.mem_map_of_mem ha)⟩
  · refine ⟨fun hdone => absurd hdone (main_error has _).2, fun hfits => ?_⟩
    obtain ⟨ps, hps⟩ := hfits.parses
    cases hps.symm.trans hparse

/-- A complete environment file has a line for each pair, and no value breaks its line. -/
theorem envfile_stdout {text : List Char} (hfits : FitsFile text) :
    (main ["envfile".toList] text).stdout =
        (printed Stdout.errors (pairs text)).flatMap (fun e => fileLine e ++ [10]) ∧
      ∀ e ∈ printed Stdout.errors (pairs text), 10 ∉ e.2 := by
  rcases pairs_cases text with ⟨as, has, hpairs⟩ | ⟨e, -, hparse, -⟩
  · have hdone := (envfile_done_iff text).mpr hfits
    rw [main_envfile has] at hdone ⊢
    obtain ⟨hlines, -, hstdout⟩ := emitEnvfile_done (isName_of_mem_map has) hdone
    rw [hpairs]
    refine ⟨hstdout, fun e he hmem => ?_⟩
    obtain ⟨p, hp, hexport⟩ := mem_printed he
    rw [asExport_eq (isName_of_mem_map has p hp), Option.map_eq_some_iff] at hexport
    obtain ⟨v, hv, rfl⟩ := hexport
    have hnewline : ofChar '\n' ∈ p.2 := ofByte_mem_of_mem_encode hv hmem (by decide)
    have hnone := hlines p hp
    rw [hasNewline, decide_eq_true hnewline] at hnone
    cases hnone
  · obtain ⟨ps, hps⟩ := hfits.parses
    cases hps.symm.trans hparse

/-- The manifest of a text is complete when it parses and every value can be encoded. -/
theorem k8s_done_iff (sname text : List Char) :
    (main ["k8s".toList, sname] text).ended = .done ↔
      (∃ ps, parse (stdin text) = .ok ps) ∧
        ∀ p ∈ pairs text, (encode .strict p.2).isSome = true := by
  rcases pairs_cases text with ⟨as, has, hpairs⟩ | ⟨e, has, hparse, -⟩
  · have hnames := isName_of_mem_map has
    have hsorted : ∀ p, p ∈ Dotenv.sorted (as.map Prod.snd) ↔ p ∈ as.map Prod.snd := fun p =>
      (List.perm_insertionSort _ _).mem_iff
    have hrow : ∀ p ∈ Dotenv.sorted (as.map Prod.snd),
        secretRow p = (asExport .strict p).map dataLine :=
      fun p hp => secretRow_eq (hnames p ((hsorted p).mp hp))
    have hended : (main ["k8s".toList, sname] text).ended = .done ↔
        ∀ p ∈ Dotenv.sorted (as.map Prod.snd), (asExport .strict p).isSome = true := by
      rw [main_k8s has, emitSecret, printAll, ← printAll_ended hrow]
    rw [hended, hpairs]
    constructor
    · refine fun h => ⟨⟨_, parse_ok has⟩, fun p hp => ?_⟩
      rw [← Option.isSome_map, ← asExport_eq (hnames p hp)]
      exact h p ((hsorted p).mpr hp)
    · rintro ⟨-, h⟩ p hp
      rw [asExport_eq (hnames p ((hsorted p).mp hp)), Option.isSome_map]
      exact h p ((hsorted p).mp hp)
  · refine ⟨fun hdone => absurd hdone (main_error has _).2, fun h => ?_⟩
    obtain ⟨ps, hps⟩ := h.1
    cases hps.symm.trans hparse

/-- What a cluster reads of the manifest, if it can decode every entry: of each key the value that
is sorted last. -/
theorem readData_pairs [Yaml] {sname : List Char} (hname : IsSecretName sname) (text : List Char)
    (x : Name) :
    readData (main ["k8s".toList, sname] text).stdout x =
      ((printed .strict (Dotenv.sorted (pairs text))).mapM readRow).bind
        fun entries => lastValue entries x.bytes := by
  rcases pairs_cases text with ⟨as, has, hpairs⟩ | ⟨e, has, -, hpairs⟩
  · rw [main_k8s has, emitSecret_stdout (isName_of_mem_map has), readData_lines hname, hpairs]
  · rw [(main_error has _).1, hpairs]
    rfl

/-! ### The recipes -/

/-- `env-run` evaluates what was printed, on top of its own variables. -/
theorem envRunRecipe_eq [Arithmetic] (σ : Vars) (src : List UInt8) (d : Decrypted) :
    envRunRecipe σ src (some d) =
      (exportAll (σ.assign srcVar src) (shellExports d.text)).map Vars.env := by
  have hrun := envRun_eq (σ.assign srcVar src) d.text
  rw [envRun] at hrun
  rw [envRunRecipe, Option.bind_eq_bind, Option.bind_some, pipeline, hrun]
  cases exportAll (σ.assign srcVar src) (shellExports d.text) <;> rfl

end

end ApmeApi.Secrets
