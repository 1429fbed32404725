import ApmeApi.Lib.Lines
import ApmeApi.Lib.Shell
import ApmeApi.Lib.Text

/-!
# Scripts that export

A small part of the language of `bash`: commands, each on a line of its own, of words with plain,
escaped and quoted bytes. The only command is the export of a variable. `evalScript` is nothing on
a script that is not of this form, and on one that ends at a command that fails.

Between single quotes every byte but the quote stands for itself. A quoted value, with its quotes
taken out one by one, is therefore read back unchanged (`foldlM_quote`), and a script of exports
does what it says (`evalScript_exports`). The shell has variables of its own, though: some cannot be
set, some evaluate what they are given, and some keep nothing of it.
-/

namespace Shell

/-! ### Reading -/

/-- Where a script is read: outside quotes, in single quotes, or behind a backslash. -/
inductive Mode where
  | plain
  | quoted
  | escaped
  deriving DecidableEq

/-- What was read of a script: the commands that are complete, the words of the one that is not,
and the word that is not. -/
structure Reader where
  mode : Mode := .plain
  word : Option (List UInt8) := none
  command : List (List UInt8) := []
  complete : List (List (List UInt8)) := []

namespace Reader

/-- A byte of the word. -/
def push (r : Reader) (b : UInt8) : Reader :=
  { r with mode := .plain, word := some (r.word.getD [] ++ [b]) }

/-- The words of the command up to here. -/
def words (r : Reader) : List (List UInt8) := r.command ++ r.word.toList

/-- One byte. Outside quotes a byte is of a name or an equals sign, or it has a meaning of its
own; a line feed behind a backslash is nothing. -/
def step (r : Reader) (b : UInt8) : Option Reader :=
  match r.mode with
  | .quoted =>
    some (if b = 39 then { r with mode := .plain } else { r.push b with mode := .quoted })
  | .escaped => some (if b = 10 then { r with mode := .plain } else r.push b)
  | .plain =>
    if b = 39 then some { r with mode := .quoted, word := some (r.word.getD []) }
    else if b = 92 then some { r with mode := .escaped }
    else if b = 10 then some { complete := r.complete ++ [r.words] }
    else if b = 32 then some { r with word := none, command := r.words }
    else if isNameByte b ∨ b = 61 then some (r.push b)
    else none

/-- The commands at the end of the script. -/
def finish (r : Reader) : Option (List (List (List UInt8))) :=
  if r.mode = .plain then some (r.complete ++ [r.words]) else none

end Reader

/-- The commands of a script, as their words. -/
def commands (script : List UInt8) : Option (List (List (List UInt8))) := do
  let r ← script.foldlM Reader.step {}
  r.finish

/-! ### Evaluation -/

/-- The variables that cannot be set. -/
def readonlyNames : List (List UInt8) :=
  ["BASHOPTS", "BASH_VERSINFO", "EUID", "PPID", "SHELLOPTS", "UID"].map fun s => Text.utf8 s.toList

/-- The variables that evaluate what is assigned to them as an arithmetic expression. -/
def integerNames : List (List UInt8) :=
  ["HISTCMD", "OPTIND", "RANDOM", "SRANDOM"].map fun s => Text.utf8 s.toList

/-- The variables whose value the shell makes up whenever it is asked for, and those that no command
can be given. -/
def dynamicNames : List (List UInt8) :=
  ["BASHPID", "BASH_ALIASES", "BASH_ARGC", "BASH_ARGV", "BASH_CMDS", "BASH_COMMAND", "BASH_LINENO",
    "BASH_SOURCE", "BASH_SUBSHELL", "DIRSTACK", "EPOCHREALTIME", "EPOCHSECONDS", "FUNCNAME",
    "GROUPS", "LINENO", "PIPESTATUS", "SECONDS", "SHLVL", "_"].map fun s => Text.utf8 s.toList

def IsReadonly (x : Name) : Prop := x.bytes ∈ readonlyNames

def IsInteger (x : Name) : Prop := x.bytes ∈ integerNames

def IsDynamic (x : Name) : Prop := x.bytes ∈ dynamicNames

instance (x : Name) : Decidable (IsReadonly x) := inferInstanceAs (Decidable (_ ∈ _))

instance (x : Name) : Decidable (IsInteger x) := inferInstanceAs (Decidable (_ ∈ _))

instance (x : Name) : Decidable (IsDynamic x) := inferInstanceAs (Decidable (_ ∈ _))

/-- A variable whose value the **shell computes**. It is always set, and need not keep what is
assigned to it. -/
def IsComputed (x : Name) : Prop := IsInteger x ∨ IsDynamic x

instance (x : Name) : Decidable (IsComputed x) := inferInstanceAs (Decidable (_ ∨ _))

/-- A variable is **unset** in the shell. -/
def Vars.Unset (σ : Vars) (x : Name) : Prop := σ x = none ∧ ¬ IsComputed x

/-- The arithmetic of the shell: the variables after an expression was assigned to one, if it can
be evaluated. Evaluation may set other variables, and run commands. -/
class Arithmetic where
  assign : Vars → Name → List UInt8 → Option Vars

/-- Whether an expression is a decimal number, or nothing. -/
def isNumeral (v : List UInt8) : Bool :=
  v.all (fun b => 48 ≤ b && b ≤ 57) && (v.length ≤ 1 || v.head? ≠ some 48)

def exportWord : List UInt8 := Text.utf8 "export".toList

section

variable [Arithmetic]

/-- `export x=v`, as a command of the shell. What a variable computes is not recorded. -/
def Vars.runExport (σ : Vars) (x : Name) (v : List UInt8) : Option Vars :=
  if IsReadonly x then none
  else if IsInteger x ∧ isNumeral v = false then Arithmetic.assign σ x v
  else if IsComputed x then some σ
  else some (σ.exportVar x v)

/-- One command: nothing, or the export of a variable. -/
def runCommand (σ : Vars) : List (List UInt8) → Option Vars
  | [] => some σ
  | [command, argument] =>
    let name := argument.takeWhile (· ≠ 61)
    match argument.dropWhile (· ≠ 61) with
    | _ :: v =>
      if h : command = exportWord ∧ isName name then σ.runExport ⟨name, h.2⟩ v else none
    | [] => none
  | _ => none

/-- `eval` of a script, under `set -e`. -/
def evalScript (σ : Vars) (script : List UInt8) : Option Vars := do
  let cs ← commands script
  cs.foldlM runCommand σ

/-- Exports one after the other. -/
def exportAll (σ : Vars) (exports : List (Name × List UInt8)) : Option Vars :=
  exports.foldlM (fun σ e => σ.runExport e.1 e.2) σ

end

/-- Exports that the shell can neither refuse nor take for expressions. -/
def IsOrdinary (exports : List (Name × List UInt8)) : Prop :=
  ∀ e ∈ exports, ¬ IsReadonly e.1 ∧ ¬ (IsInteger e.1 ∧ isNumeral e.2 = false)

/-! ### Quoting -/

/-- A byte between single quotes. -/
def quoteByte (b : UInt8) : List UInt8 := if b = 39 then [39, 92, 39, 39] else [b]

/-- A text in single quotes. -/
def quote (v : List UInt8) : List UInt8 := 39 :: (v.flatMap quoteByte ++ [39])

theorem foldlM_quoteByte (w v : List UInt8) (command : List (List UInt8))
    (complete : List (List (List UInt8))) :
    (v.flatMap quoteByte).foldlM Reader.step ⟨.quoted, some w, command, complete⟩ =
      some ⟨.quoted, some (w ++ v), command, complete⟩ := by
  induction v generalizing w with
  | nil => simp
  | cons b v ih =>
    have hbyte : (quoteByte b).foldlM Reader.step ⟨.quoted, some w, command, complete⟩ =
        some ⟨.quoted, some (w ++ [b]), command, complete⟩ := by
      by_cases hb : b = 39
      · rw [hb]
        rfl
      · rw [quoteByte, if_neg hb, List.foldlM_cons, Reader.step, if_neg hb]
        rfl
    rw [List.flatMap_cons, List.foldlM_append, hbyte]
    exact (ih (w ++ [b])).trans (by rw [List.append_assoc, List.singleton_append])

/-- **A quoted text** is read as the text. -/
theorem foldlM_quote (w v : List UInt8) (command : List (List UInt8))
    (complete : List (List (List UInt8))) :
    (quote v).foldlM Reader.step ⟨.plain, some w, command, complete⟩ =
      some ⟨.plain, some (w ++ v), command, complete⟩ := by
  rw [quote, List.foldlM_cons]
  change ((v.flatMap quoteByte ++ [39]).foldlM Reader.step ⟨.quoted, some w, command, complete⟩) = _
  rw [List.foldlM_append, foldlM_quoteByte]
  rfl

section Words

variable {l : List UInt8} (command : List (List UInt8)) (complete : List (List (List UInt8)))

theorem step_plain {b : UInt8} (hb : isNameByte b = true ∨ b = 61) (word : Option (List UInt8)) :
    Reader.step ⟨.plain, word, command, complete⟩ b =
      some ⟨.plain, some (word.getD [] ++ [b]), command, complete⟩ := by
  have hspecial : ∀ c : UInt8, isNameByte c = false → c ≠ 61 → b ≠ c := by
    rintro c hc hne rfl
    rcases hb with h | h
    · rw [h] at hc
      cases hc
    · exact hne h
  rw [Reader.step]
  dsimp only
  rw [if_neg (hspecial 39 (by decide) (by decide)), if_neg (hspecial 92 (by decide) (by decide)),
    if_neg (hspecial 10 (by decide) (by decide)), if_neg (hspecial 32 (by decide) (by decide)),
    if_pos hb]
  rfl

theorem foldlM_plain (hl : ∀ b ∈ l, isNameByte b = true ∨ b = 61) (w : List UInt8) :
    l.foldlM Reader.step ⟨.plain, some w, command, complete⟩ =
      some ⟨.plain, some (w ++ l), command, complete⟩ := by
  induction l generalizing w with
  | nil => simp
  | cons b l ih =>
    rw [List.foldlM_cons, step_plain command complete (hl b List.mem_cons_self)]
    exact (ih (fun c hc => hl c (List.mem_cons_of_mem _ hc)) (w ++ [b])).trans
      (by rw [List.append_assoc, List.singleton_append])

/-- A word that begins. -/
theorem foldlM_word (hl : ∀ b ∈ l, isNameByte b = true ∨ b = 61) (hne : l ≠ []) :
    l.foldlM Reader.step ⟨.plain, none, command, complete⟩ =
      some ⟨.plain, some l, command, complete⟩ := by
  cases l with
  | nil => exact absurd rfl hne
  | cons b l =>
    rw [List.foldlM_cons, step_plain command complete (hl b List.mem_cons_self)]
    exact foldlM_plain command complete (fun c hc => hl c (List.mem_cons_of_mem _ hc)) [b]

end Words

/-! ### Exports -/

/-- The command that exports a variable. -/
def exportCommand (x : Name) (v : List UInt8) : List UInt8 :=
  exportWord ++ 32 :: (x.bytes ++ 61 :: quote v)

/-- The words of the command that exports a variable. -/
def exportWords (x : Name) (v : List UInt8) : List (List UInt8) := [exportWord, x.bytes ++ 61 :: v]

/-- A script of exports, each on a line. -/
def exportScript (exports : List (Name × List UInt8)) : List UInt8 :=
  exports.flatMap fun e => exportCommand e.1 e.2 ++ [10]

theorem foldlM_exportCommand (x : Name) (v : List UInt8) (complete : List (List (List UInt8))) :
    (exportCommand x v).foldlM Reader.step { complete := complete } =
      some ⟨.plain, some (x.bytes ++ 61 :: v), [exportWord], complete⟩ := by
  have hword : ∀ b ∈ exportWord, isNameByte b = true ∨ b = 61 := by
    have hall : exportWord.all isNameByte = true := by decide
    exact fun b hb => .inl (List.all_eq_true.mp hall b hb)
  have hname : ∀ b ∈ x.bytes ++ [61], isNameByte b = true ∨ b = 61 := by
    intro b hb
    exact (List.mem_append.mp hb).imp x.isNameByte_of_mem List.mem_singleton.mp
  have hsplit : exportCommand x v = exportWord ++ ([32] ++ (x.bytes ++ [61] ++ quote v)) := by
    simp [exportCommand]
  rw [hsplit, List.foldlM_append, foldlM_word [] complete hword (by decide)]
  change (([32] ++ (x.bytes ++ [61] ++ quote v)).foldlM Reader.step
    ⟨.plain, some exportWord, [], complete⟩) = _
  rw [List.foldlM_append, List.foldlM_cons]
  change ((x.bytes ++ [61] ++ quote v).foldlM Reader.step
    ⟨.plain, none, [exportWord], complete⟩) = _
  rw [List.foldlM_append, foldlM_word [exportWord] complete hname (by simp)]
  exact (foldlM_quote _ v [exportWord] complete).trans (by rw [List.append_assoc]; rfl)

theorem foldlM_exportScript (exports : List (Name × List UInt8))
    (complete : List (List (List UInt8))) :
    (exportScript exports).foldlM Reader.step { complete := complete } =
      some { complete := complete ++ exports.map fun e => exportWords e.1 e.2 } := by
  induction exports generalizing complete with
  | nil => simp [exportScript]
  | cons e exports ih =>
    rw [exportScript, List.flatMap_cons, List.foldlM_append, List.foldlM_append,
      foldlM_exportCommand]
    change ((exportScript exports).foldlM Reader.step
      { complete := complete ++ [exportWords e.1 e.2] }) = _
    rw [ih, List.append_assoc]
    rfl

theorem runCommand_exportWords [Arithmetic] (σ : Vars) (x : Name) (v : List UInt8) :
    runCommand σ (exportWords x v) = σ.runExport x v := by
  have hplain : ∀ b ∈ x.bytes, decide (b ≠ 61) = true := fun b hb => by
    simpa using fun h : b = 61 => x.not_mem (by decide) (h ▸ hb)
  have htake : (x.bytes ++ 61 :: v).takeWhile (· ≠ 61) = x.bytes := by
    rw [List.takeWhile_append_of_pos hplain]
    simp
  have hdrop : (x.bytes ++ 61 :: v).dropWhile (· ≠ 61) = 61 :: v := by
    rw [List.dropWhile_append_of_pos hplain]
    simp
  rw [exportWords, runCommand, hdrop]
  dsimp only
  rw [dif_pos ⟨rfl, htake.symm ▸ x.valid⟩]
  congr 1
  exact Name.ext htake

theorem foldlM_runCommand [Arithmetic] (σ : Vars) (exports : List (Name × List UInt8)) :
    (exports.map fun e => exportWords e.1 e.2).foldlM runCommand σ = exportAll σ exports := by
  rw [exportAll, List.foldlM_map]
  simp only [runCommand_exportWords]

/-- A variable that cannot be set ends the exports. -/
theorem exportAll_eq_none [Arithmetic] {exports : List (Name × List UInt8)}
    {e : Name × List UInt8} (he : e ∈ exports) (hread : IsReadonly e.1) (σ : Vars) :
    exportAll σ exports = none := by
  rw [exportAll]
  induction exports generalizing σ with
  | nil => cases he
  | cons e' exports ih =>
    rw [List.foldlM_cons]
    rcases List.mem_cons.mp he with rfl | he
    · rw [Vars.runExport, if_pos hread]
      rfl
    · cases σ.runExport e'.1 e'.2 with
      | none => rfl
      | some σ' => exact ih he σ'

/-- **Ordinary exports** go through, and set the variables that the shell does not compute. -/
theorem exportAll_of_isOrdinary [Arithmetic] {exports : List (Name × List UInt8)}
    (h : IsOrdinary exports) (σ : Vars) :
    exportAll σ exports = some ((exports.filter fun e => ¬ IsComputed e.1).foldl
      (fun σ e => σ.exportVar e.1 e.2) σ) := by
  rw [exportAll]
  induction exports generalizing σ with
  | nil => rfl
  | cons e exports ih =>
    obtain ⟨⟨hread, hnumeral⟩, h⟩ := List.forall_mem_cons.mp h
    rw [List.foldlM_cons, Vars.runExport, if_neg hread, if_neg hnumeral]
    by_cases hcomputed : IsComputed e.1
    · rw [if_pos hcomputed, List.filter_cons_of_neg (by simpa using hcomputed)]
      exact ih h σ
    · rw [if_neg hcomputed, List.filter_cons_of_pos (by simpa using hcomputed)]
      exact ih h _

/-! ### Scripts that a command prints -/

/-- What a variable can hold of a text. -/
def holdable (v : List UInt8) : List UInt8 := v.filter (· ≠ 0)

theorem holdable_append (v w : List UInt8) : holdable (v ++ w) = holdable v ++ holdable w :=
  List.filter_append ..

theorem holdable_cons {b : UInt8} (hb : b ≠ 0) (v : List UInt8) :
    holdable (b :: v) = b :: holdable v :=
  List.filter_cons_of_pos (by simpa)

theorem holdable_of_not_mem {v : List UInt8} (h : 0 ∉ v) : holdable v = v :=
  List.filter_eq_self.mpr fun b hb => by simpa using fun hb' : b = 0 => h (hb' ▸ hb)

theorem holdable_splitOn (bs : List UInt8) :
    (holdable bs).splitOn 10 = (bs.splitOn 10).map holdable := by
  induction bs with
  | nil => rfl
  | cons b bs ih =>
    rw [List.splitOn_cons_eq_if_modifyHead]
    by_cases hb : b = 10
    · rw [if_pos (by simp [hb]), holdable_cons (by simp [hb]), List.splitOn_cons_eq_if_modifyHead,
        if_pos (by simp [hb]), ih]
      rfl
    · rw [if_neg (by simpa using hb), ← List.singleton_append, holdable_append]
      have hplain : 10 ∉ holdable [b] := fun h => hb
        (List.mem_singleton.mp (List.mem_of_mem_filter h)).symm
      rw [Lines.splitOn_append_of_not_mem hplain, ih]
      cases bs.splitOn 10 with
      | nil => rfl
      | cons line lines => exact congrArg (· :: _) (holdable_append [b] line).symm

theorem holdable_quote (v : List UInt8) : holdable (quote v) = quote (holdable v) := by
  have hinner : holdable (v.flatMap quoteByte) = (holdable v).flatMap quoteByte := by
    induction v with
    | nil => rfl
    | cons b v ih =>
      rw [List.flatMap_cons, holdable_append, ih]
      by_cases hb : b = 0
      · rw [hb]
        rfl
      · have hbyte : holdable (quoteByte b) = quoteByte b := by
          rw [quoteByte]
          split
          · rfl
          · exact holdable_of_not_mem (by simpa using Ne.symm hb)
        rw [holdable_cons hb, List.flatMap_cons, hbyte]
  rw [quote, quote, holdable_cons (by decide), holdable_append, hinner]
  rfl

theorem holdable_exportCommand (x : Name) (v : List UInt8) :
    holdable (exportCommand x v) = exportCommand x (holdable v) := by
  rw [exportCommand, holdable_append, holdable_cons (by decide), holdable_append,
    holdable_cons (by decide), holdable_quote, holdable_of_not_mem (x.not_mem (by decide))]
  rfl

theorem holdable_exportScript (exports : List (Name × List UInt8)) :
    holdable (exportScript exports) =
      exportScript (exports.map fun e => (e.1, holdable e.2)) := by
  induction exports with
  | nil => rfl
  | cons e exports ih =>
    rw [exportScript, List.flatMap_cons, holdable_append, holdable_append, holdable_exportCommand]
    change _ ++ holdable (exportScript exports) = _
    rw [ih]
    rfl

/-- The line feed at the end of a script of exports is no part of its last command. -/
theorem rdropWhile_exportScript (exports : List (Name × List UInt8)) (e : Name × List UInt8) :
    (exportScript (exports ++ [e])).rdropWhile (· = 10) =
      exportScript exports ++ exportCommand e.1 e.2 := by
  have hend : exportScript (exports ++ [e]) =
      exportScript exports ++ exportWord ++
        32 :: (e.1.bytes ++ 61 :: 39 :: e.2.flatMap quoteByte) ++ [39] ++ [10] := by
    simp [exportScript, exportCommand, quote]
  rw [hend, List.rdropWhile_concat_pos _ _ _ (by simp), List.rdropWhile_concat_neg _ _ _ (by simp)]
  simp [exportCommand, quote]

/-- **A script of exports**, as a command substitution takes it in, exports each variable with what
it can hold of its value. -/
theorem evalScript_exports [Arithmetic] (σ : Vars) (exports : List (Name × List UInt8)) :
    evalScript σ (commandSubst (exportScript exports)) =
      exportAll σ (exports.map fun e => (e.1, holdable e.2)) := by
  have hplain : ∀ exports : List (Name × List UInt8),
      evalScript σ ((exportScript exports).rdropWhile (· = 10)) = exportAll σ exports := by
    intro exports
    rcases List.eq_nil_or_concat' exports with rfl | ⟨exports, e, rfl⟩
    · rfl
    · have hread : commands (exportScript exports ++ exportCommand e.1 e.2) =
          some ((exports ++ [e]).map fun e => exportWords e.1 e.2) := by
        rw [commands, List.foldlM_append, foldlM_exportScript]
        change ((exportCommand e.1 e.2).foldlM Reader.step
          { complete := [] ++ exports.map fun e => exportWords e.1 e.2 } >>= Reader.finish) = _
        rw [foldlM_exportCommand, List.map_append]
        rfl
      rw [rdropWhile_exportScript, evalScript, hread]
      exact foldlM_runCommand σ (exports ++ [e])
  have hsubst : commandSubst (exportScript exports) =
      (exportScript (exports.map fun e => (e.1, holdable e.2))).rdropWhile (· = 10) := by
    rw [← holdable_exportScript]
    rfl
  rw [hsubst, hplain]

end Shell
