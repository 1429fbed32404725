import ApmeApi.Lib.Base64
import ApmeApi.Lib.ShellScript
import ApmeApi.Secrets.Dotenv
import Mathlib.Data.List.Lex
import Mathlib.Data.List.ReduceOption
import Mathlib.Data.List.Sort

/-!
# The dotenv emitters

`main` prints what the parser read in one of three formats: commands for a shell to evaluate, an
environment file with a line for each variable, and the manifest of a Secret with its data in
base64. A value that cannot be encoded ends the program where it comes up; what was printed by then
is printed. Whether a surrogate can be encoded depends on the locale, which has a say in how lines
are printed, but none in the base64.

All three formats carry the same list of names and encoded values, `printed`, the manifest a sorted
one, and each is read back as that list.
-/

namespace ApmeApi.Dotenv

open UnicodeEscape Shell

/-- How the program ends. -/
inductive Ended where
  | done
  | exit (message : List Char)
  | raised (reason : String)

/-- What a run of the program leaves. -/
structure Run where
  stdout : List UInt8
  ended : Ended

/-- `sys.stdout`, in UTF-8, with its error handler. The locale decides on it: `surrogateescape` in
`C`, `POSIX` and `C.UTF-8`, and `strict` in the others. -/
class Stdout where
  errors : Errors

/-- A text of the program. -/
def lit (s : String) : List CodePoint := s.toList.map ofChar

/-- Lines printed one by one. A line that cannot be encoded is nothing. -/
def printAll : List (Option (List UInt8)) → Run
  | [] => ⟨[], .done⟩
  | none :: _ => ⟨[], .raised "surrogates not allowed"⟩
  | some line :: lines =>
    let r := printAll lines
    { r with stdout := line ++ 10 :: r.stdout }

/-! ### Lines -/

/-- `v.replace("'", "'\\''")`. -/
def replaceQuote (v : List CodePoint) : List CodePoint :=
  v.flatMap fun c => if c = ofChar '\'' then lit "'\\''" else [c]

def shellLine (p : Pair) : List CodePoint :=
  lit "export " ++ p.1.map ofChar ++ lit "=" ++ (lit "'" ++ replaceQuote p.2 ++ lit "'")

def envfileLine (p : Pair) : List CodePoint := p.1.map ofChar ++ lit "=" ++ p.2

/-- A row of the data of a Secret, if its value can be encoded. -/
def secretRow (p : Pair) : Option (List UInt8) :=
  (encode .strict p.2).map fun v =>
    Text.utf8 "  ".toList ++ Text.utf8 p.1 ++ Text.utf8 ": ".toList ++ Base64.encode v

/-- What comes before the data of a Secret. -/
def secretHeader (name : List Char) : List Char :=
  "apiVersion: v1\nkind: Secret\nmetadata:\n  name: ".toList ++ name ++
    "\ntype: Opaque\ndata:".toList

/-! ### The program -/

/-- A pair as two strings. -/
def strings (p : Pair) : List CodePoint × List CodePoint := (p.1.map ofChar, p.2)

/-- Pairs are compared by their names, and by their values when these are the same. -/
def pairLe (p q : Pair) : Prop :=
  (strings p).1 < (strings q).1 ∨ (strings p).1 = (strings q).1 ∧ (strings p).2 ≤ (strings q).2

instance : DecidableRel pairLe := fun _ _ => inferInstanceAs (Decidable (_ ∨ _))

/-- `sorted(pairs)`. -/
def sorted (ps : List Pair) : List Pair := ps.insertionSort pairLe

/-- Whether a value cannot be a line of an environment file. -/
def hasNewline (v : List CodePoint) : Bool := ofChar '\n' ∈ v || ofChar '\r' ∈ v

/-- The message about names whose values have newlines. -/
def newlineMessage (bad : List (List Char)) : List Char :=
  "dotenv.py: ".toList ++ ", ".toList.intercalate bad ++
    (" contain newlines, which docker --env-file cannot\n" ++
      "represent — it would keep the first line and drop the rest.\n" ++
      "Use `just env-run <env> <cmd>` or `just env-k8s-secret <env>`,\n" ++
      "or store the value single-line (e.g. base64).").toList

def emitShell [Stdout] (pairs : List Pair) : Run :=
  printAll (pairs.map fun p => encode Stdout.errors (shellLine p))

def emitEnvfile [Stdout] (pairs : List Pair) : Run :=
  let bad := (pairs.filter fun p => hasNewline p.2).map Prod.fst
  if bad ≠ [] then ⟨[], .exit (newlineMessage bad)⟩
  else printAll (pairs.map fun p => encode Stdout.errors (envfileLine p))

def emitSecret (name : List Char) (pairs : List Pair) : Run :=
  printAll (some (Text.utf8 (secretHeader name)) :: (sorted pairs).map secretRow)

def modes : List (List Char) := ["shell".toList, "envfile".toList, "k8s".toList]

/-- `dotenv.py`, on its arguments and its standard input. -/
def main [UnicodeNames] [Stdout] (argv : List (List Char)) (text : List Char) : Run :=
  let mode := argv.head?.getD "shell".toList
  if !modes.contains mode then
    ⟨[], .exit ("dotenv.py: mode must be one of ".toList ++ ", ".toList.intercalate modes)⟩
  else
    let name := argv[1]?.getD "app-env".toList
    match parse (stdin text) with
    | .error e => ⟨[], .raised e⟩
    | .ok pairs =>
      if mode = "shell".toList then emitShell pairs
      else if mode = "envfile".toList then emitEnvfile pairs
      else emitSecret name pairs

/-! ### What is printed -/

/-- A pair as an export: its name, and its value as it is encoded. -/
def asExport (handler : Errors) (p : Pair) : Option (Name × List UInt8) :=
  if h : Shell.isName (Text.utf8 p.1) then
    (encode handler p.2).map fun v => (⟨Text.utf8 p.1, h⟩, v)
  else none

/-- **What is printed** of pairs: all up to the first that cannot be encoded. -/
def printed (handler : Errors) (ps : List Pair) : List (Name × List UInt8) :=
  ((ps.map (asExport handler)).takeWhile Option.isSome).reduceOption

/-- A character of a name, as a byte. -/
theorem isNameByte_ofNat {c : Char} (hc : c.toNat < 0x80) :
    isNameByte (UInt8.ofNat c.toNat) = isNameChar c ∧
      (isNameChar c && !(48 ≤ UInt8.ofNat c.toNat && UInt8.ofNat c.toNat ≤ 57)) =
        isNameStart c := by
  have key : ∀ n < 128,
      let start := (65 ≤ n && n ≤ 90) || (97 ≤ n && n ≤ 122) || decide (n = 95)
      let char := start || (48 ≤ n && n ≤ 57)
      isNameByte (UInt8.ofNat n) = char ∧
        (char && !(48 ≤ UInt8.ofNat n && UInt8.ofNat n ≤ 57)) = start := by decide +kernel
  exact key c.toNat hc

/-- **Names of the parser** are those of the shell. -/
theorem isName_utf8 (k : List Char) : Shell.isName (Text.utf8 k) = isName k := by
  by_cases hascii : ∀ c ∈ k, c.toNat < 0x80
  · have hall : ∀ l : List Char, (∀ c ∈ l, c.toNat < 0x80) →
        (l.map fun c => UInt8.ofNat c.toNat).all isNameByte = l.all isNameChar := by
      intro l hl
      induction l with
      | nil => rfl
      | cons c l ih =>
        rw [List.map_cons, List.all_cons, List.all_cons,
          (isNameByte_ofNat (hl c List.mem_cons_self)).1,
          ih fun d hd => hl d (List.mem_cons_of_mem _ hd)]
    rw [Text.utf8_ascii hascii]
    cases k with
    | nil => rfl
    | cons c k =>
      have hstart := (isNameByte_ofNat (hascii c List.mem_cons_self)).2
      rw [Shell.isName, hall _ hascii, isName, List.map_cons, List.head?_cons, List.head?_cons,
        Option.any_some, Option.any_some, ← hstart, List.all_cons]
      cases isNameChar c <;> simp [Bool.and_comm]
  · -- neither takes what is not ASCII
    simp only [not_forall, Nat.not_lt] at hascii
    obtain ⟨c, hc, hhigh⟩ := hascii
    obtain ⟨b, hb, hbyte⟩ := Text.exists_utf8_of_not_ascii hc hhigh
    have hname : isName k = false := by
      by_contra h
      rw [Bool.not_eq_false, isName, Bool.and_eq_true] at h
      have hchar := List.all_eq_true.mp h.2 c hc
      simp only [isNameChar, isNameStart, Bool.or_eq_true, Bool.and_eq_true,
        decide_eq_true_eq] at hchar
      omega
    have hshell : Shell.isName (Text.utf8 k) = false := by
      by_contra h
      rw [Bool.not_eq_false] at h
      have hlow := (⟨_, h⟩ : Name).isNameByte_of_mem hb
      have key : ∀ n < 256, 128 ≤ n → isNameByte (UInt8.ofNat n) = false := by decide +kernel
      rw [← UInt8.ofNat_toNat (x := b), key b.toNat b.toNat_lt hbyte] at hlow
      cases hlow
    rw [hname, hshell]

section Handler

variable {handler : Errors}

theorem asExport_eq {p : Pair} (hk : isName p.1 = true) :
    asExport handler p =
      (encode handler p.2).map fun v => (⟨Text.utf8 p.1, (isName_utf8 p.1).trans hk⟩, v) :=
  dif_pos ((isName_utf8 p.1).trans hk)

theorem encode_lit (s : String) : encode handler (lit s) = some (Text.utf8 s.toList) :=
  encode_map_ofChar s.toList

/-- Quotes are taken out of a value before it is encoded or after. -/
theorem encode_replaceQuote (v : List CodePoint) :
    encode handler (replaceQuote v) = (encode handler v).map fun o => o.flatMap quoteByte := by
  have hone : ∀ c : CodePoint, encode handler (if c = ofChar '\'' then lit "'\\''" else [c]) =
      (encode handler [c]).map fun o => o.flatMap quoteByte := by
    intro c
    split
    · rename_i hc
      have hquote : encode handler (['\''].map ofChar) = _ := encode_map_ofChar ['\'']
      rw [List.map_singleton, ← hc] at hquote
      rw [encode_lit, hquote]
      decide
    · rename_i hc
      cases ho : encode handler [c] with
      | none => rfl
      | some o =>
        have hplain : ∀ b ∈ o, quoteByte b = [b] := by
          intro b hb
          refine if_neg ?_
          rintro rfl
          exact hc (Fin.ext (encode_singleton_ascii ho hb (by decide)).2)
        rw [Option.map_some, List.flatMap_congr hplain, List.flatMap_singleton']
  induction v with
  | nil => rfl
  | cons c v ih =>
    rw [replaceQuote, List.flatMap_cons, encode_append, hone]
    change _ = (encode handler ([c] ++ v)).map _
    rw [encode_append]
    change ((encode handler [c]).map _).bind
      (fun o => (encode handler (replaceQuote v)).map fun o' => o ++ o') = _
    rw [ih]
    cases encode handler [c] with
    | none => rfl
    | some o =>
      cases encode handler v with
      | none => rfl
      | some o' => exact congrArg some List.flatMap_append.symm

theorem encode_shellLine {p : Pair} (hk : isName p.1 = true) :
    encode handler (shellLine p) =
      (asExport handler p).map fun e => exportCommand e.1 e.2 := by
  rw [shellLine, asExport_eq hk]
  simp only [encode_append, encode_lit, encode_map_ofChar, encode_replaceQuote, Option.bind_some,
    Option.map_some]
  cases encode handler p.2 with
  | none => rfl
  | some o =>
    have hexport : Text.utf8 "export ".toList = exportWord ++ [32] := by decide
    have hequals : Text.utf8 "=".toList = [61] := by decide
    have hquote : Text.utf8 "'".toList = [39] := by decide
    rw [hexport, hequals, hquote]
    simp [exportCommand, quote]

theorem printed_cons (p : Pair) (ps : List Pair) :
    printed handler (p :: ps) =
      match asExport handler p with
      | some e => e :: printed handler ps
      | none => [] := by
  rw [printed, List.map_cons]
  cases asExport handler p <;> rfl

theorem mem_printed {ps : List Pair} {e : Name × List UInt8} (h : e ∈ printed handler ps) :
    ∃ p ∈ ps, asExport handler p = some e := by
  rw [printed, List.reduceOption_mem_iff] at h
  exact List.mem_map.mp ((List.takeWhile_sublist _).subset h)

section Print

variable {ps : List Pair} {line : Pair → Option (List UInt8)} {g : Name × List UInt8 → List UInt8}

/-- **Lines for pairs**, one for each that is printed. -/
theorem printAll_stdout (hline : ∀ p ∈ ps, line p = (asExport handler p).map g) :
    (printAll (ps.map line)).stdout = (printed handler ps).flatMap fun e => g e ++ [10] := by
  induction ps with
  | nil => rfl
  | cons p ps ih =>
    rw [List.map_cons, hline p List.mem_cons_self, printed_cons]
    cases asExport handler p with
    | none => rfl
    | some e =>
      rw [Option.map_some, printAll, List.flatMap_cons, List.append_assoc]
      dsimp only
      rw [ih fun q hq => hline q (List.mem_cons_of_mem _ hq)]
      rfl

/-- The program comes to its end when every value can be encoded. -/
theorem printAll_ended (hline : ∀ p ∈ ps, line p = (asExport handler p).map g) :
    (printAll (ps.map line)).ended = .done ↔ ∀ p ∈ ps, (asExport handler p).isSome = true := by
  induction ps with
  | nil => simp [printAll]
  | cons p ps ih =>
    rw [List.map_cons, hline p List.mem_cons_self, List.forall_mem_cons]
    cases asExport handler p with
    | none => simp [printAll]
    | some e =>
      rw [Option.map_some, printAll]
      dsimp only
      rw [ih fun q hq => hline q (List.mem_cons_of_mem _ hq)]
      simp

end Print

/-- A line of an environment file. -/
def fileLine (e : Name × List UInt8) : List UInt8 := e.1.bytes ++ 61 :: e.2

/-- A row of a Secret. -/
def dataLine (e : Name × List UInt8) : List UInt8 :=
  [32, 32] ++ e.1.bytes ++ 58 :: 32 :: Base64.encode e.2

theorem encode_envfileLine {p : Pair} (hk : isName p.1 = true) :
    encode handler (envfileLine p) = (asExport handler p).map fileLine := by
  rw [envfileLine, asExport_eq hk]
  simp only [encode_append, encode_lit, encode_map_ofChar, Option.bind_some, Option.map_some]
  cases encode handler p.2 with
  | none => rfl
  | some o =>
    have hequals : Text.utf8 "=".toList = [61] := by decide
    simp only [Option.map_some, hequals]
    simp [fileLine]

theorem secretRow_eq {p : Pair} (hk : isName p.1 = true) :
    secretRow p = (asExport .strict p).map dataLine := by
  rw [secretRow, asExport_eq hk]
  cases encode .strict p.2 with
  | none => rfl
  | some o =>
    have hindent : Text.utf8 "  ".toList = [32, 32] := by decide
    have hcolon : Text.utf8 ": ".toList = [58, 32] := by decide
    rw [hindent, hcolon]
    simp [dataLine]

end Handler

section Modes

variable [Stdout] {pairs : List Pair} (hnames : ∀ p ∈ pairs, isName p.1 = true)

include hnames

theorem emitShell_stdout : (emitShell pairs).stdout = exportScript (printed Stdout.errors pairs) :=
  printAll_stdout fun p hp => encode_shellLine (hnames p hp)

/-- An environment file is complete, or the mode refuses. -/
theorem emitEnvfile_done (h : (emitEnvfile pairs).ended = .done) :
    (∀ p ∈ pairs, hasNewline p.2 = false) ∧
      (∀ p ∈ pairs, (asExport Stdout.errors p).isSome = true) ∧
      (emitEnvfile pairs).stdout =
        (printed Stdout.errors pairs).flatMap fun e => fileLine e ++ [10] := by
  rw [emitEnvfile] at h ⊢
  split at h
  · cases h
  · rename_i hbad
    have hline : ∀ p ∈ pairs, encode Stdout.errors (envfileLine p) =
        (asExport Stdout.errors p).map fileLine := fun p hp => encode_envfileLine (hnames p hp)
    rw [if_neg hbad, printAll_stdout hline]
    refine ⟨fun p hp => ?_, (printAll_ended hline).mp h, rfl⟩
    rw [not_not, List.map_eq_nil_iff, List.filter_eq_nil_iff] at hbad
    simpa using hbad p hp

omit [Stdout] in
theorem emitSecret_stdout (name : List Char) :
    (emitSecret name pairs).stdout =
      Text.utf8 (secretHeader name) ++ 10 ::
        (printed .strict (sorted pairs)).flatMap fun e => dataLine e ++ [10] := by
  have hline : ∀ p ∈ sorted pairs, secretRow p = (asExport .strict p).map dataLine := fun p hp =>
    secretRow_eq (hnames p ((List.perm_insertionSort _ pairs).mem_iff.mp hp))
  rw [emitSecret, printAll, ← printAll_stdout hline]

end Modes

end ApmeApi.Dotenv
