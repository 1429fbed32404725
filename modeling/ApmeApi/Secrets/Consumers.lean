import ApmeApi.Secrets.Emitters

/-!
# Consumers of the emitters

A shell evaluates the commands, a container runtime reads the environment file line by line, and a
cluster reads the data of the Secret. Each takes the last assignment that it reads, and each ends up
with the values of the list that was printed, or refuses it: the shell for the sake of a variable of
its own, the runtime because of a line that is too long or no text, and the cluster because a key or
a value without quotes is not what it looks like in YAML.
-/

namespace ApmeApi.Dotenv

open UnicodeEscape Shell

/-- The value of the last assignment to a name. -/
def lastValue {N V : Type} [DecidableEq N] (l : List (N × V)) (x : N) : Option V :=
  (l.filter fun e => e.1 = x).getLast?.map Prod.snd

/-- `eval` of the commands of the program: the variables of the shell afterwards. -/
def envRun [UnicodeNames] [Stdout] [Arithmetic] (σ : Vars) (text : List Char) :
    Option Vars :=
  evalScript σ (commandSubst (main ["shell".toList] text).stdout)

/-- An assignment in an environment file: a line with an equals sign. -/
def fileAssignment (line : List UInt8) : Option (List UInt8 × List UInt8) :=
  match line.dropWhile (· ≠ 61) with
  | _ :: v => some (line.takeWhile (· ≠ 61), v)
  | [] => none

/-- Whether the container runtime takes a line in: it is UTF-8 without NUL, and with its line feed
it fits the buffer of 64 KiB. -/
def isFileLine (line : List UInt8) : Bool :=
  (Text.utf8Decode line).isSome && 0 ∉ line && line.length < 65536

/-- The value of a variable in an environment file, if the runtime takes in every line. -/
def readFile (file : List UInt8) (x : Name) : Option (List UInt8) :=
  let lines := file.splitOn 10
  if lines.all isFileLine then lastValue (lines.filterMap fileAssignment) x.bytes else none

/-- What YAML takes a scalar without quotes for. -/
inductive Scalar where
  | null
  | bool (b : Bool)
  | number
  | text
  deriving DecidableEq

def forms (l : List String) : List (List UInt8) := l.map fun s => Text.utf8 s.toList

/-- The scalars that YAML takes for null. -/
def nullForms : List (List UInt8) := forms ["", "~", "null", "Null", "NULL"]

/-- The schema of the YAML parser. -/
class Yaml where
  scalar : List UInt8 → Scalar
  null_iff : ∀ v, scalar v = .null ↔ v ∈ nullForms
  default_name : scalar (Text.utf8 "app-env".toList) = .text

/-- The name of a Secret: labels of small letters, digits and hyphens, between dots. -/
def isSecretName (name : List Char) : Bool :=
  name.all (fun c => ('a' ≤ c && c ≤ 'z') || ('0' ≤ c && c ≤ '9') || c = '-' || c = '.') &&
    (name.splitOn '.').all fun l => l ≠ [] && l.head? ≠ some '-' && l.getLast? ≠ some '-'

section Secret

variable [Yaml]

/-- A key without quotes, as the key of a JSON object. It has at most 1024 characters. -/
def mappingKey (k : List UInt8) : Option (List UInt8) :=
  if 1024 < k.length then none
  else
    match Yaml.scalar k with
    | .text => some k
    | .bool b => some (Text.utf8 (if b then "true" else "false").toList)
    | .null | .number => none

/-- A value without quotes, as bytes: base64, or nothing at all. -/
def dataValue (v : List UInt8) : Option (List UInt8) :=
  match Yaml.scalar v with
  | .text => Base64.decode v
  | .null => some []
  | .bool _ | .number => none

/-- An entry of the data of a Secret: an indented line with a colon. -/
def dataEntry (line : List UInt8) : Option (List UInt8 × List UInt8) := do
  let line ← Text.stripPrefixList [32, 32] line
  let v ← Text.stripPrefixList [58, 32] (line.dropWhile (· ≠ 58))
  let k ← mappingKey (line.takeWhile (· ≠ 58))
  let v ← dataValue v
  return (k, v)

def nameKey : List UInt8 := Text.utf8 "  name: ".toList

def dataKey : List UInt8 := Text.utf8 "data:".toList

/-- The value of a variable in a Secret, if its name is a text and every entry can be decoded. -/
def readData (manifest : List UInt8) (x : Name) : Option (List UInt8) := do
  let lines := manifest.splitOn 10
  let name ← (lines.takeWhile (· ≠ dataKey)).findSome? (Text.stripPrefixList nameKey)
  if Yaml.scalar name = .text then
    let entries ← ((lines.dropWhile (· ≠ dataKey)).tail.filter (· ≠ [])).mapM dataEntry
    lastValue entries x.bytes
  else none

/-- A name that a Secret can have, and that YAML takes for a text. -/
structure IsSecretName (name : List Char) : Prop where
  valid : isSecretName name = true
  text : Yaml.scalar (Text.utf8 name) = .text

omit [Yaml] in
theorem feed_not_mem_of_isSecretName {name : List Char} (h : isSecretName name = true) :
    '\n' ∉ name := by
  intro hmem
  rw [isSecretName, Bool.and_eq_true] at h
  exact absurd (List.all_eq_true.mp h.1 _ hmem) (by decide)

omit [Yaml] in
/-- No text is null in base64 but the empty one. -/
theorem eq_nil_of_encode_mem {cs : List Char}
    (h : Base64.encode (Text.utf8 cs) ∈ nullForms) : Text.utf8 cs = [] := by
  have hdecode := Base64.decode_encode (Text.utf8 cs)
  have hchars := Text.utf8Decode_utf8 cs
  have hkey : ∀ w ∈ nullForms, w = [] ∨ (Base64.decode w).bind Text.utf8Decode = none := by
    decide +kernel
  rcases hkey _ h with hnil | hnone
  · rw [hnil] at hdecode
    exact (Option.some.inj hdecode).symm
  · rw [hdecode, Option.bind_some, hchars] at hnone
    cases hnone

/-- **A value that is read** is the one that was written. -/
theorem dataValue_encode {cs : List Char} {v : List UInt8}
    (h : dataValue (Base64.encode (Text.utf8 cs)) = some v) : v = Text.utf8 cs := by
  rw [dataValue] at h
  split at h
  · rw [Base64.decode_encode] at h
    exact (Option.some.inj h).symm
  · rename_i hnull
    obtain rfl := Option.some.inj h
    exact (eq_nil_of_encode_mem ((Yaml.null_iff _).mp hnull)).symm
  · cases h
  · cases h

/-- What becomes of a row of a Secret. -/
def readRow (e : Name × List UInt8) : Option (List UInt8 × List UInt8) := do
  let k ← mappingKey e.1.bytes
  let v ← dataValue (Base64.encode e.2)
  return (k, v)

end Secret

/-- A schema with the usual booleans, and numbers of decimal digits. -/
@[reducible]
def coreYaml : Yaml where
  scalar v :=
    if v ∈ nullForms then .null
    else if v ∈ forms ["y", "Y", "yes", "Yes", "YES", "on", "On", "ON", "true", "True", "TRUE"] then
      .bool true
    else if v ∈ forms ["n", "N", "no", "No", "NO", "off", "Off", "OFF", "false", "False", "FALSE"]
    then .bool false
    else if v.all fun b => 48 ≤ b && b ≤ 57 then .number
    else .text
  null_iff v := by
    by_cases h : v ∈ nullForms
    · simp [h]
    · simp only [h, if_false, iff_false]
      split_ifs <;> simp
  default_name := by decide +kernel

/-! ### The last assignment -/

section LastValue

variable {N V : Type} [DecidableEq N] {l : List (N × V)} {x : N}

theorem lastValue_concat (l : List (N × V)) (e : N × V) (x : N) :
    lastValue (l ++ [e]) x = if e.1 = x then some e.2 else lastValue l x := by
  rw [lastValue, List.filter_append]
  split
  · rename_i h
    rw [List.filter_singleton]
    simp [h]
  · rename_i h
    rw [List.filter_singleton]
    simp [h, lastValue]

/-- Names may be renamed, as long as they stay apart. -/
theorem lastValue_map {M : Type} [DecidableEq M] {f : N → M} (hf : f.Injective)
    (l : List (N × V)) (x : N) : lastValue (l.map fun e => (f e.1, e.2)) (f x) = lastValue l x := by
  induction l using List.reverseRecOn with
  | nil => rfl
  | append_singleton l e ih =>
    rw [List.map_append, List.map_singleton, lastValue_concat, lastValue_concat, ih]
    simp only [hf.eq_iff]

end LastValue

theorem name_bytes_injective : Function.Injective Name.bytes := fun _ _ h => Name.ext h

/-- Values may be changed one by one. -/
theorem lastValue_mapValue {N V W : Type} [DecidableEq N] (f : V → W) (l : List (N × V)) (x : N) :
    lastValue (l.map fun e => (e.1, f e.2)) x = (lastValue l x).map f := by
  induction l using List.reverseRecOn with
  | nil => rfl
  | append_singleton l e ih =>
    rw [List.map_append, List.map_singleton, lastValue_concat, lastValue_concat, ih]
    split <;> rfl

/-- Entries of other names do not count. -/
theorem lastValue_filter {N V : Type} [DecidableEq N] {p : N × V → Bool} {x : N}
    (hp : ∀ e, e.1 = x → p e = true) (l : List (N × V)) :
    lastValue (l.filter p) x = lastValue l x := by
  rw [lastValue, lastValue, List.filter_filter]
  congr 2
  refine List.filter_congr fun e _ => ?_
  by_cases h : e.1 = x
  · simp [h, hp e h]
  · simp [h]

/-- Exports one after the other: the last one counts. -/
theorem foldl_exportVar (σ : Vars) (es : List (Name × List UInt8)) (x : Name) :
    (es.foldl (fun σ e => σ.exportVar e.1 e.2) σ) x =
      ((lastValue es x).map fun v => ⟨v, true⟩).or (σ x) := by
  induction es using List.reverseRecOn with
  | nil => rfl
  | append_singleton es e ih =>
    rw [List.foldl_append, List.foldl_cons, List.foldl_nil, lastValue_concat]
    by_cases h : e.1 = x
    · rw [if_pos h, ← h, Vars.exportVar_self]
      rfl
    · rw [if_neg h, Vars.exportVar_of_ne (Ne.symm h), ih]

/-- **Ordinary exports**: of every variable that the shell does not compute the last one counts. -/
theorem exportAll_apply [Arithmetic] {es : List (Name × List UInt8)} (h : IsOrdinary es)
    (σ : Vars) :
    ∃ τ, exportAll σ es = some τ ∧ ∀ x, ¬ IsComputed x →
      τ x = ((lastValue es x).map fun v => ⟨v, true⟩).or (σ x) := by
  refine ⟨_, exportAll_of_isOrdinary h σ, fun x hx => ?_⟩
  have hkeep : ∀ e : Name × List UInt8, e.1 = x → decide (¬ IsComputed e.1) = true := by
    rintro e rfl
    exact decide_eq_true hx
  rw [foldl_exportVar, lastValue_filter hkeep]

/-! ### Lines -/

theorem splitOn_lines {lines : List (List UInt8)} (h : ∀ line ∈ lines, 10 ∉ line) :
    (lines.flatMap fun line => line ++ [10]).splitOn 10 = lines ++ [[]] := by
  induction lines with
  | nil => rfl
  | cons line lines ih =>
    rw [List.flatMap_cons, List.append_assoc, List.singleton_append,
      List.splitOn_append_cons_self_of_not_mem (h line List.mem_cons_self),
      ih fun l hl => h l (List.mem_cons_of_mem _ hl), List.cons_append]

theorem filterMap_of_eq_some {α β γ : Type} {line : α → β} {read : β → Option γ} {f : α → γ}
    (h : ∀ a, read (line a) = some (f a)) (l : List α) :
    (l.map line).filterMap read = l.map f := by
  have hcomp : read ∘ line = some ∘ f := funext h
  rw [List.filterMap_map, hcomp, List.filterMap_eq_map]

theorem fileAssignment_fileLine (e : Name × List UInt8) :
    fileAssignment (fileLine e) = some (e.1.bytes, e.2) := by
  have hplain : ∀ b ∈ e.1.bytes, decide (b ≠ 61) = true := fun b hb => by
    simpa using fun h : b = 61 => e.1.not_mem (by decide) (h ▸ hb)
  rw [fileAssignment, fileLine, List.dropWhile_append_of_pos hplain,
    List.takeWhile_append_of_pos hplain]
  simp

theorem dataEntry_dataLine [Yaml] (e : Name × List UInt8) :
    dataEntry (dataLine e) = readRow e := by
  have hplain : ∀ b ∈ e.1.bytes, decide (b ≠ 58) = true := fun b hb => by
    simpa using fun h : b = 58 => e.1.not_mem (by decide) (h ▸ hb)
  have hindent : Text.stripPrefixList [32, 32] (dataLine e) =
      some (e.1.bytes ++ 58 :: 32 :: Base64.encode e.2) := by
    rw [dataLine, List.append_assoc, Text.stripPrefixList_eq_some_iff]
  have hdrop : (e.1.bytes ++ 58 :: 32 :: Base64.encode e.2).dropWhile (· ≠ 58) =
      [58, 32] ++ Base64.encode e.2 := by
    rw [List.dropWhile_append_of_pos hplain]
    simp
  have htake : (e.1.bytes ++ 58 :: 32 :: Base64.encode e.2).takeWhile (· ≠ 58) = e.1.bytes := by
    rw [List.takeWhile_append_of_pos hplain]
    simp
  rw [dataEntry, hindent]
  simp only [Option.bind_eq_bind, Option.bind_some, hdrop, htake,
    Text.stripPrefixList_eq_some_iff.mpr rfl]
  rfl

/-! ### What is read back -/

/-- The variables of an environment file that has a line for each. -/
theorem readFile_lines {es : List (Name × List UInt8)} (h : ∀ e ∈ es, 10 ∉ e.2) (x : Name) :
    readFile (es.flatMap fun e => fileLine e ++ [10]) x =
      if ∀ e ∈ es, isFileLine (fileLine e) = true then lastValue es x else none := by
  have hlines : ∀ line ∈ es.map fileLine, 10 ∉ line := by
    intro line hline
    obtain ⟨e, he, rfl⟩ := List.mem_map.mp hline
    simp [fileLine, e.1.not_mem (b := 10) (by decide), h e he]
  have hfile : (es.flatMap fun e => fileLine e ++ [10]) =
      (es.map fileLine).flatMap fun line => line ++ [10] := by rw [List.flatMap_map]
  have hentries : (es.map fileLine ++ [[]]).filterMap fileAssignment =
      es.map fun e => (e.1.bytes, e.2) := by
    rw [List.filterMap_append, filterMap_of_eq_some fileAssignment_fileLine]
    exact List.append_nil _
  have hall : ((es.map fileLine ++ [[]]).all isFileLine = true) =
      ∀ e ∈ es, isFileLine (fileLine e) = true := by
    have hempty : isFileLine [] = true := by decide
    simp [hempty]
  rw [readFile, hfile, splitOn_lines hlines, hentries, lastValue_map name_bytes_injective]
  simp only [hall]

/-- The lines before the data of a Secret. -/
def headerLines (name : List Char) : List (List UInt8) :=
  [Text.utf8 "apiVersion: v1".toList, Text.utf8 "kind: Secret".toList,
    Text.utf8 "metadata:".toList, Text.utf8 "  name: ".toList ++ Text.utf8 name,
    Text.utf8 "type: Opaque".toList]

theorem secretHeader_eq (name : List Char) :
    Text.utf8 (secretHeader name) ++ [10] =
      (headerLines name ++ [dataKey]).flatMap fun line => line ++ [10] := by
  have hjoin : ∀ before after version kind metadata indent type key : List UInt8,
      before = version ++ [10] ++ (kind ++ [10] ++ (metadata ++ [10] ++ indent)) →
      after = [10] ++ (type ++ [10] ++ key) →
      before ++ Text.utf8 name ++ after ++ [10] =
        ([version, kind, metadata, indent ++ Text.utf8 name, type] ++ [key]).flatMap
          fun line => line ++ [10] := by
    rintro _ _ version kind metadata indent type key rfl rfl
    simp
  delta secretHeader
  rw [Text.utf8_append, Text.utf8_append]
  exact hjoin _ _ _ _ _ _ _ _ (by decide +kernel) (by decide +kernel)

/-- The lines of the header, none of which is the key of the data. -/
theorem headerLines_spec {name : List Char} (hname : '\n' ∉ name) :
    ∀ line ∈ headerLines name, line ≠ dataKey ∧ 10 ∉ line := by
  have hfeed : 10 ∉ Text.utf8 name := fun h =>
    hname ((Text.mem_utf8_iff (c := '\n') (by decide)).mp h)
  have hindent : ∃ l, Text.utf8 "  name: ".toList = 32 :: l ∧ 10 ∉ l := ⟨_, rfl, by decide +kernel⟩
  have hkey : ∃ l, dataKey = 100 :: l := ⟨_, rfl⟩
  obtain ⟨l, hindent, hl⟩ := hindent
  obtain ⟨l', hkey⟩ := hkey
  intro line hline
  rw [headerLines, hindent] at hline
  simp only [List.mem_cons, List.not_mem_nil, or_false] at hline
  rcases hline with rfl | rfl | rfl | rfl | rfl
  · decide +kernel
  · decide +kernel
  · decide +kernel
  · rw [hkey]
    simp [hl, hfeed]
  · decide +kernel

/-- The name in the header. -/
theorem findSome?_headerLines (name : List Char) :
    (headerLines name).findSome? (Text.stripPrefixList nameKey) = some (Text.utf8 name) := by
  have hversion : Text.stripPrefixList nameKey (Text.utf8 "apiVersion: v1".toList) = none := by
    decide +kernel
  have hkind : Text.stripPrefixList nameKey (Text.utf8 "kind: Secret".toList) = none := by
    decide +kernel
  have hmetadata : Text.stripPrefixList nameKey (Text.utf8 "metadata:".toList) = none := by
    decide +kernel
  have hline : Text.stripPrefixList nameKey (Text.utf8 "  name: ".toList ++ Text.utf8 name) =
      some (Text.utf8 name) := Text.stripPrefixList_eq_some_iff.mpr rfl
  simp only [headerLines, List.findSome?_cons, hversion, hkind, hmetadata, hline]

/-- The variables of a Secret with a row for each. -/
theorem readData_lines [Yaml] {name : List Char} (hname : IsSecretName name)
    (es : List (Name × List UInt8)) (x : Name) :
    readData (Text.utf8 (secretHeader name) ++ 10 :: es.flatMap fun e => dataLine e ++ [10]) x =
      (es.mapM readRow).bind fun entries => lastValue entries x.bytes := by
  have hheader := headerLines_spec (feed_not_mem_of_isSecretName hname.valid)
  have hmanifest : (Text.utf8 (secretHeader name) ++ 10 :: es.flatMap fun e => dataLine e ++ [10]) =
      (headerLines name ++ dataKey :: es.map dataLine).flatMap fun line => line ++ [10] := by
    have hrows : (es.flatMap fun e => dataLine e ++ [10]) =
        (es.map dataLine).flatMap fun line => line ++ [10] := by rw [List.flatMap_map]
    rw [← List.singleton_append, ← List.append_assoc, secretHeader_eq, hrows,
      ← List.flatMap_append, List.append_assoc, List.singleton_append]
  have hlines : ∀ line ∈ headerLines name ++ dataKey :: es.map dataLine, 10 ∉ line := by
    intro line hline
    rcases List.mem_append.mp hline with h | h
    · exact (hheader line h).2
    rcases List.mem_cons.mp h with rfl | h
    · decide +kernel
    · obtain ⟨e, -, rfl⟩ := List.mem_map.mp h
      simp [dataLine, e.1.not_mem (b := 10) (by decide), Base64.feed_not_mem_encode]
  have hkey : ∀ line ∈ headerLines name, decide (line ≠ dataKey) = true := fun line hline => by
    simpa using (hheader line hline).1
  have hdrop : (headerLines name ++ dataKey :: (es.map dataLine ++ [[]])).dropWhile (· ≠ dataKey) =
      dataKey :: (es.map dataLine ++ [[]]) := by
    rw [List.dropWhile_append_of_pos hkey]
    simp
  have htake : (headerLines name ++ dataKey :: (es.map dataLine ++ [[]])).takeWhile (· ≠ dataKey) =
      headerLines name := by
    rw [List.takeWhile_append_of_pos hkey]
    simp
  have hrows : (es.map dataLine ++ [[]]).filter (· ≠ []) = es.map dataLine := by
    have hne : ∀ line ∈ es.map dataLine, decide (line ≠ []) = true := by
      intro line hline
      obtain ⟨e, -, rfl⟩ := List.mem_map.mp hline
      simp [dataLine]
    rw [List.filter_append, List.filter_eq_self.mpr hne]
    simp
  rw [readData, hmanifest, splitOn_lines hlines, List.append_assoc, List.cons_append,
    hdrop, htake, findSome?_headerLines, List.tail_cons, hrows, List.mapM_map]
  simp only [Option.bind_eq_bind, Option.bind_some, hname.text, if_true]
  exact congrArg (fun f => (es.mapM f).bind fun entries => lastValue entries x.bytes)
    (funext dataEntry_dataLine)

end ApmeApi.Dotenv
