import ApmeApi.Lib.Lines
import ApmeApi.Lib.Traversal
import ApmeApi.Lib.UnicodeEscape

/-!
# The dotenv parser

`parse` reads the decrypted secrets as names and values. It skips blank lines and comments, and the
rows that `sops` adds; it takes quotes off, and expands the escapes in double quotes by means of the
`unicode_escape` codec, applied to the UTF-8 encoding of what is between them.

A value that is written in double quotes, with its backslashes and controls escaped, comes back as
it was exactly when it is ASCII (`decodesToWritten_iff`): the codec takes every byte of a longer
encoding for a code point of its own.
-/

namespace ApmeApi.Dotenv

open UnicodeEscape Lines

/-- A name and its value. -/
abbrev Pair := List Char × List CodePoint

/-- White space, as `str.strip` removes it: four separators more than the Unicode property. -/
def isSpace (c : Char) : Bool := Text.isWhitespace c || (0x1C ≤ c.toNat && c.toNat ≤ 0x1F)

/-- A letter or an underscore. -/
def isNameStart (c : Char) : Bool :=
  let n := c.toNat
  (65 ≤ n && n ≤ 90) || (97 ≤ n && n ≤ 122) || n = 95

def isNameChar (c : Char) : Bool := isNameStart c || (48 ≤ c.toNat && c.toNat ≤ 57)

/-- Whether a text is a variable name. -/
def isName (k : List Char) : Bool := k.head?.any isNameStart && k.all isNameChar

/-- Whether a line is blank or a comment. -/
def isSkipped (line : List Char) : Bool :=
  line.all isSpace || (line.dropWhile isSpace).head? = some '#'

/-- The name and the value of an assignment, if the line is one. -/
def matchAssignment (line : List Char) : Option (List Char × List Char) :=
  match line.dropWhile isNameChar with
  | '=' :: v =>
    let k := line.takeWhile isNameChar
    if isName k ∧ '\n' ∉ v then some (k, v) else none
  | _ => none

/-- Whether a value stands between two quotes. -/
def isQuoted (quote : Char) (v : List Char) : Bool :=
  2 ≤ v.length && v.head? = some quote && v.getLast? = some quote

/-- A value without the quote at either end. -/
def inner (v : List Char) : List Char := v.tail.dropLast

/-- A value between quotes is what is between them, and the quotes. -/
theorem eq_of_isQuoted {quote : Char} {v : List Char} (h : isQuoted quote v = true) :
    v = quote :: (inner v ++ [quote]) := by
  simp only [isQuoted, Bool.and_eq_true, decide_eq_true_eq] at h
  obtain ⟨⟨hlength, hhead⟩, hlast⟩ := h
  obtain ⟨w, rfl⟩ := List.head?_eq_some_iff.mp hhead
  have hne : w ≠ [] := by
    rintro rfl
    simp at hlength
  rw [List.getLast?_cons_of_ne_nil hne] at hlast
  rw [inner, List.tail_cons, List.dropLast_append_getLast? _ hlast]

section Parser

variable [UnicodeNames]

/-- What a value stands for. -/
def unquote (v : List Char) : Except String (List CodePoint) :=
  if isQuoted '"' v then decode (Text.utf8 (inner v))
  else if isQuoted '\'' v then .ok ((inner v).map ofChar)
  else .ok (v.map ofChar)

/-- An assignment, with its quotes taken off. -/
def parseAssignment (line : List Char) : Except String (Option Pair) :=
  match matchAssignment line with
  | none => .ok none
  | some (k, v) =>
    -- sops' own trailing metadata rows
    if "sops_".toList <+: k then .ok none
    else do
      let v ← unquote v
      return some (k, v)

/-- One line. -/
def parseLine (line : List Char) : Except String (Option Pair) :=
  let line := stripEnd line
  if isSkipped line then .ok none
  else if "export ".toList <+: line then parseAssignment (line.drop "export ".length)
  else parseAssignment line

def parse (stream : List (List Char)) : Except String (List Pair) := do
  let out ← stream.mapM parseLine
  return out.reduceOption

end Parser

/-- Standard input, as the stream of its lines: only a line feed ends one. -/
def stdin (text : List Char) : List (List Char) := keepEnds text

/-! ### Lines -/

theorem not_mem_of_isName {k : List Char} (hk : isName k = true) {c : Char}
    (hc : isNameChar c = false) : c ∉ k := by
  intro hmem
  simp only [isName, Bool.and_eq_true] at hk
  rw [List.all_eq_true.mp hk.2 c hmem] at hc
  cases hc

section Assignment

variable {k v : List Char}

/-- The characters of a name, and what is behind them. -/
theorem span_name (hk : isName k = true) {c : Char} (hc : isNameChar c = false) :
    (k ++ c :: v).takeWhile isNameChar = k ∧ (k ++ c :: v).dropWhile isNameChar = c :: v := by
  simp only [isName, Bool.and_eq_true] at hk
  have hall := List.all_eq_true.mp hk.2
  rw [List.takeWhile_append_of_pos hall, List.dropWhile_append_of_pos hall]
  simp [hc]

theorem matchAssignment_eq (hk : isName k = true) (hv : '\n' ∉ v) :
    matchAssignment (k ++ '=' :: v) = some (k, v) := by
  obtain ⟨htake, hdrop⟩ := span_name (v := v) hk (c := '=') (by decide)
  rw [matchAssignment, hdrop, htake]
  simp [hk, hv]

theorem isSkipped_name (hk : isName k = true) (rest : List Char) :
    isSkipped (k ++ rest) = false := by
  cases k with
  | nil => cases hk
  | cons c k =>
    simp only [isName, Bool.and_eq_true] at hk
    have hstart : isNameStart c = true := hk.1
    have hspace : isSpace c = false := by
      simp only [isNameStart, Bool.or_eq_true, Bool.and_eq_true, decide_eq_true_eq] at hstart
      simp only [isSpace, Text.isWhitespace, Bool.or_eq_false_iff, Bool.and_eq_false_iff,
        decide_eq_false_iff_not, beq_eq_false_iff_ne]
      omega
    have hcomment : c ≠ '#' := by
      rintro rfl
      exact absurd hstart (by decide)
    simp [isSkipped, hspace, hcomment]

/-- A name and an equals sign are no `export`. -/
theorem not_export (hk : isName k = true) : ¬ "export ".toList <+: k ++ '=' :: v := by
  rintro ⟨rest, hrest⟩
  have hname : isName "export".toList = true := by decide
  have hdrop := (span_name (v := v) hk (c := '=') (by decide)).2
  rw [← hrest] at hdrop
  have hdrop' := (span_name (v := rest) hname (c := ' ') (by decide)).2
  have heq := hdrop'.symm.trans hdrop
  exact absurd (List.cons.inj heq).1 (by decide)

/-- **An assignment**, as the parser reads it. -/
theorem parseLine_assignment [UnicodeNames] (hk : isName k = true) (hv : '\n' ∉ v) :
    parseLine (k ++ '=' :: v) =
      if "sops_".toList <+: k then .ok none else (unquote v).map fun s => some (k, s) := by
  have hstrip : stripEnd (k ++ '=' :: v) = k ++ '=' :: v :=
    stripEnd_of_not_mem (by simp [hv, not_mem_of_isName hk (c := '\n') (by decide)])
  rw [parseLine, hstrip]
  rw [if_neg (by simp [isSkipped_name hk]), if_neg (not_export hk), parseAssignment,
    matchAssignment_eq hk hv]
  dsimp only
  split
  · rfl
  · cases unquote v <;> rfl

theorem matchAssignment_eq_some {line : List Char} (h : matchAssignment line = some (k, v)) :
    line = k ++ '=' :: v ∧ isName k = true := by
  rw [matchAssignment] at h
  split at h
  · rename_i v' hdrop
    dsimp only at h
    split at h
    · rename_i hname
      obtain ⟨rfl, rfl⟩ := Prod.mk.inj (Option.some.inj h)
      rw [← hdrop, List.takeWhile_append_dropWhile]
      exact ⟨rfl, hname.1⟩
    · cases h
  · cases h

theorem parseAssignment_eq_some [UnicodeNames] {line : List Char} {p : Pair}
    (h : parseAssignment line = .ok (some p)) :
    ∃ r, line = p.1 ++ '=' :: r ∧ isName p.1 = true ∧ ¬ "sops_".toList <+: p.1 ∧
      unquote r = .ok p.2 := by
  rw [parseAssignment] at h
  split at h
  · cases h
  · rename_i k r hmatch
    obtain ⟨hline, hname⟩ := matchAssignment_eq_some hmatch
    split at h
    · cases h
    · rename_i hsops
      cases hr : unquote r with
      | error e =>
        rw [hr] at h
        cases h
      | ok v =>
        rw [hr] at h
        obtain rfl := Option.some.inj (Except.ok.inj h)
        exact ⟨r, hline, hname, hsops, hr⟩

/-- **What the parser reads is an assignment**, perhaps after `export`. -/
theorem parseLine_eq_some [UnicodeNames] {line : List Char} {p : Pair}
    (h : parseLine line = .ok (some p)) :
    ∃ r, (stripEnd line = p.1 ++ '=' :: r ∨
        stripEnd line = "export ".toList ++ (p.1 ++ '=' :: r)) ∧
      isName p.1 = true ∧ ¬ "sops_".toList <+: p.1 ∧ unquote r = .ok p.2 := by
  rw [parseLine] at h
  split at h
  · cases h
  · split at h
    · rename_i hexport
      obtain ⟨rest, hrest⟩ := hexport
      obtain ⟨r, hline, hspec⟩ := parseAssignment_eq_some h
      have hdrop : (stripEnd line).drop "export ".length = rest := by
        rw [← hrest]
        exact List.drop_left
      rw [hdrop] at hline
      exact ⟨r, .inr (by rw [← hrest, hline]), hspec⟩
    · obtain ⟨r, hline, hspec⟩ := parseAssignment_eq_some h
      exact ⟨r, .inl hline, hspec⟩

end Assignment

/-! ### Streams -/

section Stream

variable [UnicodeNames]

theorem parseLine_of_isSkipped {line : List Char} (h : isSkipped (stripEnd line) = true) :
    parseLine line = .ok none := by
  rw [parseLine]
  rw [if_pos h]

theorem parseLine_stripEnd (line : List Char) : parseLine (stripEnd line) = parseLine line := by
  rw [parseLine, parseLine, stripEnd_idem]

/-- The pairs of a stream come line by line. -/
theorem parse_cons (line : List Char) (stream : List (List Char)) :
    parse (line :: stream) = (do
      let p ← parseLine line
      let ps ← parse stream
      return p.toList ++ ps) := by
  rw [parse, parse, List.mapM_cons]
  cases parseLine line with
  | error e => rfl
  | ok p =>
    cases stream.mapM parseLine with
    | error e => rfl
    | ok ps => cases p <;> rfl

theorem parse_map_stripEnd (stream : List (List Char)) :
    parse (stream.map stripEnd) = parse stream := by
  induction stream with
  | nil => rfl
  | cons line stream ih => rw [List.map_cons, parse_cons, parse_cons, parseLine_stripEnd, ih]

theorem parse_append_empty (stream : List (List Char)) :
    parse (stream ++ [[]]) = parse stream := by
  induction stream with
  | nil => rfl
  | cons line stream ih => rw [List.cons_append, parse_cons, parse_cons, ih]

/-- The lines of a stream, as the parts between line feeds. -/
theorem parse_keepEnds (text : List Char) : parse (keepEnds text) = parse (text.splitOn '\n') := by
  rw [← parse_map_stripEnd]
  rcases splitOn_eq_keepEnds text with h | h
  · rw [h]
  · rw [h, parse_append_empty]

/-- **The lines of standard input**, by where they start. -/
theorem parse_stdin (text : List Char) :
    parse (stdin text) = parse ((starts text).map feedLine) := by
  rw [stdin, parse_keepEnds, splitOn_eq_starts]

end Stream

/-! ### Written values -/

/-- A character as it is written between double quotes. -/
def escapeChar (c : Char) : List Char :=
  if c = '\\' then ['\\', '\\']
  else if c = '\n' then ['\\', 'n']
  else if c = '\t' then ['\\', 't']
  else if c = '\r' then ['\\', 'r']
  else [c]

def escape (v : List Char) : List Char := v.flatMap escapeChar

/-- A **name** that the parser takes. -/
structure Key where
  chars : List Char
  valid : isName chars = true
  not_sops : ¬ "sops_".toList <+: chars

/-- A line of a text: a value in double quotes, or a line that the parser skips. -/
inductive Item where
  | assign (key : Key) (value : List Char)
  | skip (line : List Char) (skipped : isSkipped line = true) (feed : '\n' ∉ line)

namespace Item

/-- The line as it is written. -/
def line : Item → List Char
  | assign key value => key.chars ++ '=' :: ('"' :: (escape value ++ ['"']))
  | skip line _ _ => line

/-- The pair that was written. -/
def pair : Item → Option Pair
  | assign key value => some (key.chars, value.map ofChar)
  | skip _ _ _ => none

/-- The pair that is read: a code point for every byte. -/
def bytePair : Item → Option Pair
  | assign key value => some (key.chars, (Text.utf8 value).map ofByte)
  | skip _ _ _ => none

end Item

/-- The text of lines, with or without an end of the last one. -/
def written (items : List Item) (ended : Bool) : List Char :=
  ['\n'].intercalate (items.map Item.line) ++ if ended then ['\n'] else []

/-- **What was written is read.** -/
def DecodesToWritten [UnicodeNames] (items : List Item) (ended : Bool) : Prop :=
  parse (stdin (written items ended)) = .ok (items.filterMap Item.pair)

section Written

variable [UnicodeNames]

/-- A character decodes to the bytes of its encoding. -/
theorem decode_escapeChar (c : Char) {bs : List UInt8} {s : List CodePoint}
    (h : decode bs = .ok s) :
    decode (Text.utf8 (escapeChar c) ++ bs) =
      .ok ((String.utf8EncodeChar c).map ofByte ++ s) := by
  rw [escapeChar]
  split_ifs with hbackslash hfeed htab hreturn
  · rw [hbackslash]
    exact decode_simpleEscape (b := 92) rfl h
  · rw [hfeed]
    exact decode_simpleEscape (b := 110) rfl h
  · rw [htab]
    exact decode_simpleEscape (b := 116) rfl h
  · rw [hreturn]
    exact decode_simpleEscape (b := 114) rfl h
  · have hplain : ∀ b ∈ String.utf8EncodeChar c, b ≠ 92 := by
      rintro b hb rfl
      exact hbackslash (Char.toNat_inj.mp (Text.toNat_of_mem_utf8EncodeChar hb (by decide)))
    rw [Text.utf8_cons, Text.utf8_nil, List.append_nil]
    generalize String.utf8EncodeChar c = cs at hplain
    induction cs with
    | nil => exact h
    | cons b cs ih =>
      exact decode_byte (hplain b List.mem_cons_self)
        (ih fun b' hb' => hplain b' (List.mem_cons_of_mem _ hb'))

/-- **What is between the quotes** decodes to its encoding, byte by byte. -/
theorem decode_escape (v : List Char) :
    decode (Text.utf8 (escape v)) = .ok ((Text.utf8 v).map ofByte) := by
  induction v with
  | nil => rfl
  | cons c v ih =>
    have happend : Text.utf8 (escape (c :: v)) =
        Text.utf8 (escapeChar c) ++ Text.utf8 (escape v) := by
      rw [escape, List.flatMap_cons]
      exact List.flatMap_append
    rw [happend, decode_escapeChar c ih, Text.utf8_cons, List.map_append]

/-- A value in double quotes that was written. -/
theorem unquote_written (v : List Char) :
    unquote ('"' :: (escape v ++ ['"'])) = .ok ((Text.utf8 v).map ofByte) := by
  have hlast : ('"' :: (escape v ++ ['"'])).getLast? = some '"' := by
    rw [← List.cons_append, List.getLast?_concat]
  have hquoted : isQuoted '"' ('"' :: (escape v ++ ['"'])) = true := by simp [isQuoted, hlast]
  have hinner : inner ('"' :: (escape v ++ ['"'])) = escape v := by simp [inner]
  rw [unquote, if_pos hquoted, hinner, decode_escape]

omit [UnicodeNames] in
theorem not_mem_escape (v : List Char) : '\n' ∉ escape v := by
  have key : ∀ c, '\n' ∉ escapeChar c := by
    intro c
    rw [escapeChar]
    split_ifs with hbackslash hfeed htab hreturn
    · decide
    · decide
    · decide
    · decide
    · simp [Ne.symm hfeed]
  simp only [escape, List.mem_flatMap, not_exists, not_and]
  exact fun c _ => key c

omit [UnicodeNames] in
/-- A line has no end inside. -/
theorem Item.not_mem_line (item : Item) : '\n' ∉ item.line := by
  cases item with
  | assign key value =>
    simp [Item.line, not_mem_of_isName key.valid (c := '\n') (by decide), not_mem_escape]
  | skip line skipped feed => exact feed

theorem parseLine_item (item : Item) : parseLine item.line = .ok item.bytePair := by
  cases item with
  | assign key value =>
    have hfeed : '\n' ∉ '"' :: (escape value ++ ['"']) := by simp [not_mem_escape]
    rw [Item.line, parseLine_assignment key.valid hfeed, if_neg key.not_sops, unquote_written]
    rfl
  | skip line skipped feed =>
    exact parseLine_of_isSkipped (by rwa [Item.line, stripEnd_of_not_mem feed])

theorem parse_items (items : List Item) :
    parse (items.map Item.line) = .ok (items.filterMap Item.bytePair) := by
  induction items with
  | nil => rfl
  | cons item items ih =>
    rw [List.map_cons, parse_cons, parseLine_item, ih, List.filterMap_cons]
    cases item <;> rfl

/-- **What is read of a written text**: every value, a code point for each byte. -/
theorem parse_written (items : List Item) (ended : Bool) :
    parse (stdin (written items ended)) = .ok (items.filterMap Item.bytePair) := by
  have hlines : ∀ l ∈ items.map Item.line, '\n' ∉ l := by
    intro l hl
    obtain ⟨item, -, rfl⟩ := List.mem_map.mp hl
    exact item.not_mem_line
  have hjoined : parse ((['\n'].intercalate (items.map Item.line)).splitOn '\n') =
      .ok (items.filterMap Item.bytePair) := by
    cases items with
    | nil => rfl
    | cons item items => rw [List.splitOn_intercalate _ hlines (by simp), parse_items]
  rw [stdin, parse_keepEnds, written]
  cases ended with
  | false =>
    rw [if_neg (by decide), List.append_nil]
    exact hjoined
  | true =>
    rw [if_pos rfl, List.splitOn_append_cons_self, List.splitOn_nil, parse_append_empty]
    exact hjoined

end Written

/-- A text is as many code points as its encoding has bytes when it is ASCII, and then they are the
same. -/
theorem map_ofByte_eq_iff (v : List Char) :
    (Text.utf8 v).map ofByte = v.map ofChar ↔ ∀ c ∈ v, c.toNat < 0x80 := by
  constructor
  · intro h
    have hlength := congrArg List.length h
    rw [List.length_map, List.length_map] at hlength
    exact Text.length_utf8_eq_iff.mp hlength
  · intro h
    rw [Text.utf8_ascii h, List.map_map]
    refine List.map_congr_left fun c hc => Fin.ext ?_
    change (UInt8.ofNat c.toNat).toNat = c.toNat
    rw [UInt8.toNat_ofNat']
    have := h c hc
    omega

/-- **Exactly when what was written is read**: every value is ASCII. -/
theorem decodesToWritten_iff [UnicodeNames] (items : List Item) (ended : Bool) :
    DecodesToWritten items ended ↔
      ∀ key value, .assign key value ∈ items → ∀ c ∈ value, c.toNat < 0x80 := by
  rw [DecodesToWritten, parse_written, Except.ok.injEq]
  induction items with
  | nil => simp
  | cons item items ih =>
    rw [List.filterMap_cons, List.filterMap_cons]
    cases item with
    | assign key value =>
      simp only [Item.bytePair, Item.pair, List.cons.injEq, Prod.mk.injEq, true_and, ih,
        map_ofByte_eq_iff, List.mem_cons, Item.assign.injEq]
      constructor
      · rintro ⟨hvalue, hrest⟩ key' value' (⟨rfl, rfl⟩ | hmem)
        · exact hvalue
        · exact hrest key' value' hmem
      · intro h
        exact ⟨h key value (.inl ⟨rfl, rfl⟩), fun key' value' hmem => h key' value' (.inr hmem)⟩
    | skip line skipped feed => simpa [Item.bytePair, Item.pair] using ih

/-- **An accented letter** comes back as two. -/
theorem not_decodesToWritten : ¬ ∀ [UnicodeNames] items ended, DecodesToWritten items ended := by
  intro hall
  let names : UnicodeNames := ⟨fun _ => none⟩
  have hdecodes := hall [.assign ⟨['K'], by decide, by decide⟩ ['é']] true
  rw [DecodesToWritten, parse_written] at hdecodes
  exact absurd (congrArg (List.map fun p => p.2.length) (Except.ok.inj hdecodes)) (by decide)

end ApmeApi.Dotenv
