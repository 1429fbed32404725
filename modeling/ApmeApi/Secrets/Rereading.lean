import ApmeApi.Secrets.Folding

/-!
# Environment files as working copies

`env-docker-env-file` leaves its file where the working copy is, and the other recipes take it for
one: `env-encrypt` folds it back. An environment file has no quotes that delimit a value, and the
parser takes quotes off. So the file still stands for what the environment assigned when no value
stands between two quotes of a kind, and otherwise never (`env_file_reread`).
-/

namespace ApmeApi.Secrets

open Dotenv Interaction Lines Shell UnicodeEscape

/-! ### Rows -/

/-- A name and a value, as they stand on a line. -/
abbrev Row := List Char × List Char

namespace Row

def pair (r : Row) : Pair := (r.1, r.2.map ofChar)

def line (r : Row) : List Char := r.1 ++ '=' :: r.2

/-- A row that the parser takes for an assignment, on a line of its own. -/
structure Valid (r : Row) : Prop where
  name : isName r.1 = true
  not_sops : ¬ "sops_".toList <+: r.1
  feed : '\n' ∉ r.2

/-- A value without quotes around it. -/
def Bare (r : Row) : Prop := isQuoted '"' r.2 = false ∧ isQuoted '\'' r.2 = false

end Row

/-- The file with a line for each row. -/
def fileOf (rows : List Row) : List Char := rows.flatMap fun r => r.line ++ ['\n']

theorem fileOf_cons (r : Row) (rows : List Row) :
    fileOf (r :: rows) = r.line ++ '\n' :: fileOf rows := by
  rw [fileOf, List.flatMap_cons, List.append_assoc, List.singleton_append, fileOf]

theorem Row.Valid.not_mem_line {r : Row} (h : r.Valid) : '\n' ∉ r.line := by
  simp [Row.line, not_mem_of_isName h.name (c := '\n') (by decide), h.feed]

/-! ### What is printed of rows -/

/-- A row as it is printed. -/
theorem asExport_row {handler : Errors} {r : Row} (hr : r.Valid) :
    asExport handler r.pair =
      some (⟨Text.utf8 r.1, (isName_utf8 r.1).trans hr.name⟩, Text.utf8 r.2) := by
  rw [asExport_eq (p := r.pair) hr.name]
  dsimp only [Row.pair]
  rw [encode_map_ofChar, Option.map_some]

theorem printed_rows {handler : Errors} {rows : List Row} (hrows : ∀ r ∈ rows, r.Valid) :
    (printed handler (rows.map Row.pair)).flatMap (fun e => fileLine e ++ [10]) =
      Text.utf8 (fileOf rows) := by
  induction rows with
  | nil => rfl
  | cons r rows ih =>
    have hexport : asExport handler r.pair = _ := asExport_row (hrows r List.mem_cons_self)
    have hequals : String.utf8EncodeChar '=' = [61] := rfl
    have hfeed : String.utf8EncodeChar '\n' = [10] := rfl
    rw [List.map_cons, printed_cons, hexport]
    dsimp only
    rw [List.flatMap_cons, ih fun r' hr' => hrows r' (List.mem_cons_of_mem _ hr'), fileOf_cons,
      Text.utf8_append, Text.utf8_cons, hfeed, Row.line, Text.utf8_append, Text.utf8_cons, hequals]
    simp [fileLine]

/-- A row without NUL whose line is not too long is taken in by the container runtime. -/
theorem isFileLine_of_mem_printed {handler : Errors} {rows : List Row}
    (hrows : ∀ r ∈ rows, r.Valid)
    (hlines : ∀ r ∈ rows, '\x00' ∉ r.2 ∧ (Text.utf8 r.line).length < 65536) :
    ∀ e ∈ printed handler (rows.map Row.pair), isFileLine (fileLine e) = true := by
  intro e he
  obtain ⟨p, hp, hexport⟩ := mem_printed he
  obtain ⟨r, hr, rfl⟩ := List.mem_map.mp hp
  rw [asExport_row (hrows r hr), Option.some_inj] at hexport
  have hline : fileLine e = Text.utf8 r.line := by
    have hequals : String.utf8EncodeChar '=' = [61] := rfl
    rw [← hexport, Row.line, Text.utf8_append, Text.utf8_cons, hequals, List.singleton_append,
      fileLine]
  obtain ⟨hnul, hlength⟩ := hlines r hr
  have hnul' : '\x00' ∉ r.line := by
    simp [Row.line, not_mem_of_isName (hrows r hr).name (c := '\x00') (by decide), hnul]
  have hbyte : 0 ∉ Text.utf8 r.line := mt (Text.mem_utf8_iff (c := '\x00') (by decide)).mp hnul'
  simp [hline, isFileLine, Text.utf8Decode_utf8, hbyte, hlength]

section

variable [UnicodeNames]

/-! ### What is read of rows -/

/-- **Reading rows again**: of each value what `unquote` makes of it. -/
theorem parse_rows {rows : List Row} (hrows : ∀ r ∈ rows, r.Valid) :
    parse (stdin (fileOf rows)) = rows.mapM fun r => (unquote r.2).map fun v => (r.1, v) := by
  rw [stdin, parse_keepEnds]
  induction rows with
  | nil => rfl
  | cons r rows ih =>
    have hr := hrows r List.mem_cons_self
    have hline : parseLine r.line = (unquote r.2).map fun v => some (r.1, v) := by
      rw [Row.line, parseLine_assignment hr.name hr.feed, if_neg hr.not_sops]
    rw [fileOf_cons, List.splitOn_append_cons_self_of_not_mem hr.not_mem_line, parse_cons, hline,
      ih fun r' hr' => hrows r' (List.mem_cons_of_mem _ hr'), List.mapM_cons]
    cases unquote r.2 <;> rfl

/-- **Quotes are always taken off**: no value between quotes is read as it stands. -/
theorem unquote_self_iff (w : List Char) :
    unquote w = .ok (w.map ofChar) ↔ isQuoted '"' w = false ∧ isQuoted '\'' w = false := by
  constructor
  · intro h
    have hdouble : isQuoted '"' w = false := by
      by_contra hquoted
      rw [Bool.not_eq_false] at hquoted
      rw [unquote, if_pos hquoted] at h
      have hw : Text.utf8 w = 34 :: (Text.utf8 (inner w) ++ [34]) := by
        conv_lhs => rw [eq_of_isQuoted hquoted, Text.utf8_cons, Text.utf8_append]
        rfl
      have hkeep : ∀ b, isEscapeByte b = true → (fun _ : UInt8 => true) b = true := fun _ _ => rfl
      have hplain : encode .strict (w.map ofChar) = some (Text.utf8 w) := encode_map_ofChar w
      refine (decode_sound h).ne_quoted hkeep hplain [34] ?_
      rw [hw, List.filter_true]
    refine ⟨hdouble, ?_⟩
    by_contra hquoted
    rw [Bool.not_eq_false] at hquoted
    rw [unquote, if_neg (by simp [hdouble]), if_pos hquoted, Except.ok.injEq] at h
    -- without the quotes it is shorter
    have hlength := congrArg List.length (eq_of_isQuoted hquoted)
    have hinner := congrArg List.length h
    simp only [List.length_map, List.length_cons, List.length_append, List.length_nil]
      at hlength hinner
    omega
  · rintro ⟨hdouble, hsingle⟩
    rw [unquote, if_neg (by simp [hdouble]), if_neg (by simp [hsingle])]

/-- Rows are read as the pairs that they were made of when every value is bare. -/
theorem parse_rows_iff {rows : List Row} (hrows : ∀ r ∈ rows, r.Valid) :
    parse (stdin (fileOf rows)) = .ok (rows.map Row.pair) ↔ ∀ r ∈ rows, r.Bare := by
  rw [parse_rows hrows]
  clear hrows
  induction rows with
  | nil => exact iff_of_true rfl (by simp)
  | cons r rows ih =>
    rw [List.mapM_cons, List.forall_mem_cons, ← ih, List.map_cons, Row.Bare, ← unquote_self_iff]
    cases hr : unquote r.2 with
    | error e => exact iff_of_false (by rintro ⟨⟩) (by simp)
    | ok v =>
      cases hrest : rows.mapM fun r => (unquote r.2).map fun v => (r.1, v) with
      | error e => exact iff_of_false (by rintro ⟨⟩) (by simp)
      | ok ps =>
        change Except.ok ((r.1, v) :: ps) = .ok (r.pair :: rows.map Row.pair) ↔ _
        simp only [Except.ok.injEq, List.cons.injEq, Row.pair, Prod.mk.injEq, true_and]

/-! ### The rows of a text -/

/-- What a text assigns is never taken for a row of `sops`. -/
theorem name_of_mem_pairs {text : List Char} {p : Pair} (hp : p ∈ pairs text) :
    isName p.1 = true ∧ ¬ "sops_".toList <+: p.1 := by
  rcases pairs_cases text with ⟨as, has, hpairs⟩ | ⟨e, -, -, hpairs⟩
  · rw [hpairs] at hp
    obtain ⟨a, ha, rfl⟩ := List.mem_map.mp hp
    obtain ⟨-, -, hmem⟩ := assigned_ok has
    obtain ⟨r, -, hname, hsops, -⟩ := parseLine_eq_some ((hmem a).mp ha).2
    exact ⟨hname, hsops⟩
  · rw [hpairs] at hp
    cases hp

variable [Stdout]

/-- **What fits an environment file** is the pairs of rows, if no value has a surrogate. -/
theorem FitsFile.exists_rows {text : List Char} (h : FitsFile text)
    (hchars : ∀ p ∈ pairs text, (encode .strict p.2).isSome = true) :
    ∃ rows : List Row, pairs text = rows.map Row.pair ∧ ∀ r ∈ rows, r.Valid := by
  have hrow : ∀ p ∈ pairs text, ∃ r : Row, r.Valid ∧ r.pair = p := by
    rintro ⟨k, v⟩ hp
    obtain ⟨hname, hsops⟩ := name_of_mem_pairs hp
    obtain ⟨w, rfl⟩ := exists_eq_map_ofChar (hchars _ hp)
    have hline := h.lines _ hp
    simp only [hasNewline, Bool.or_eq_false_iff, decide_eq_false_iff_not] at hline
    exact ⟨(k, w), ⟨hname, hsops, fun hmem => hline.1 (List.mem_map_of_mem hmem)⟩, rfl⟩
  generalize pairs text = ps at hrow
  induction ps with
  | nil => exact ⟨[], rfl, by simp⟩
  | cons p ps ih =>
    obtain ⟨r, hr, rfl⟩ := hrow p List.mem_cons_self
    obtain ⟨rows, rfl, hrows⟩ := ih fun q hq => hrow q (List.mem_cons_of_mem _ hq)
    exact ⟨r :: rows, rfl, List.forall_mem_cons.mpr ⟨hr, hrows⟩⟩

/-! ### The recipe -/

/-- **An environment file in the place of a working copy.** When `env-docker-env-file` has run,
alone and to its end, on an environment whose values have no surrogates, the working copy has a line
for each pair that the environment assigns, and nothing else has changed. A container that is given
the file with `--env-file` reads of each name the value that was assigned last, if no value has a
NUL and no line is too long. The parser reads the pairs of the environment if no value stands
between two quotes of a kind, and otherwise never. `env-encrypt` makes the file the text of the
environment, as it is or as `sops` writes it. -/
theorem env_file_reread [Sops] (hsops : SopsContract) {s s' : Checkout} {n : EnvName}
    (h : Succeeds (envDockerEnvFile n) s () s')
    (hchars : ∀ text, s.textOf n = some text →
      ∀ p ∈ pairs text, (encode .strict p.2).isSome = true) :
    ∃ (text : List Char) (rows : List Row), s.textOf n = some text ∧
      pairs text = rows.map Row.pair ∧
      s' = { s with copies := s.copies.insert n ⟨Text.utf8 (fileOf rows), 0o600⟩ } ∧
      ((∀ r ∈ rows, '\x00' ∉ r.2 ∧ (Text.utf8 r.line).length < 65536) →
        ∀ x, readFile (Text.utf8 (fileOf rows)) x =
          lastValue (printed Stdout.errors (pairs text)) x) ∧
      (parse (stdin (fileOf rows)) = parse (stdin text) ↔ ∀ r ∈ rows, r.Bare) ∧
      ∀ names s₂, Succeeds (envEncrypt names) s' () s₂ → Selected names s'.copies.keys n →
        ∃ text', s₂.textOf n = some text' ∧
          (text' = fileOf rows ∨ Sops.normal (Text.utf8 (fileOf rows)) = some text') := by
  obtain ⟨text, htext, hok, rfl⟩ := Succeeds.of_materialise h
  have hfits : FitsFile text := (envfile_done_iff text).mp (succeeded_iff.mp hok)
  obtain ⟨rows, hpairs, hrows⟩ := hfits.exists_rows (hchars text htext)
  obtain ⟨hstdout, hlines⟩ := envfile_stdout hfits
  have hfile : (main ["envfile".toList] text).stdout = Text.utf8 (fileOf rows) := by
    rw [hstdout, hpairs, printed_rows hrows]
  have hparse : parse (stdin text) = .ok (rows.map Row.pair) := by
    obtain ⟨ps, hps⟩ := hfits.parses
    rw [← hpairs, pairs, hps]
    rfl
  refine ⟨text, rows, htext, hpairs, ?_, fun hrunnable x => ?_, ?_, fun names s₂ hfold hn => ?_⟩
  · change { s with copies := s.copies.insert n ⟨(main ["envfile".toList] text).stdout, _⟩ } = _
    rw [hfile]
  · rw [← hfile, hstdout, readFile_lines hlines, hpairs,
      if_pos (isFileLine_of_mem_printed hrows hrunnable)]
  · rw [hparse, parse_rows_iff hrows]
  · obtain ⟨l, hl, hloop⟩ := hfold.of_envEncrypt
    obtain ⟨-, -, hfolded, -⟩ := hloop.of_encryptAll hsops
    obtain ⟨f, text', hf, htext', hcontent⟩ := hfolded n ((hl n).mpr hn)
    have hcopy : f.content = Text.utf8 (fileOf rows) := by
      rw [AList.lookup_insert] at hf
      rw [← Option.some.inj hf]
      exact hfile
    rw [hcopy] at hcontent
    exact ⟨text', htext', hcontent.imp (fun h => (Text.utf8_injective h).symm) id⟩

end

/-- An environment whose value has single quotes of its own. -/
def quotedCheckout : Checkout :=
  ⟨AList.singleton devName (0x45 :: bytes "A=\"'x'\"\n"), ∅, fun _ => none⟩

theorem env_file_reread_quoted :
    letI : UnicodeNames := ⟨fun _ => none⟩
    letI : Stdout := ⟨.strict⟩
    letI := markingSops
    ∃ s' text rows, Succeeds (envDockerEnvFile devName) quotedCheckout () s' ∧
      quotedCheckout.textOf devName = some text ∧
      s'.copies.lookup devName = some ⟨Text.utf8 (fileOf rows), 0o600⟩ ∧
      parse (stdin (fileOf rows)) ≠ parse (stdin text) := by
  let _ : UnicodeNames := ⟨fun _ => none⟩
  let _ : Stdout := ⟨.strict⟩
  let _ := markingSops
  have hdone : (Prog.run recipeMachine (envDockerEnvFile devName).run (fun _ => obeyed)
      quotedCheckout).1 = .ok () := by decide +kernel
  have h := Succeeds.of_run hdone
  have hdecoded : quotedCheckout.textOf devName = some "A=\"'x'\"\n".toList := by decide +kernel
  have hvalues : pairs "A=\"'x'\"\n".toList = [(['A'], "'x'".toList.map ofChar)] := by
    decide +kernel
  have hchars : ∀ text, quotedCheckout.textOf devName = some text →
      ∀ p ∈ pairs text, (encode .strict p.2).isSome = true := by
    intro text htext p hp
    obtain rfl := Option.some.inj (hdecoded.symm.trans htext)
    rw [hvalues, List.mem_singleton] at hp
    rw [hp, encode_map_ofChar, Option.isSome_some]
  obtain ⟨text, rows, htext, hpairs, hafter, -, hiff, -⟩ :=
    env_file_reread markingSops_contract h hchars
  refine ⟨_, text, rows, h, htext, by rw [hafter, AList.lookup_insert], fun hsame => ?_⟩
  obtain rfl := Option.some.inj (hdecoded.symm.trans htext)
  rw [hvalues] at hpairs
  obtain ⟨r, rows, rfl, hr, -⟩ := List.map_eq_cons_iff.mp hpairs.symm
  have hvalue : r.2.map ofChar = "'x'".toList.map ofChar := congrArg Prod.snd hr
  have hquoted : r.2 = "'x'".toList := List.map_injective_iff.mpr ofChar_injective hvalue
  have hbare := (hiff.mp hsame r List.mem_cons_self).2
  rw [hquoted] at hbare
  exact absurd hbare (by decide)

end ApmeApi.Secrets
