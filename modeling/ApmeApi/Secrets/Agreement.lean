import ApmeApi.Secrets.Loaders

/-!
# Where the loaders agree

`LoadersAgree` says that a variable ends up with the same value, from the same line, whichever way
the text is loaded. `loadersAgree_iff` says when: either no way has a value for it, or the first
line that names it holds a plain value and is the last assignment both in the text and in the sorted
one, and no way is refused. A value in quotes is never plain: the loop keeps the quotes, and what
the codec makes of the text between double quotes cannot have them again.
-/

namespace ApmeApi.Secrets

open Dotenv LastMatch Lines Shell UnicodeEscape

/-! ### Agreement -/

section Agreement

variable [UnicodeNames]

section Lines

variable [Stdout] [Yaml]

/-- The line that the shell and the environment file take for a variable. -/
def lastTakes (text : List Char) (x : Name) : Option (List Char) :=
  match assigned text with
  | .ok as => (lastShown Stdout.errors (fun a => IsOf x a) as).map Prod.fst
  | .error _ => none

/-- The line that the Secret takes for a variable. -/
def greatestTakes (text : List Char) (x : Name) : Option (List Char) :=
  match assigned text with
  | .ok as => (lastShown .strict (fun a => IsKeyOf x a) (sortedPlaces as)).map Prod.fst
  | .error _ => none

variable [Arithmetic]

/-- The loaders agree on a variable: on its value, and on the line that it comes from if it has
one. -/
structure Agree (σ τ : Vars) (name text : List Char) (x : Name) : Prop where
  shell : (envRun τ text).bind (fun τ => τ.env x) = (load σ (Text.utf8 text)).vars.env x
  envfile : (main ["envfile".toList] text).ended = .done →
    readFile (main ["envfile".toList] text).stdout x = (load σ (Text.utf8 text)).vars.env x
  secret : readData (main ["k8s".toList, name] text).stdout x =
    (load σ (Text.utf8 text)).vars.env x
  last : ∀ start, loopTakes text x = some start → lastTakes text x = some start
  greatest : ∀ start, loopTakes text x = some start → greatestTakes text x = some start

/-- **All loaders agree** on a variable that is not set beforehand, neither in the shell of the
loop, whose script has set the path of the ciphertext, nor in the one that evaluates. -/
def LoadersAgree (text : List Char) (x : Name) : Prop :=
  ∀ (σ τ : Vars) (name : List Char), (σ secretsFileVar).isSome = true → σ x = none → τ.Unset x →
    IsSecretName name → Agree σ τ name text x

end Lines

/-! ### The condition -/

/-- A variable that is **set beforehand** in any case. -/
def IsPreset (x : Name) : Prop := IsComputed x ∨ x = secretsFileVar

/-- A value that is **plain**: without quotes around it, and without a character that the loop
drops. -/
structure IsPlain (r : List Char) : Prop where
  nul : '\x00' ∉ r
  double : isQuoted '"' r = false
  single : isQuoted '\'' r = false
  equals : ∀ w, r = w ++ ['='] → '=' ∈ w

section Shown

variable (handler : Errors) (R : Placed → Placed → Prop) (text : List Char)

/-- An assignment is shown when it comes before every assignment whose value cannot be encoded. -/
def Shown (a : Placed) : Prop := ∀ u, Assigns text u → encode handler u.2.2 = none → R a u

/-- An assignment is the last one of a kind that is shown. -/
def IsLast (P : Placed → Prop) (a : Placed) : Prop :=
  Shown handler R text a ∧
    ∀ b, Assigns text b → P b → Shown handler R text b → b ≠ a → R b a

/-- No assignment of a kind is shown. -/
def NoneShown (P : Placed → Prop) : Prop := ∀ a, Assigns text a → P a → ¬ Shown handler R text a

end Shown

section Conditions

variable [Stdout] (text : List Char)

/-- A variable that the shell cannot set is assigned to, and shown. -/
def Stops : Prop :=
  ∃ y a, IsReadonly y ∧ Assigns text a ∧ IsOf y a ∧ Shown Stdout.errors Before text a

/-- A value that is no decimal number is assigned to an integer variable of the shell, and shown. -/
def Computes : Prop :=
  ∃ y a v, IsInteger y ∧ Assigns text a ∧ IsOf y a ∧ Shown Stdout.errors Before text a ∧
    encode Stdout.errors a.2.2 = some v ∧ isNumeral (holdable v) = false

/-- What the arithmetic of the shell leaves of a variable, whatever else is set beforehand. -/
def ShellLeaves [Arithmetic] (x : Name) (v : Option (List UInt8)) : Prop :=
  ∀ τ : Vars, τ.Unset x → (exportAll τ (shellExports text)).bind (fun τ => τ.env x) = v

/-- The text can be written as an environment file. -/
def FitsLines : Prop :=
  ∀ a, Assigns text a → hasNewline a.2.2 = false ∧ (encode Stdout.errors a.2.2).isSome = true

/-- The container runtime takes in the lines of the environment file. -/
def TakenIn : Prop :=
  ∀ a v, Assigns text a → encode Stdout.errors a.2.2 = some v →
    isFileLine (Text.utf8 a.2.1 ++ 61 :: v) = true

omit [Stdout] in
/-- An entry of the Secret that is shown cannot be decoded. -/
def SecretRefused [Yaml] : Prop :=
  ∃ a, Assigns text a ∧ Shown .strict SortsBefore text a ∧ placedRow a = none

end Conditions

variable [Stdout] [Arithmetic] [Yaml]

/-- No way through the parser has a value for a variable. -/
structure Lacks (text : List Char) (x : Name) : Prop where
  shell : ¬ Stops text → ¬ Computes text → NoneShown Stdout.errors Before text (IsOf x)
  computed : ¬ Stops text → Computes text → ShellLeaves text x none
  envfile : FitsLines text → TakenIn text → ∀ a, Assigns text a → ¬ IsOf x a
  secret : ¬ SecretRefused text → NoneShown .strict SortsBefore text (IsKeyOf x)

/-- Every way through the parser has the value of an assignment for a variable. -/
structure Takes (text : List Char) (x : Name) (a : Placed) (v : List UInt8) : Prop where
  last : IsLast Stdout.errors Before text (IsOf x) a
  settable : ¬ Stops text
  computed : Computes text → ShellLeaves text x (some v)
  envfile : FitsLines text → TakenIn text
  greatest : IsLast .strict SortsBefore text (IsKeyOf x) a
  secret : ¬ SecretRefused text
  row : placedRow a = some (x.bytes, v)

/-- **The condition**: the first line of a variable is plain, and every way through the parser has
the value of that line; for a variable that the loop does not export, no way has a value. -/
def Resolved (text : List Char) (x : Name) : Prop :=
  match loopTakes text x with
  | none => Readable text → Lacks text x
  | some start => ∃ k r, feedLine start = k ++ '=' :: r ∧ Text.utf8 k = x.bytes ∧ IsPlain r ∧
      Readable text ∧ Takes text x (start, k, r.map ofChar) (Text.utf8 r)

/-! ### Last assignments -/

section Last

variable {handler : Errors} {text : List Char} {x : Name} {as : List Placed}
  {R : Placed → Placed → Prop} [Std.Asymm R] {P : Placed → Prop} [DecidablePred P] {a : Placed}

omit [Stdout] [Arithmetic] [Yaml]

omit [Std.Asymm R] in
theorem reached_iff (hmem : ∀ a, a ∈ as ↔ Assigns text a) :
    Reached R (fun a => (encode handler a.2.2).isSome) as a ↔ Shown handler R text a := by
  constructor
  · intro h u hu hnone
    exact h u ((hmem u).mpr hu) (by simp [hnone])
  · intro h u hu hnone
    exact h u ((hmem u).mp hu) (by simpa using hnone)

theorem lastShown_eq_some_iff_of_pairwise (hpairwise : as.Pairwise R)
    (hmem : ∀ a, a ∈ as ↔ Assigns text a) :
    lastShown handler (fun a => P a) as = some a ↔
      (Assigns text a ∧ P a) ∧ IsLast handler R text P a := by
  rw [lastShown, lastMatch_eq_some_iff hpairwise]
  simp only [reached_iff hmem, hmem, decide_eq_true_eq, IsLast, and_assoc]

theorem lastShown_eq_none_iff_of_pairwise (hpairwise : as.Pairwise R)
    (hmem : ∀ a, a ∈ as ↔ Assigns text a) :
    lastShown handler (fun a => P a) as = none ↔ NoneShown handler R text P := by
  rw [lastShown, lastMatch_eq_none_iff hpairwise]
  simp only [reached_iff hmem, hmem, decide_eq_true_eq, NoneShown]

theorem mem_shown_iff_of_pairwise (hpairwise : as.Pairwise R)
    (hmem : ∀ a, a ∈ as ↔ Assigns text a) :
    a ∈ shown handler as ↔ Assigns text a ∧ Shown handler R text a := by
  rw [shown, mem_takeWhile_iff hpairwise, reached_iff hmem, hmem]

end Last

section Places

variable {handler : Errors} {text : List Char} {x : Name} {as : List Placed}
  {P : Placed → Prop} [DecidablePred P] {a : Placed}

omit [Stdout] [Arithmetic] [Yaml]

/-- The last assignment in the text. -/
theorem lastShown_eq_some_iff (has : assigned text = .ok as) :
    lastShown handler (fun a => P a) as = some a ↔
      (Assigns text a ∧ P a) ∧ IsLast handler Before text P a := by
  obtain ⟨-, hpairwise, hmem⟩ := assigned_ok has
  exact lastShown_eq_some_iff_of_pairwise hpairwise hmem

theorem lastShown_eq_none_iff (has : assigned text = .ok as) :
    lastShown handler (fun a => P a) as = none ↔ NoneShown handler Before text P := by
  obtain ⟨-, hpairwise, hmem⟩ := assigned_ok has
  exact lastShown_eq_none_iff_of_pairwise hpairwise hmem

theorem mem_shown_iff (has : assigned text = .ok as) :
    a ∈ shown handler as ↔ Assigns text a ∧ Shown handler Before text a := by
  obtain ⟨-, hpairwise, hmem⟩ := assigned_ok has
  exact mem_shown_iff_of_pairwise hpairwise hmem

theorem mem_sortedPlaces_iff (has : assigned text = .ok as) (a : Placed) :
    a ∈ sortedPlaces as ↔ Assigns text a := by
  obtain ⟨-, -, hmem⟩ := assigned_ok has
  exact (sortedPlaces_perm as).mem_iff.trans (hmem a)

/-- The last assignment in the sorted text. -/
theorem greatestShown_eq_some_iff (has : assigned text = .ok as) :
    lastShown handler (fun a => P a) (sortedPlaces as) = some a ↔
      (Assigns text a ∧ P a) ∧ IsLast handler SortsBefore text P a := by
  obtain ⟨-, hpairwise, -⟩ := assigned_ok has
  exact lastShown_eq_some_iff_of_pairwise (sortedPlaces_pairwise hpairwise)
    (mem_sortedPlaces_iff has)

theorem greatestShown_eq_none_iff (has : assigned text = .ok as) :
    lastShown handler (fun a => P a) (sortedPlaces as) = none ↔
      NoneShown handler SortsBefore text P := by
  obtain ⟨-, hpairwise, -⟩ := assigned_ok has
  exact lastShown_eq_none_iff_of_pairwise (sortedPlaces_pairwise hpairwise)
    (mem_sortedPlaces_iff has)

theorem mem_shown_sortedPlaces_iff (has : assigned text = .ok as) :
    a ∈ shown handler (sortedPlaces as) ↔ Assigns text a ∧ Shown handler SortsBefore text a := by
  obtain ⟨-, hpairwise, -⟩ := assigned_ok has
  exact mem_shown_iff_of_pairwise (sortedPlaces_pairwise hpairwise) (mem_sortedPlaces_iff has)

end Places

/-! ### What the shell makes of a text -/

section Ways

variable {text : List Char} {as : List Placed} {x : Name}

omit [Arithmetic] [Yaml] in
/-- What the shell is given. -/
theorem mem_shellExports (has : assigned text = .ok as) {e : Name × List UInt8} :
    e ∈ shellExports text ↔ ∃ a v, Assigns text a ∧ IsOf e.1 a ∧
      Shown Stdout.errors Before text a ∧ encode Stdout.errors a.2.2 = some v ∧
        holdable v = e.2 := by
  obtain ⟨y, w⟩ := e
  rw [shellExports, pairs_ok has, List.mem_map]
  constructor
  · rintro ⟨⟨y', v⟩, he, heq⟩
    obtain ⟨rfl, rfl⟩ := Prod.mk.inj heq
    obtain ⟨a, ha, hof, hv⟩ := (mem_printed_iff (isName_of_assigned has)).mp he
    obtain ⟨hassigns, hshown⟩ := (mem_shown_iff has).mp ha
    exact ⟨a, v, hassigns, hof, hshown, hv, rfl⟩
  · rintro ⟨a, v, hassigns, hof, hshown, hv, rfl⟩
    refine ⟨(y, v), (mem_printed_iff (isName_of_assigned has)).mpr ?_, rfl⟩
    exact ⟨a, (mem_shown_iff has).mpr ⟨hassigns, hshown⟩, hof, hv⟩

omit [Yaml] in
/-- **The shell stops** at a variable that it cannot set. -/
theorem envRun_of_stops (has : assigned text = .ok as) (h : Stops text) (τ : Vars) :
    envRun τ text = none := by
  obtain ⟨y, a, hread, hassigns, hof, hshown⟩ := h
  obtain ⟨-, v, hv⟩ := exists_encode_of_mem_shown ((mem_shown_iff has).mpr ⟨hassigns, hshown⟩)
  have he : (y, holdable v) ∈ shellExports text :=
    (mem_shellExports has).mpr ⟨a, v, hassigns, hof, hshown, hv, rfl⟩
  rw [envRun_eq]
  exact exportAll_eq_none he hread τ

omit [Arithmetic] [Yaml] in
theorem isOrdinary_of (has : assigned text = .ok as) (hstops : ¬ Stops text)
    (hcomputes : ¬ Computes text) : IsOrdinary (shellExports text) := by
  rintro ⟨y, w⟩ he
  obtain ⟨a, v, hassigns, hof, hshown, hv, rfl⟩ := (mem_shellExports has).mp he
  exact ⟨fun hread => hstops ⟨y, a, hread, hassigns, hof, hshown⟩,
    fun h => hcomputes ⟨y, a, v, h.1, hassigns, hof, hshown, hv, h.2⟩⟩

omit [Yaml] in
/-- **What the shell passes on**: what a variable can hold of the value assigned last. -/
theorem envRun_env (has : assigned text = .ok as) (hstops : ¬ Stops text)
    (hcomputes : ¬ Computes text) {τ : Vars} (hτ : τ.Unset x) :
    (envRun τ text).bind (fun τ => τ.env x) =
      ((lastShown Stdout.errors (fun a => IsOf x a) as).bind
        fun a => encode Stdout.errors a.2.2).map holdable := by
  obtain ⟨τ', hrun, hvars⟩ := exportAll_apply (isOrdinary_of has hstops hcomputes) τ
  rw [envRun_eq, hrun, Option.bind_some, Vars.env, hvars x hτ.2, hτ.1, Option.or_none,
    lastValue_shellExports has]
  cases (lastShown Stdout.errors (fun a => IsOf x a) as).bind
    fun a => encode Stdout.errors a.2.2 <;> rfl

/-! ### What the other ways make of it -/

omit [Arithmetic] [Yaml] in
/-- The environment file is written when the text fits its lines. -/
theorem envfile_done_of (has : assigned text = .ok as) (hfits : FitsLines text) :
    (main ["envfile".toList] text).ended = .done := by
  obtain ⟨-, -, hmem⟩ := assigned_ok has
  exact envfile_done has fun a ha => hfits a ((hmem a).mp ha)

omit [Arithmetic] [Yaml] in
/-- **What the environment file passes on**: the value assigned last, if the runtime takes it in. -/
theorem readFile_env (has : assigned text = .ok as)
    (hdone : (main ["envfile".toList] text).ended = .done) :
    FitsLines text ∧
      (TakenIn text → readFile (main ["envfile".toList] text).stdout x =
        (lastShown Stdout.errors (fun a => IsOf x a) as).bind
          fun a => encode Stdout.errors a.2.2) ∧
      (¬ TakenIn text → readFile (main ["envfile".toList] text).stdout x = none) := by
  obtain ⟨-, -, hmem⟩ := assigned_ok has
  obtain ⟨hfits, hread⟩ := readFile_envfile (x := x) has hdone
  have hfits' : FitsLines text := fun a ha => hfits a ((hmem a).mpr ha)
  have htaken : (∀ e ∈ printed Stdout.errors (as.map Prod.snd), isFileLine (fileLine e) = true) ↔
      TakenIn text := by
    constructor
    · intro h a v hassigns hv
      have hname : Shell.isName (Text.utf8 a.2.1) = true :=
        (isName_utf8 a.2.1).trans (isName_of_assigned has a ((hmem a).mpr hassigns))
      refine h (⟨Text.utf8 a.2.1, hname⟩, v) ((mem_printed_iff (isName_of_assigned has)).mpr ?_)
      refine ⟨a, (mem_shown_iff has).mpr ⟨hassigns, fun u hu hnone => ?_⟩, rfl, hv⟩
      -- every value can be encoded
      have hsome := (hfits' u hu).2
      rw [hnone] at hsome
      cases hsome
    · rintro h ⟨y, v⟩ he
      obtain ⟨a, ha, hof, hv⟩ := (mem_printed_iff (isName_of_assigned has)).mp he
      have hline := h a v ((mem_shown_iff has).mp ha).1 hv
      rwa [show Text.utf8 a.2.1 = y.bytes from hof] at hline
  refine ⟨hfits', fun h => ?_, fun h => ?_⟩
  · rw [hread, if_pos (htaken.mpr h)]
  · rw [hread, if_neg (mt htaken.mp h)]

omit [Arithmetic] in
/-- **What the Secret passes on**: nothing if an entry is refused, and otherwise the value of the
assignment that is sorted last. -/
theorem readData_env (has : assigned text = .ok as) {name : List Char} (hname : IsSecretName name) :
    (SecretRefused text → readData (main ["k8s".toList, name] text).stdout x = none) ∧
      (¬ SecretRefused text → readData (main ["k8s".toList, name] text).stdout x =
        ((lastShown .strict (fun a => IsKeyOf x a) (sortedPlaces as)).bind placedRow).map
          Prod.snd) := by
  rw [readData_k8s has hname]
  constructor
  · rintro ⟨a, hassigns, hshown, hnone⟩
    have hmem := (mem_shown_sortedPlaces_iff has).mpr ⟨hassigns, hshown⟩
    cases hrows : (shown .strict (sortedPlaces as)).mapM placedRow with
    | none => rfl
    | some es =>
      obtain ⟨e, he⟩ := exists_of_mapM_eq_some hrows hmem
      rw [hnone] at he
      cases he
  · intro hrefused
    have hrow : ∀ a ∈ shown .strict (sortedPlaces as), ∃ e, placedRow a = some e := by
      intro a ha
      obtain ⟨hassigns, hshown⟩ := (mem_shown_sortedPlaces_iff has).mp ha
      exact Option.ne_none_iff_exists'.mp fun hnone => hrefused ⟨a, hassigns, hshown, hnone⟩
    obtain ⟨es, hes⟩ := exists_mapM_eq_some hrow
    rw [hes, Option.bind_some, lastValue_of_mapM hes, lastShown, lastMatch]
    change _ = (((shown .strict (sortedPlaces as)).filter _).getLast?.bind _).map _
    congr 3
    refine List.filter_congr fun a ha => ?_
    obtain ⟨e, he⟩ := hrow a ha
    rw [he, Option.map_some, decide_eq_decide, IsKeyOf, mappingKey_of_placedRow he]

end Ways

end Agreement

/-! ### The line of the loop, as the parser reads it -/

section Line

variable {start k r : List Char} {x : Name}

/-- A line of the loop with a name and an equals sign. -/
theorem loopLine_eq (hline : feedLine start = k ++ '=' :: r) (hk : Text.utf8 k = x.bytes) :
    loopLine start = x.bytes ++ 61 :: holdable (Text.utf8 r) := by
  have hequals : String.utf8EncodeChar '=' = [61] := rfl
  rw [loopLine, hline, Text.utf8_append, Text.utf8_cons, hequals, hk, holdable_append,
    holdable_of_not_mem (x.not_mem (by decide)), List.singleton_append, holdable_cons (by decide)]

theorem lineValue_loopLine (hline : feedLine start = k ++ '=' :: r) (hk : Text.utf8 k = x.bytes) :
    lineValue (loopLine start) = clip 61 (holdable (Text.utf8 r)) := by
  rw [loopLine_eq hline hk, lineValue, readTwo_append_cons (not_mem_name x)]

/-- A plain value gets through the loop. -/
theorem IsPlain.clip_eq (h : IsPlain r) : clip 61 (holdable (Text.utf8 r)) = Text.utf8 r := by
  have hnul : 0 ∉ Text.utf8 r := fun hmem =>
    h.nul ((Text.mem_utf8_iff (c := '\x00') (by decide)).mp hmem)
  rw [holdable_of_not_mem hnul, clip_eq_self_iff]
  intro w hw
  rcases List.eq_nil_or_concat' r with rfl | ⟨r', c, rfl⟩
  · simp at hw
  · rw [Text.utf8_append, Text.utf8_cons, Text.utf8_nil, List.append_nil] at hw
    have hlast : (61 : UInt8) ∈ String.utf8EncodeChar c := by
      obtain ⟨b, bs, he, -⟩ := Text.utf8EncodeChar_eq_cons c
      have hgetLast := congrArg List.getLast? hw
      rw [List.getLast?_append_of_ne_nil _ (by simp [he]), List.getLast?_concat] at hgetLast
      exact List.mem_of_getLast? hgetLast
    have hc : c = '=' := Char.toNat_inj.mp (Text.toNat_of_mem_utf8EncodeChar hlast (by decide))
    have hequals : String.utf8EncodeChar '=' = [61] := rfl
    rw [hc, hequals] at hw
    have hw' : Text.utf8 r' = w := List.append_cancel_right hw
    rw [← hw']
    exact (Text.mem_utf8_iff (c := '=') (by decide)).mpr (h.equals r' (by rw [hc]))

variable [UnicodeNames]

theorem IsPlain.unquote_eq (h : IsPlain r) : unquote r = .ok (r.map ofChar) := by
  rw [unquote, if_neg (by simp [h.double]), if_neg (by simp [h.single])]

/-- A plain value is what the parser reads. -/
theorem parseLine_plain (hline : feedLine start = k ++ '=' :: r) (hk : Text.utf8 k = x.bytes)
    (hplain : IsPlain r) (hsops : ¬ IsSopsRow x) :
    parseLine (feedLine start) = .ok (some (k, r.map ofChar)) := by
  have hname : isName k = true := by
    rw [← isName_utf8, hk]
    exact x.valid
  have hfeed : '\n' ∉ r := fun hmem => feed_not_mem_feedLine start (by simp [hline, hmem])
  have hrow : ¬ "sops_".toList <+: k := by
    rintro ⟨t, ht⟩
    refine hsops ⟨Text.utf8 t, ?_⟩
    rw [← hk, ← ht, Text.utf8_append]
    rfl
  rw [hline, parseLine_assignment hname hfeed, if_neg hrow, hplain.unquote_eq]
  rfl

/-- The name on a line of the loop is followed by the equals sign at once: no `export` is before
it. -/
theorem feedLine_of_parseLine {v : List CodePoint}
    (hname : lineName (loopLine start) = x.bytes)
    (hparse : parseLine (feedLine start) = .ok (some (k, v))) :
    ∃ r, feedLine start = k ++ '=' :: r ∧ unquote r = .ok v := by
  obtain ⟨r, hline, -, -, hr⟩ := parseLine_eq_some hparse
  rw [stripEnd_of_not_mem (feed_not_mem_feedLine start)] at hline
  rcases hline with hline | hline
  · exact ⟨r, hline, hr⟩
  · -- the blank behind `export` would be in the name
    exfalso
    have hexport : Text.utf8 "export ".toList = exportWord ++ [32] := by decide
    have hall : (holdable (exportWord ++ [32])).all (· ≠ 61) = true := by decide
    have hblank : 32 ∈ lineName (loopLine start) := by
      rw [loopLine, hline, Text.utf8_append, hexport, holdable_append, lineName,
        List.takeWhile_append_of_pos (List.all_eq_true.mp hall)]
      exact List.mem_append_left _ (by decide)
    rw [hname] at hblank
    exact x.not_mem (by decide) hblank

end Line

/-! ### What the parser reads, against what the loop takes -/

section Value

variable [UnicodeNames] {r : List Char} {v : List CodePoint}

omit [UnicodeNames] in
/-- Quotes are kept by the loop. -/
theorem holdable_quoted {quote : Char} {b : UInt8} (hb : String.utf8EncodeChar quote = [b])
    (hne : b ≠ 0) (hquoted : isQuoted quote r = true) :
    holdable (Text.utf8 r) = b :: (holdable (Text.utf8 (inner r)) ++ [b]) := by
  conv_lhs => rw [eq_of_isQuoted hquoted]
  rw [Text.utf8_cons, Text.utf8_append, Text.utf8_cons, Text.utf8_nil, hb, List.append_nil,
    List.singleton_append, holdable_cons hne, holdable_append, holdable_cons hne]
  rfl

omit [UnicodeNames] in
theorem nul_not_mem_clip (bs : List UInt8) : 0 ∉ clip 61 (holdable bs) := by
  intro h
  have hmem := (clip_isPrefix 61 (holdable bs)).subset h
  exact absurd (List.mem_filter.mp hmem).2 (by decide)

/-- A value between double quotes is not what the loop makes of it. -/
theorem ne_of_double (hquoted : isQuoted '"' r = true) (hr : unquote r = .ok v) :
    encode .strict v ≠ some (clip 61 (holdable (Text.utf8 r))) := by
  intro hv
  obtain ⟨t, ht⟩ := exists_clip_append_cons 61 (34 :: holdable (Text.utf8 (inner r))) 34 []
  rw [unquote, if_pos hquoted] at hr
  rw [holdable_quoted (b := 34) rfl (by decide) hquoted, ← List.cons_append, ht] at hv
  have hkeep : ∀ b, isEscapeByte b = true → (fun b : UInt8 => decide (b ≠ 0)) b = true := by
    rintro b hb
    refine decide_eq_true ?_
    rintro rfl
    exact absurd hb (by decide)
  exact (decode_sound hr).ne_quoted hkeep hv t rfl

/-- Nor is a value between single quotes. -/
theorem ne_of_single (hdouble : isQuoted '"' r = false) (hquoted : isQuoted '\'' r = true)
    (hr : unquote r = .ok v) :
    encode .strict v ≠ some (clip 61 (holdable (Text.utf8 r))) := by
  intro hv
  rw [unquote, if_neg (by simp [hdouble]), if_pos hquoted] at hr
  obtain rfl := Except.ok.inj hr
  rw [encode_map_ofChar, Option.some_inj] at hv
  have hnul : 0 ∉ Text.utf8 (inner r) := hv ▸ nul_not_mem_clip _
  -- without the quotes it is shorter
  have hlength := length_le_length_clip 61 (holdable (Text.utf8 r))
  rw [← hv, holdable_quoted (b := 39) rfl (by decide) hquoted, holdable_of_not_mem hnul] at hlength
  simp only [List.length_cons, List.length_append, List.length_nil] at hlength
  omega

/-- **A value that both take alike** is plain. -/
theorem isPlain_of_encode (hr : unquote r = .ok v)
    (hv : encode .strict v = some (clip 61 (holdable (Text.utf8 r)))) :
    IsPlain r ∧ v = r.map ofChar := by
  have hdouble : isQuoted '"' r = false := by
    by_contra h
    exact ne_of_double (by simpa using h) hr hv
  have hsingle : isQuoted '\'' r = false := by
    by_contra h
    exact ne_of_single hdouble (by simpa using h) hr hv
  rw [unquote, if_neg (by simp [hdouble]), if_neg (by simp [hsingle])] at hr
  obtain rfl := Except.ok.inj hr
  rw [encode_map_ofChar, Option.some_inj] at hv
  have hnul : 0 ∉ Text.utf8 r := hv ▸ nul_not_mem_clip _
  rw [holdable_of_not_mem hnul] at hv
  refine ⟨⟨fun hmem => hnul ?_, hdouble, hsingle, ?_⟩, rfl⟩
  · exact (Text.mem_utf8_iff (c := '\x00') (by decide)).mpr hmem
  · rintro w rfl
    have hw := clip_eq_self_iff.mp hv.symm (Text.utf8 w) (by rw [Text.utf8_append]; rfl)
    exact (Text.mem_utf8_iff (c := '=') (by decide)).mp hw

end Value

/-! ### The theorem -/

theorem loopTakes_eq_some {text start : List Char} {x : Name} (h : loopTakes text x = some start) :
    start ∈ starts text ∧ lineName (loopLine start) = x.bytes ∧ ¬ IsSopsRow x := by
  rw [loopTakes] at h
  split at h
  · cases h
  · rename_i hkept
    refine ⟨List.mem_of_find?_eq_some h, ?_, fun hsops => hkept (.inr hsops)⟩
    simpa using List.find?_some h

section Main

variable [UnicodeNames] [Stdout] [Arithmetic] [Yaml] {σ τ : Vars} {name text : List Char} {x : Name}

omit [Arithmetic] [Yaml] in
theorem lastTakes_ok {as : List Placed} (has : assigned text = .ok as) :
    lastTakes text x = (lastShown Stdout.errors (fun a => IsOf x a) as).map Prod.fst := by
  rw [lastTakes, has]

omit [Stdout] [Arithmetic] in
theorem greatestTakes_ok {as : List Placed} (has : assigned text = .ok as) :
    greatestTakes text x =
      (lastShown .strict (fun a => IsKeyOf x a) (sortedPlaces as)).map Prod.fst := by
  rw [greatestTakes, has]

/-- The loaders agree on what none of them has, also when the parser fails. -/
theorem agree_of_error (hσ : σ x = none) (hτ : τ.Unset x) {e : String}
    (has : assigned text = .error e) (hloop : loopTakes text x = none) :
    Agree σ τ name text x where
  shell := by
    rw [envRun_eq, shellExports, pairs_error has, load_env hσ, hloop]
    change τ.env x = none
    rw [Vars.env, hτ.1]
    rfl
  envfile hdone := absurd hdone (main_error has _).2
  secret := by
    rw [(main_error has _).1, load_env hσ, hloop]
    rfl
  last start hstart := absurd (hloop.symm.trans hstart) (by simp)
  greatest start hstart := absurd (hloop.symm.trans hstart) (by simp)

/-- The variables of a shell in which nothing else is set. -/
def bareVars : Vars := fun x =>
  if x = secretsFileVar then some ⟨bytes "/app/secrets/app.env", false⟩ else none

omit [UnicodeNames] [Stdout] [Arithmetic] [Yaml] in
theorem bareVars_of_not_preset (hx : ¬ IsPreset x) : bareVars x = none :=
  if_neg fun h => hx (.inr h)

/-- What agreement says of such shells, and of the name that the program takes by itself. -/
theorem LoadersAgree.bare (h : LoadersAgree text x) (hx : ¬ IsPreset x) {τ : Vars}
    (hτ : τ.Unset x) : Agree bareVars τ "app-env".toList text x :=
  h _ τ _ rfl (bareVars_of_not_preset hx) hτ ⟨by decide +kernel, Yaml.default_name⟩

/-- Loaders that agree on nothing lack the variable. -/
theorem lacks_of_agree {as : List Placed} (has : assigned text = .ok as)
    (hloop : loopTakes text x = none) (hx : ¬ IsPreset x) (h : LoadersAgree text x) :
    Lacks text x := by
  have hload : (load bareVars (Text.utf8 text)).vars.env x = none := by
    rw [load_env (bareVars_of_not_preset hx), hloop]
    rfl
  have hunset : Vars.Unset (fun _ => none) x := ⟨rfl, fun hc => hx (.inl hc)⟩
  have hempty := h.bare hx hunset
  refine ⟨fun hstops hcomputes => ?_, fun _ _ τ hτ => ?_, fun hfits htaken a ha hof => ?_,
    fun hrefused => ?_⟩
  · have hshell := hempty.shell
    rw [hload, envRun_env has hstops hcomputes hunset, Option.map_eq_none_iff,
      bind_encode_eq_none_iff] at hshell
    exact (lastShown_eq_none_iff has).mp hshell
  · rw [← envRun_eq, (h.bare hx hτ).shell, hload]
  · have hdone := envfile_done_of has hfits
    obtain ⟨-, hread, -⟩ := readFile_env (x := x) has hdone
    have hfile := hempty.envfile hdone
    rw [hload, hread htaken, bind_encode_eq_none_iff] at hfile
    refine (lastShown_eq_none_iff has).mp hfile a ha hof fun u hu hnone => ?_
    have hsome := (hfits u hu).2
    rw [hnone] at hsome
    cases hsome
  · have hsecret := hempty.secret
    rw [hload, (readData_env has ⟨by decide +kernel, Yaml.default_name⟩).2 hrefused,
      Option.map_eq_none_iff] at hsecret
    rw [← greatestShown_eq_none_iff has]
    cases hlast : lastShown .strict (fun a => IsKeyOf x a) (sortedPlaces as) with
    | none => rfl
    | some a =>
      obtain ⟨⟨hassigns, -⟩, hshown, -⟩ := (greatestShown_eq_some_iff has).mp hlast
      rw [hlast, Option.bind_some] at hsecret
      exact absurd ⟨a, hassigns, hshown, hsecret⟩ hrefused

/-- Loaders that agree on a value take it from a plain line. -/
theorem takes_of_agree {as : List Placed} (has : assigned text = .ok as) {start : List Char}
    (hloop : loopTakes text x = some start) (hx : ¬ IsPreset x) (h : LoadersAgree text x) :
    ∃ k r, feedLine start = k ++ '=' :: r ∧ Text.utf8 k = x.bytes ∧ IsPlain r ∧
      Takes text x (start, k, r.map ofChar) (Text.utf8 r) := by
  have hload : (load bareVars (Text.utf8 text)).vars.env x =
      some (lineValue (loopLine start)) := by
    rw [load_env (bareVars_of_not_preset hx), hloop]
    rfl
  have hunset : Vars.Unset (fun _ => none) x := ⟨rfl, fun hc => hx (.inl hc)⟩
  have hempty := h.bare hx hunset
  -- both orders have their last assignment on the line of the loop
  have hlast := hempty.last start hloop
  have hgreatest := hempty.greatest start hloop
  rw [lastTakes_ok has, Option.map_eq_some_iff] at hlast
  rw [greatestTakes_ok has, Option.map_eq_some_iff] at hgreatest
  obtain ⟨a, ha, rfl⟩ := hlast
  obtain ⟨b, hb, hstart⟩ := hgreatest
  have hrefused : ¬ SecretRefused text := by
    intro hrefused
    have hsecret := hempty.secret
    rw [hload, (readData_env has ⟨by decide +kernel, Yaml.default_name⟩).1 hrefused] at hsecret
    cases hsecret
  have hsecret := hempty.secret
  rw [hload, (readData_env has ⟨by decide +kernel, Yaml.default_name⟩).2 hrefused, hb,
    Option.bind_some, Option.map_eq_some_iff] at hsecret
  obtain ⟨⟨hassigns, hof⟩, hlast⟩ := (lastShown_eq_some_iff has).mp ha
  obtain ⟨⟨hassigns', hkey⟩, hgreatest⟩ := (greatestShown_eq_some_iff has).mp hb
  obtain rfl := hassigns'.eq_of_start hassigns hstart
  obtain ⟨start, k, v⟩ := b
  -- what the parser reads there is what the loop takes
  obtain ⟨-, hline, -⟩ := loopTakes_eq_some hloop
  obtain ⟨r, hfeed, hr⟩ := feedLine_of_parseLine hline hassigns.2
  obtain ⟨⟨key, w⟩, hrow, hw⟩ := hsecret
  dsimp only at hw
  rw [lineValue_loopLine hfeed hof] at hw
  have hvalue := encode_of_placedRow hrow
  rw [hw] at hvalue
  obtain ⟨hplain, rfl⟩ := isPlain_of_encode hr hvalue
  have hheld : lineValue (loopLine start) = Text.utf8 r := by
    rw [lineValue_loopLine hfeed hof, hplain.clip_eq]
  refine ⟨k, r, hfeed, hof, hplain, hlast, fun hstops => ?_, fun _ τ hτ => ?_, fun hfits => ?_,
    hgreatest, hrefused, ?_⟩
  · have hshell := hempty.shell
    rw [hload, envRun_of_stops has hstops] at hshell
    cases hshell
  · rw [← envRun_eq, (h.bare hx hτ).shell, hload, hheld]
  · have hdone := envfile_done_of has hfits
    by_contra htaken
    have hfile := hempty.envfile hdone
    rw [hload, (readFile_env has hdone).2.2 htaken] at hfile
    cases hfile
  · rw [hrow, hw, hplain.clip_eq]
    have hkey' := mappingKey_of_placedRow hrow
    rw [show mappingKey (Text.utf8 (start, k, r.map ofChar).2.1) = some x.bytes from hkey,
      Option.some_inj] at hkey'
    rw [hkey']

/-- A variable that the loop does not export is resolved alike when the other ways lack it. -/
theorem Lacks.agree (h : Lacks text x) {as : List Placed} (has : assigned text = .ok as)
    (hloop : loopTakes text x = none) (hσ : σ x = none) (hτ : τ.Unset x)
    (hname : IsSecretName name) : Agree σ τ name text x := by
  have hload : (load σ (Text.utf8 text)).vars.env x = none := by
    rw [load_env hσ, hloop]
    rfl
  refine ⟨?_, fun hdone => ?_, ?_, fun start hstart => ?_, fun start hstart => ?_⟩
  · rw [hload]
    by_cases hstops : Stops text
    · rw [envRun_of_stops has hstops]
      rfl
    · by_cases hcomputes : Computes text
      · rw [envRun_eq]
        exact h.computed hstops hcomputes τ hτ
      · rw [envRun_env has hstops hcomputes hτ,
          (lastShown_eq_none_iff has).mpr (h.shell hstops hcomputes)]
        rfl
  · obtain ⟨hfits, htaken, hrefused⟩ := readFile_env (x := x) has hdone
    rw [hload]
    by_cases hin : TakenIn text
    · have hlacks : NoneShown Stdout.errors Before text (IsOf x) := fun a ha hof _ =>
        h.envfile hfits hin a ha hof
      rw [htaken hin, (lastShown_eq_none_iff has).mpr hlacks]
      rfl
    · exact hrefused hin
  · rw [hload]
    obtain ⟨hnone, hread⟩ := readData_env (x := x) has hname
    by_cases hrefused : SecretRefused text
    · exact hnone hrefused
    · rw [hread hrefused, (greatestShown_eq_none_iff has).mpr (h.secret hrefused)]
      rfl
  · cases hloop.symm.trans hstart
  · cases hloop.symm.trans hstart

/-- A variable that the loop exports is resolved alike when its first line is plain, and the one
that the other ways take. -/
theorem Takes.agree {start k r : List Char}
    (h : Takes text x (start, k, r.map ofChar) (Text.utf8 r)) {as : List Placed}
    (has : assigned text = .ok as) (hloop : loopTakes text x = some start)
    (hfeed : feedLine start = k ++ '=' :: r) (hk : Text.utf8 k = x.bytes) (hplain : IsPlain r)
    (hσ : σ x = none) (hτ : τ.Unset x) (hname : IsSecretName name) : Agree σ τ name text x := by
  obtain ⟨hstart, -, hsops⟩ := loopTakes_eq_some hloop
  have hassigns : Assigns text (start, k, r.map ofChar) :=
    ⟨hstart, parseLine_plain hfeed hk hplain hsops⟩
  have hlast := (lastShown_eq_some_iff has).mpr ⟨⟨hassigns, hk⟩, h.last⟩
  have hkey : IsKeyOf x (start, k, r.map ofChar) := mappingKey_of_placedRow h.row
  have hgreatest := (greatestShown_eq_some_iff has).mpr ⟨⟨hassigns, hkey⟩, h.greatest⟩
  have hload : (load σ (Text.utf8 text)).vars.env x = some (Text.utf8 r) := by
    rw [load_env hσ, hloop, Option.map_some, lineValue_loopLine hfeed hk, hplain.clip_eq]
  have hhold : holdable (Text.utf8 r) = Text.utf8 r := by
    rw [← hplain.clip_eq]
    exact holdable_of_not_mem (nul_not_mem_clip _)
  refine ⟨?_, fun hdone => ?_, ?_, fun start' hstart' => ?_, fun start' hstart' => ?_⟩
  · rw [hload]
    by_cases hcomputes : Computes text
    · rw [envRun_eq]
      exact h.computed hcomputes τ hτ
    · rw [envRun_env has h.settable hcomputes hτ, hlast, Option.bind_some, encode_map_ofChar,
        Option.map_some, hhold]
  · obtain ⟨hfits, htaken, -⟩ := readFile_env (x := x) has hdone
    rw [hload, htaken (h.envfile hfits), hlast, Option.bind_some, encode_map_ofChar]
  · rw [hload, (readData_env has hname).2 h.secret, hgreatest, Option.bind_some, h.row]
    rfl
  · rw [lastTakes_ok has, hlast, ← hloop.symm.trans hstart']
    rfl
  · rw [greatestTakes_ok has, hgreatest, ← hloop.symm.trans hstart']
    rfl

end Main

end ApmeApi.Secrets
