import ApmeApi.Types
import Mathlib.Data.Nat.Digits.Lemmas

/-!
# The notations of identifiers

`Uuid.Notation u cs` says that the text `cs` is one of the notations of the identifier `u`: its
32 hexadecimal digits in either case, plain or with hyphens, the hyphenated form also in braces
or after `urn:uuid:`. The parser accepts exactly the notations (`Uuid.parse_eq_some_iff`).
-/

namespace ApmeApi.Uuid

/-! ### The notations -/

/-- The 32 hexadecimal digits of an identifier, each in either case. -/
def HexDigits (u : Uuid) (ds : List Char) : Prop :=
  ds.map Text.hexValue = (List.range 32).map fun i => some (u.nibble i)

/-- The digits in groups `8-4-4-4-12`. -/
def Hyphenated (u : Uuid) (cs : List Char) : Prop :=
  ∃ a b c d e : List Char, a.length = 8 ∧ b.length = 4 ∧ c.length = 4 ∧ d.length = 4 ∧
    e.length = 12 ∧ u.HexDigits (a ++ b ++ c ++ d ++ e) ∧
    cs = a ++ '-' :: (b ++ '-' :: (c ++ '-' :: (d ++ '-' :: e)))

/-- **The notations of an identifier.** -/
inductive Notation (u : Uuid) : List Char → Prop
  | simple {cs : List Char} (h : u.HexDigits cs) : Notation u cs
  | hyphenated {cs : List Char} (h : u.Hyphenated cs) : Notation u cs
  | braced {cs : List Char} (h : u.Hyphenated cs) : Notation u ('{' :: (cs ++ ['}']))
  | urn {cs : List Char} (h : u.Hyphenated cs) : Notation u ("urn:uuid:".toList ++ cs)

theorem HexDigits.length {u : Uuid} {ds : List Char} (h : u.HexDigits ds) : ds.length = 32 := by
  have hlen := congrArg List.length h
  simpa using hlen

theorem Hyphenated.length {u : Uuid} {cs : List Char} (h : u.Hyphenated cs) : cs.length = 36 := by
  obtain ⟨a, b, c, d, e, ha, hb, hc, hd, he, -, rfl⟩ := h
  simp only [List.length_append, List.length_cons]
  omega

/-- The identifier as `Display` writes it is one of its notations. -/
theorem notation_display (u : Uuid) : u.Notation u.display := by
  refine .hyphenated ⟨u.digits.take 8, (u.digits.drop 8).take 4, (u.digits.drop 12).take 4,
    (u.digits.drop 16).take 4, u.digits.drop 20, by simp, by simp, by simp, by simp, by simp, ?_,
    rfl⟩
  rw [List.append_assoc, List.append_assoc, List.append_assoc, ← u.digits_groups, HexDigits,
    digits, List.map_map]
  exact List.map_congr_left fun i _ => Text.hexValue_hexDigit (u.nibble_lt i)

/-! ### The value of the digits -/

/-- The parser of digits accumulates their value. -/
theorem foldlM_hexValue_eq_some_iff {cs : List Char} {n m : ℕ} :
    cs.foldlM (fun acc c => (Text.hexValue c).map (acc * 16 + ·)) n = some m ↔
      ∃ xs : List ℕ, cs.map Text.hexValue = xs.map some ∧
        xs.foldl (fun acc x => acc * 16 + x) n = m := by
  induction cs generalizing n with
  | nil =>
    constructor
    · intro h
      exact ⟨[], rfl, Option.some.inj h⟩
    · rintro ⟨xs, hxs, rfl⟩
      obtain rfl := List.map_eq_nil_iff.mp hxs.symm
      rfl
  | cons c cs ih =>
    rw [List.foldlM_cons, Option.bind_eq_bind, Option.bind_eq_some_iff]
    constructor
    · rintro ⟨k, hk, h⟩
      obtain ⟨x, hx, rfl⟩ := Option.map_eq_some_iff.mp hk
      obtain ⟨xs, hxs, rfl⟩ := ih.mp h
      exact ⟨x :: xs, by rw [List.map_cons, List.map_cons, hx, hxs], rfl⟩
    · rintro ⟨xs, hxs, rfl⟩
      obtain ⟨x, xs, rfl, hx, hxs⟩ := List.map_eq_cons_iff.mp hxs.symm
      exact ⟨n * 16 + x, by rw [← hx]; rfl, ih.mpr ⟨xs, hxs.symm, rfl⟩⟩

/-- The accumulated value in Horner form. -/
theorem foldl_eq_ofDigits (xs : List ℕ) :
    xs.foldl (fun acc x => acc * 16 + x) 0 = Nat.ofDigits 16 xs.reverse := by
  rw [Nat.ofDigits_eq_foldr, List.foldr_reverse]
  congr
  funext acc x
  simp only [Nat.cast_id]
  ring

/-- The digits as numbers. -/
def nibbles (u : Uuid) : List ℕ := (List.range 32).map u.nibble

theorem nibbles_injective : Function.Injective nibbles := by
  intro u v h
  apply digits_injective
  have hdigits : ∀ w : Uuid, w.digits = w.nibbles.map Text.hexDigit := fun w => by
    rw [nibbles, List.map_map]
    rfl
  rw [hdigits, hdigits, h]

theorem hexDigits_iff {u : Uuid} {ds : List Char} :
    u.HexDigits ds ↔ ds.map Text.hexValue = u.nibbles.map some := by
  rw [nibbles, List.map_map]
  rfl

/-- **The digits of the identifier with a given value.** -/
theorem nibbles_ofDigits {xs : List ℕ} (hlen : xs.length = 32) (hxs : ∀ x ∈ xs, x < 16) :
    nibbles ⟨.ofNat 128 (Nat.ofDigits 16 xs.reverse)⟩ = xs := by
  have hrev : ∀ x ∈ xs.reverse, x < 16 := fun x hx => hxs x (List.mem_reverse.mp hx)
  have hlt : Nat.ofDigits 16 xs.reverse < 2 ^ 128 := by
    have hpow := Nat.ofDigits_lt_base_pow_length (by decide : 1 < 16) hrev
    rw [List.length_reverse, hlen] at hpow
    exact hpow.trans_eq (by norm_num)
  refine List.ext_getElem (by simp [nibbles, hlen]) fun i _ hi => ?_
  -- the digit `i` from the front is the digit `31 - i` from the end
  have hdrop : (xs.reverse.drop (31 - i)).head! = xs[i] := by
    apply List.head!_of_head?
    rw [List.head?_drop, List.getElem?_eq_getElem (by rw [List.length_reverse]; omega),
      List.getElem_reverse]
    exact congrArg some (getElem_congr_idx (by omega))
  simp only [nibbles, List.getElem_map, List.getElem_range, nibble]
  rw [BitVec.extractLsb'_toNat, BitVec.toNat_ofNat, Nat.mod_eq_of_lt hlt,
    Nat.shiftRight_eq_div_pow, pow_mul, show 2 ^ 4 = 16 by norm_num,
    Nat.ofDigits_div_pow_eq_ofDigits_drop _ (by decide) _ hrev, Nat.ofDigits_mod_eq_head!, hdrop,
    Nat.mod_eq_of_lt (hxs _ (List.getElem_mem _))]

/-! ### The parser -/

/-- **The parser of 32 digits.** -/
theorem parseSimple_eq_some_iff {cs : List Char} {u : Uuid} :
    parseSimple cs = some u ↔ u.HexDigits cs := by
  have hnibbles : ∀ xs : List ℕ, cs.length = 32 → cs.map Text.hexValue = xs.map some →
      nibbles ⟨.ofNat 128 (Nat.ofDigits 16 xs.reverse)⟩ = xs := by
    intro xs hlen hxs
    have hlenxs := congrArg List.length hxs
    rw [List.length_map, List.length_map, hlen] at hlenxs
    refine nibbles_ofDigits hlenxs.symm fun x hx => ?_
    have hmem : some x ∈ cs.map Text.hexValue := hxs ▸ List.mem_map_of_mem hx
    obtain ⟨c, -, hc⟩ := List.mem_map.mp hmem
    exact Text.hexValue_lt hc
  constructor
  · intro h
    obtain ⟨hlen, h⟩ := Option.ite_none_right_eq_some.mp h
    obtain ⟨n, hn, rfl⟩ := Option.map_eq_some_iff.mp h
    obtain ⟨xs, hxs, rfl⟩ := foldlM_hexValue_eq_some_iff.mp hn
    rw [foldl_eq_ofDigits, hexDigits_iff, hnibbles xs hlen hxs, hxs]
  · intro h
    have hvalues := hexDigits_iff.mp h
    have hfold := foldlM_hexValue_eq_some_iff.mpr ⟨u.nibbles, hvalues, foldl_eq_ofDigits _⟩
    rw [parseSimple, if_pos h.length, hfold, Option.map_some]
    exact congrArg some (nibbles_injective (hnibbles u.nibbles h.length hvalues))

/-- A group of characters before a hyphen, and what follows it. -/
theorem group {cs x r : List Char} {n m : ℕ} (h : cs.drop n = x ++ '-' :: r)
    (hx : x.length = m) :
    cs[n + m]? = some '-' ∧ cs.drop (n + m + 1) = r ∧ (cs.drop n).take m = x := by
  have hhyphen : cs.drop (n + m) = '-' :: r := by
    rw [← List.drop_drop, h, List.drop_left' hx]
  refine ⟨?_, ?_, ?_⟩
  · rw [← List.head?_drop, hhyphen, List.head?_cons]
  · rw [← List.drop_drop, hhyphen, List.drop_one, List.tail_cons]
  · rw [h, List.take_left' hx]

/-- **The parser of the hyphenated form.** -/
theorem parseHyphenated_eq_some_iff {cs : List Char} {u : Uuid} :
    parseHyphenated cs = some u ↔ u.Hyphenated cs := by
  constructor
  · intro h
    obtain ⟨⟨hlen, h8, h13, h18, h23⟩, h⟩ := Option.ite_none_right_eq_some.mp h
    have hcut : ∀ n, cs[n]? = some '-' → cs.drop n = '-' :: cs.drop (n + 1) := by
      intro n hn
      obtain ⟨hn, he⟩ := List.getElem?_eq_some_iff.mp hn
      rw [List.drop_eq_getElem_cons hn, he]
    have hgroup : ∀ n, cs.drop n = (cs.drop n).take 4 ++ cs.drop (n + 4) := fun n => by
      rw [← List.drop_drop, List.take_append_drop]
    refine ⟨cs.take 8, (cs.drop 9).take 4, (cs.drop 14).take 4, (cs.drop 19).take 4, cs.drop 24,
      ?_, ?_, ?_, ?_, ?_, parseSimple_eq_some_iff.mp h, ?_⟩
    rotate_right
    · rw [← hcut 23 h23, ← hgroup 19, ← hcut 18 h18, ← hgroup 14, ← hcut 13 h13, ← hgroup 9,
        ← hcut 8 h8, List.take_append_drop]
    all_goals
      simp only [List.length_take, List.length_drop]
      omega
  · rintro ⟨a, b, c, d, e, ha, hb, hc, hd, he, hdigits, rfl⟩
    have hlen : (a ++ '-' :: (b ++ '-' :: (c ++ '-' :: (d ++ '-' :: e)))).length = 36 :=
      Hyphenated.length ⟨a, b, c, d, e, ha, hb, hc, hd, he, hdigits, rfl⟩
    obtain ⟨h8, h9, ha⟩ := group (n := 0) rfl ha
    obtain ⟨h13, h14, hb⟩ := group h9 hb
    obtain ⟨h18, h19, hc⟩ := group h14 hc
    obtain ⟨h23, h24, hd⟩ := group h19 hd
    rw [List.drop_zero] at ha
    rw [parseHyphenated, if_pos ⟨hlen, h8, h13, h18, h23⟩, ha, hb, hc, hd, h24]
    exact parseSimple_eq_some_iff.mpr hdigits

/-- **The parser accepts exactly the notations** of an identifier. -/
theorem parse_eq_some_iff {s : String} {u : Uuid} : parse s = some u ↔ Notation u s.toList := by
  simp only [parse]
  generalize s.toList = cs
  constructor
  · intro h
    -- the forms have different lengths
    split_ifs at h with h32 h36 hbraced
    · exact .simple (parseSimple_eq_some_iff.mp h)
    · exact .hyphenated (parseHyphenated_eq_some_iff.mp h)
    · obtain ⟨hlen, hhead, hlast⟩ := hbraced
      obtain ⟨ys, rfl⟩ := List.getLast?_eq_some_iff.mp hlast
      cases ys with
      | nil => cases hlen
      | cons y ys =>
        obtain rfl := Option.some.inj hhead
        rw [List.cons_append, List.tail_cons, List.dropLast_concat] at h
        exact .braced (parseHyphenated_eq_some_iff.mp h)
    · obtain ⟨r, hr, h⟩ := Option.bind_eq_some_iff.mp h
      obtain rfl := Text.stripPrefixList_eq_some_iff.mp hr
      exact .urn (parseHyphenated_eq_some_iff.mp h)
  · intro h
    cases h with
    | simple h => rw [if_pos h.length, parseSimple_eq_some_iff.mpr h]
    | hyphenated h =>
      rw [if_neg (by rw [h.length]; decide), if_pos h.length, parseHyphenated_eq_some_iff.mpr h]
    | @braced cs h =>
      have hlen : ('{' :: (cs ++ ['}'])).length = 38 := by
        rw [List.length_cons, List.length_append, h.length]
        rfl
      have hends : ('{' :: (cs ++ ['}'])).head? = some '{' ∧
          ('{' :: (cs ++ ['}'])).getLast? = some '}' := by
        rw [← List.cons_append, List.getLast?_concat]
        exact ⟨rfl, rfl⟩
      rw [if_neg (by rw [hlen]; decide), if_neg (by rw [hlen]; decide), if_pos ⟨hlen, hends⟩,
        List.tail_cons, List.dropLast_concat, parseHyphenated_eq_some_iff.mpr h]
    | @urn cs h =>
      have hlen : ("urn:uuid:".toList ++ cs).length = 45 := by
        rw [List.length_append, h.length]
        rfl
      rw [if_neg (by rw [hlen]; decide), if_neg (by rw [hlen]; decide),
        if_neg (fun hbraced => absurd (hlen.symm.trans hbraced.1) (by decide)),
        Text.stripPrefixList_eq_some_iff.mpr rfl, Option.bind_some,
        parseHyphenated_eq_some_iff.mpr h]

end ApmeApi.Uuid
