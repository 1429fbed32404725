import Mathlib

/-!
# Web origins

The origin of a web page is a scheme, a host and a port, and a browser sends it as a text
(`Origin.text`): the host as its URL parser leaves it, in lower case, and the port only when the
scheme does not imply it. A host is a name, an IPv4 address in four decimal numbers, or an IPv6
address between brackets, whose first longest run of zero groups is written as a double colon.

A text in a configuration can also have capital letters in the host and the port that goes without
saying (`IsOrigin`). Whether it has a host is decided by the grammar of the three kinds (`isHost`),
and the grammar has exactly the hosts that browsers write (`isHost_iff`), so that every such text
names an origin that a browser sends (`isOrigin_iff`).

A wildcard is no host, although the URL parser knows nothing of wildcards. Which labels are
those of internationalized names is left to the tables of Unicode (`Idna`).
-/

namespace Web

/-! ### Names -/

/-- The labels that internationalized names are encoded in. -/
class Idna where
  isLabel : List Char → Bool

/-- The characters that stand in hosts and ports: printable ASCII that the URL parser does not
forbid there. The asterisk is left out. -/
def isAuthorityChar (c : Char) : Bool :=
  0x21 ≤ c.toNat && c.toNat < 0x7F && !"#%*/<>?@\\^|".toList.elem c

/-- A character of a name in lower case. -/
def isNameChar (c : Char) : Bool := isAuthorityChar c && !c.isUpper && !":[]".toList.elem c

/-- A hexadecimal digit in lower case. -/
def isHexDigit (c : Char) : Bool := "0123456789abcdef".toList.elem c

/-- A label that the URL parser takes for a number: decimal digits, or a hexadecimal number. -/
def isNumber : List Char → Bool
  | '0' :: 'x' :: digits => digits.all isHexDigit
  | digits => !digits.isEmpty && digits.all Char.isDigit

/-- Whether the last label, without a dot at the end, is a number. Such a host is read as an IPv4
address. -/
def endsInNumber (host : List Char) : Bool :=
  match (host.splitOn '.').reverse with
  | [] :: label :: _ => isNumber label
  | label :: _ => isNumber label
  | [] => false

/-- Whether a text in lower case is a name. -/
def isName [Idna] (host : List Char) : Bool :=
  !host.isEmpty && host.all isNameChar && !endsInNumber host &&
    (host.splitOn '.').all fun label =>
      !"xn--".toList.isPrefixOf label || Idna.isLabel label

/-! ### Addresses -/

/-- A number below 256 in decimal notation. -/
def isByte (digits : List Char) : Bool :=
  (List.range 256).any fun n => digits = Nat.toDigits 10 n

/-- Whether a text is an IPv4 address: four numbers between dots. -/
def isDotted (host : List Char) : Bool :=
  (host.splitOn '.').length = 4 && (host.splitOn '.').all isByte

/-- A group of an IPv6 address: up to four hexadecimal digits, with no zero before others. -/
def isGroup (digits : List Char) : Bool :=
  digits = ['0'] || (!digits.isEmpty && digits.length ≤ 4 && digits.head? ≠ some '0' &&
    digits.all isHexDigit)

/-- The zero groups at the start. -/
def zeroRun (groups : List (List Char)) : ℕ := (groups.takeWhile fun g => g = ['0']).length

/-- Place and length of the first of the longest runs of zero groups. -/
def longestRun : List (List Char) → ℕ × ℕ
  | [] => (0, 0)
  | g :: gs =>
    if zeroRun (g :: gs) < (longestRun gs).2 then ((longestRun gs).1 + 1, (longestRun gs).2)
    else (0, zeroRun (g :: gs))

/-- Groups between colons. -/
def joinGroups (groups : List (List Char)) : List Char := [':'].intercalate groups

/-- **The text of an IPv6 address**: a run of at least two zero groups, the first of the longest
ones, is a double colon. -/
def addressText (groups : List (List Char)) : List Char :=
  if (longestRun groups).2 < 2 then joinGroups groups
  else joinGroups (groups.take (longestRun groups).1) ++ ':' :: ':' ::
    joinGroups (groups.drop ((longestRun groups).1 + (longestRun groups).2))

/-- What stands before and behind the first double colon. -/
def splitDouble : List Char → Option (List Char × List Char)
  | [] => none
  | ':' :: ':' :: rest => some ([], rest)
  | c :: rest => (splitDouble rest).map (Prod.map (List.cons c) id)

/-- The groups in a text without a double colon. -/
def groupsOf (l : List Char) : List (List Char) := if l = [] then [] else l.splitOn ':'

/-- The groups that a text stands for. A double colon stands for all the zero groups that miss. -/
def readGroups (body : List Char) : List (List Char) :=
  match splitDouble body with
  | none => groupsOf body
  | some (l, r) =>
    groupsOf l ++ List.replicate (8 - ((groupsOf l).length + (groupsOf r).length)) ['0'] ++
      groupsOf r

/-- Whether a text in lower case is an IPv6 address, and written as browsers write it. -/
def isAddress (body : List Char) : Bool :=
  (readGroups body).length = 8 && (readGroups body).all isGroup &&
    addressText (readGroups body) = body

/-! ### Hosts -/

/-- A text between brackets. -/
def isBracketed (host : List Char) : Bool :=
  host = '[' :: (host.tail.dropLast ++ [']']) && isAddress host.tail.dropLast

/-- **Whether a text is a host**, in either letter case. -/
def isHost [Idna] (host : List Char) : Bool :=
  isName (host.map Char.toLower) || isDotted (host.map Char.toLower) ||
    isBracketed (host.map Char.toLower)

/-- **A host**, as a browser has it. -/
inductive Host [Idna] where
  | name (text : List Char) (valid : isName text = true)
  | ipv4 (a b c d : Fin 256)
  | ipv6 (groups : List (List Char)) (length : groups.length = 8)
      (valid : ∀ g ∈ groups, isGroup g = true)

/-- A number of an IPv4 address. -/
def byteText (n : Fin 256) : List Char := Nat.toDigits 10 n.val

/-- The text of a host. -/
def Host.text [Idna] : Host → List Char
  | name text _ => text
  | ipv4 a b c d => ['.'].intercalate [byteText a, byteText b, byteText c, byteText d]
  | ipv6 groups _ _ => '[' :: (addressText groups ++ [']'])

theorem isByte_iff {digits : List Char} : isByte digits = true ↔ ∃ n, digits = byteText n := by
  simp only [isByte, List.any_eq_true, List.mem_range, decide_eq_true_eq]
  constructor
  · rintro ⟨n, hn, rfl⟩
    exact ⟨⟨n, hn⟩, rfl⟩
  · rintro ⟨n, rfl⟩
    exact ⟨n.val, n.isLt, rfl⟩

theorem not_mem_byteText {c : Char} (hc : c.isDigit = false) (n : Fin 256) : c ∉ byteText n := by
  intro hmem
  rw [Nat.isDigit_of_mem_toDigits (by decide) (by decide) hmem] at hc
  cases hc

/-- **IPv4 addresses** are four numbers between dots. -/
theorem isDotted_iff {host : List Char} :
    isDotted host = true ↔ ∃ a b c d,
      host = ['.'].intercalate [byteText a, byteText b, byteText c, byteText d] := by
  simp only [isDotted, Bool.and_eq_true, decide_eq_true_eq, List.all_eq_true]
  constructor
  · rintro ⟨hlength, hbytes⟩
    have hjoin : ['.'].intercalate (host.splitOn '.') = host := List.intercalate_splitOn '.'
    generalize host.splitOn '.' = parts at hlength hbytes hjoin
    match parts, hlength with
    | [p, q, r, s], _ =>
      obtain ⟨a, rfl⟩ := isByte_iff.mp (hbytes p (by simp))
      obtain ⟨b, rfl⟩ := isByte_iff.mp (hbytes q (by simp))
      obtain ⟨c, rfl⟩ := isByte_iff.mp (hbytes r (by simp))
      obtain ⟨d, rfl⟩ := isByte_iff.mp (hbytes s (by simp))
      exact ⟨a, b, c, d, hjoin.symm⟩
  · rintro ⟨a, b, c, d, rfl⟩
    rw [List.splitOn_intercalate '.' (by simp [not_mem_byteText]) (by simp)]
    refine ⟨rfl, fun p hp => isByte_iff.mpr ?_⟩
    simp only [List.mem_cons, List.not_mem_nil, or_false] at hp
    rcases hp with rfl | rfl | rfl | rfl <;> exact ⟨_, rfl⟩

/-! ### Reading addresses back -/

theorem isHexDigit_of_isGroup {g : List Char} (h : isGroup g = true) :
    g ≠ [] ∧ ∀ c ∈ g, isHexDigit c = true := by
  simp only [isGroup, Bool.or_eq_true, decide_eq_true_eq, Bool.and_eq_true, Bool.not_eq_true',
    List.isEmpty_eq_false_iff, List.all_eq_true] at h
  rcases h with rfl | ⟨⟨⟨hne, -⟩, -⟩, hdigits⟩
  · refine ⟨by simp, fun c hc => ?_⟩
    rw [List.mem_singleton.mp hc]
    rfl
  · exact ⟨hne, hdigits⟩

theorem not_mem_of_isGroup {g : List Char} (h : isGroup g = true) : ':' ∉ g := fun hmem =>
  absurd ((isHexDigit_of_isGroup h).2 ':' hmem) (by decide)

/-- A list starts with its run of zero groups. -/
theorem zeroRun_spec (groups : List (List Char)) :
    groups = List.replicate (zeroRun groups) ['0'] ++ groups.drop (zeroRun groups) := by
  induction groups with
  | nil => rfl
  | cons g gs ih =>
    by_cases hg : g = ['0']
    · have hrun : zeroRun (g :: gs) = zeroRun gs + 1 := by simp [zeroRun, hg]
      rw [hrun, List.replicate_succ, List.drop_succ_cons, List.cons_append, ← ih, hg]
    · have hrun : zeroRun (g :: gs) = 0 := by simp [zeroRun, hg]
      rw [hrun]
      rfl

/-- The longest run is one of zero groups. -/
theorem longestRun_spec (groups : List (List Char)) :
    groups = groups.take (longestRun groups).1 ++ List.replicate (longestRun groups).2 ['0'] ++
      groups.drop ((longestRun groups).1 + (longestRun groups).2) := by
  induction groups with
  | nil => rfl
  | cons g gs ih =>
    rw [longestRun]
    split_ifs
    · rw [List.take_succ_cons, Nat.add_right_comm, List.drop_succ_cons, List.cons_append,
        List.cons_append, ← ih]
    · rw [List.take_zero, List.nil_append, Nat.zero_add]
      exact zeroRun_spec (g :: gs)

/-- Groups between colons are read back. -/
theorem groupsOf_joinGroups {groups : List (List Char)} (h : ∀ g ∈ groups, isGroup g = true) :
    groupsOf (joinGroups groups) = groups := by
  cases groups with
  | nil => rfl
  | cons g gs =>
    have hsplit : (joinGroups (g :: gs)).splitOn ':' = g :: gs :=
      List.splitOn_intercalate ':' (fun x hx => not_mem_of_isGroup (h x hx)) (by simp)
    rw [groupsOf, if_neg, hsplit]
    intro hnil
    rw [hnil] at hsplit
    obtain ⟨rfl, -⟩ := List.cons.inj hsplit
    exact (isHexDigit_of_isGroup (h [] (by simp))).1 rfl

/-- Behind a character, a double colon is looked for in the rest, unless it starts with it. -/
theorem splitDouble_cons {c : Char} {l : List Char} (h : c ≠ ':' ∨ l.head? ≠ some ':') :
    splitDouble (c :: l) = (splitDouble l).map (Prod.map (List.cons c) id) := by
  rw [splitDouble]
  rintro rest rfl rfl
  simp at h

/-- Behind a group, a double colon is looked for in the rest. -/
theorem splitDouble_append {g l : List Char} (hg : ':' ∉ g) :
    splitDouble (g ++ l) = (splitDouble l).map (Prod.map (g ++ ·) id) := by
  induction g with
  | nil =>
    change splitDouble l = _
    cases splitDouble l <;> rfl
  | cons c g ih =>
    obtain ⟨hc, hg⟩ := List.ne_and_not_mem_of_not_mem_cons hg
    rw [List.cons_append, splitDouble_cons (.inl hc.symm), ih hg, Option.map_map]
    rfl

theorem joinGroups_cons_cons (g g' : List Char) (gs : List (List Char)) :
    joinGroups (g :: g' :: gs) = g ++ ':' :: joinGroups (g' :: gs) := by
  simp [joinGroups, List.intercalate_cons_cons]

/-- Groups between colons do not start with a colon. -/
theorem head?_joinGroups {g : List Char} {gs : List (List Char)} (hg : isGroup g = true)
    (l : List Char) : (joinGroups (g :: gs) ++ l).head? ≠ some ':' := by
  obtain ⟨rest, hrest⟩ : ∃ rest, joinGroups (g :: gs) = g ++ rest := by
    cases gs with
    | nil => exact ⟨[], by rw [List.append_nil]; exact List.intercalate_singleton⟩
    | cons g' gs => exact ⟨_, joinGroups_cons_cons g g' gs⟩
  obtain ⟨hne, hdigits⟩ := isHexDigit_of_isGroup hg
  obtain ⟨c, g, rfl⟩ := List.exists_cons_of_ne_nil hne
  rw [hrest]
  intro hhead
  obtain rfl := Option.some.inj hhead
  exact absurd (hdigits ':' (by simp)) (by decide)

/-- Behind groups between colons, a double colon is looked for in the rest. -/
theorem splitDouble_joinGroups {groups : List (List Char)} (h : ∀ g ∈ groups, isGroup g = true)
    (l : List Char) :
    splitDouble (joinGroups groups ++ l) =
      (splitDouble l).map (Prod.map (joinGroups groups ++ ·) id) := by
  induction groups with
  | nil =>
    change splitDouble l = _
    cases splitDouble l <;> rfl
  | cons g gs ih =>
    have hg := not_mem_of_isGroup (h g (by simp))
    cases gs with
    | nil =>
      have hsingle : joinGroups [g] = g := List.intercalate_singleton
      rw [hsingle, splitDouble_append hg]
    | cons g' gs =>
      rw [joinGroups_cons_cons, List.append_assoc, splitDouble_append hg, List.cons_append,
        splitDouble_cons (.inr (head?_joinGroups (h g' (by simp)) l)),
        ih fun x hx => h x (List.mem_cons_of_mem g hx), Option.map_map, Option.map_map]
      congr 1
      funext x
      simp [Prod.map]

/-- **Addresses are read back** from the texts that browsers write. -/
theorem readGroups_addressText {groups : List (List Char)} (hlength : groups.length = 8)
    (h : ∀ g ∈ groups, isGroup g = true) : readGroups (addressText groups) = groups := by
  rw [addressText]
  split_ifs with hrun
  · have hnone : splitDouble (joinGroups groups) = none := by
      have hsplit := splitDouble_joinGroups h []
      rwa [List.append_nil] at hsplit
    rw [readGroups, hnone]
    exact groupsOf_joinGroups h
  · have hspec := longestRun_spec groups
    generalize (longestRun groups).1 = i at hspec
    generalize (longestRun groups).2 = n at hspec hrun
    have hleft : ∀ g ∈ groups.take i, isGroup g = true := fun g hg => h g (List.mem_of_mem_take hg)
    have hright : ∀ g ∈ groups.drop (i + n), isGroup g = true :=
      fun g hg => h g (List.mem_of_mem_drop hg)
    have hsplit : splitDouble (joinGroups (groups.take i) ++ ':' :: ':' ::
        joinGroups (groups.drop (i + n))) =
          some (joinGroups (groups.take i), joinGroups (groups.drop (i + n))) := by
      rw [splitDouble_joinGroups hleft]
      simp [splitDouble]
    have hmissing : 8 - ((groups.take i).length + (groups.drop (i + n)).length) = n := by
      have hsum := congrArg List.length hspec
      rw [List.length_append, List.length_append, List.length_replicate, hlength] at hsum
      omega
    rw [readGroups, hsplit]
    dsimp only
    rw [groupsOf_joinGroups hleft, groupsOf_joinGroups hright, hmissing]
    exact hspec.symm

/-- **IPv6 addresses** in the grammar are those that browsers write. -/
theorem isAddress_iff {body : List Char} :
    isAddress body = true ↔ ∃ groups : List (List Char), groups.length = 8 ∧
      (∀ g ∈ groups, isGroup g = true) ∧ body = addressText groups := by
  simp only [isAddress, Bool.and_eq_true, decide_eq_true_eq, List.all_eq_true]
  constructor
  · rintro ⟨⟨hlength, hgroups⟩, htext⟩
    exact ⟨readGroups body, hlength, hgroups, htext.symm⟩
  · rintro ⟨groups, hlength, hgroups, rfl⟩
    rw [readGroups_addressText hlength hgroups]
    exact ⟨⟨hlength, hgroups⟩, rfl⟩

example : isAddress "1:0:0:2::3".toList = true := by decide

example : isAddress "1::2:0:0:0:3".toList = false := by decide

theorem isBracketed_iff {host : List Char} :
    isBracketed host = true ↔ ∃ groups : List (List Char), groups.length = 8 ∧
      (∀ g ∈ groups, isGroup g = true) ∧ host = '[' :: (addressText groups ++ [']']) := by
  rw [isBracketed, Bool.and_eq_true, decide_eq_true_eq, isAddress_iff]
  constructor
  · rintro ⟨hbrackets, groups, hlength, hgroups, hbody⟩
    rw [hbody] at hbrackets
    exact ⟨groups, hlength, hgroups, hbrackets⟩
  · rintro ⟨groups, hlength, hgroups, rfl⟩
    rw [List.tail_cons, List.dropLast_concat]
    exact ⟨rfl, groups, hlength, hgroups, rfl⟩

/-- **The grammar has exactly the hosts of browsers**, up to letter case. -/
theorem isHost_iff [Idna] {host : List Char} :
    isHost host = true ↔ ∃ h : Host, host.map Char.toLower = h.text := by
  rw [isHost, Bool.or_eq_true, Bool.or_eq_true, isDotted_iff, isBracketed_iff]
  constructor
  · rintro ((hname | ⟨a, b, c, d, hdotted⟩) | ⟨groups, hlength, hgroups, haddress⟩)
    · exact ⟨.name _ hname, rfl⟩
    · exact ⟨.ipv4 a b c d, hdotted⟩
    · exact ⟨.ipv6 groups hlength hgroups, haddress⟩
  · rintro ⟨h, hh⟩
    cases h with
    | name text valid => exact .inl (.inl (by rw [hh]; exact valid))
    | ipv4 a b c d => exact .inl (.inr ⟨a, b, c, d, hh⟩)
    | ipv6 groups length valid => exact .inr ⟨groups, length, valid, hh⟩

/-! ### Characters of hosts -/

/-- A character is one of an authority when it is in lower case. -/
theorem isAuthorityChar_of_toLower {c : Char} (h : isAuthorityChar c.toLower = true) :
    isAuthorityChar c = true := by
  have hupper : ∀ n < 128,
      (Char.ofNat n).isUpper = true → isAuthorityChar (Char.ofNat n) = true := by
    decide +kernel
  by_cases hc : c.isUpper = true
  · have hlt : c.toNat < 128 := by
      simp only [Char.isUpper, ge_iff_le, Bool.decide_and, Bool.and_eq_true, decide_eq_true_eq,
        UInt32.le_iff_toNat_le] at hc
      exact Nat.lt_of_le_of_lt hc.2 (by decide)
    have hauthority := hupper c.toNat hlt
    rw [Char.ofNat_toNat] at hauthority
    exact hauthority hc
  · rwa [Char.toLower_eq_of_not_isUpper hc] at h

/-- Digits are characters of an authority. -/
theorem isAuthorityChar_of_isHexDigit {c : Char} (h : isHexDigit c = true) :
    isAuthorityChar c = true ∧ c.isUpper = false := by
  have hall : ("0123456789abcdef".toList.all fun c =>
      isAuthorityChar c = true ∧ c.isUpper = false) = true := by decide
  exact of_decide_eq_true (List.all_eq_true.mp hall c (List.elem_iff.mp h))

theorem isHexDigit_of_isDigit {c : Char} (h : c.isDigit = true) : isHexDigit c = true := by
  have hdigit : ∀ n < 128, (Char.ofNat n).isDigit = true → isHexDigit (Char.ofNat n) = true := by
    decide +kernel
  have hlt : c.toNat < 128 := by
    simp only [Char.isDigit, ge_iff_le, Bool.and_eq_true, decide_eq_true_eq,
      UInt32.le_iff_toNat_le] at h
    exact Nat.lt_of_le_of_lt h.2 (by decide)
  have hhex := hdigit c.toNat hlt
  rw [Char.ofNat_toNat] at hhex
  exact hhex h

/-- A character of texts between separators. -/
theorem mem_intercalate {parts : List (List Char)} {s c : Char}
    (hc : c ∈ [s].intercalate parts) : c = s ∨ ∃ g ∈ parts, c ∈ g := by
  induction parts with
  | nil => cases hc
  | cons g gs ih =>
    cases gs with
    | nil =>
      rw [List.intercalate_singleton] at hc
      exact .inr ⟨g, by simp, hc⟩
    | cons g' gs =>
      rw [List.intercalate_cons_cons, List.append_assoc, List.mem_append, List.mem_append,
        List.mem_singleton] at hc
      rcases hc with hc | rfl | hc
      · exact .inr ⟨g, by simp, hc⟩
      · exact .inl rfl
      · exact (ih hc).imp_right fun ⟨x, hx, hcx⟩ => ⟨x, List.mem_cons_of_mem g hx, hcx⟩

theorem mem_addressText {groups : List (List Char)} {c : Char} (hc : c ∈ addressText groups) :
    c = ':' ∨ ∃ g ∈ groups, c ∈ g := by
  rw [addressText] at hc
  split_ifs at hc
  · exact mem_intercalate hc
  · rw [List.mem_append, List.mem_cons, List.mem_cons] at hc
    rcases hc with hc | rfl | rfl | hc
    · exact (mem_intercalate hc).imp_right fun ⟨g, hg, hcg⟩ => ⟨g, List.mem_of_mem_take hg, hcg⟩
    · exact .inl rfl
    · exact .inl rfl
    · exact (mem_intercalate hc).imp_right fun ⟨g, hg, hcg⟩ => ⟨g, List.mem_of_mem_drop hg, hcg⟩

/-- **The characters of a host**: those of an authority, in lower case. -/
theorem Host.of_mem_text [Idna] {h : Host} {c : Char} (hc : c ∈ h.text) :
    isAuthorityChar c = true ∧ c.isUpper = false := by
  cases h with
  | name text valid =>
    simp only [isName, Bool.and_eq_true, List.all_eq_true] at valid
    have hname := valid.1.1.2 c hc
    simp only [isNameChar, Bool.and_eq_true, Bool.not_eq_true'] at hname
    exact hname.1
  | ipv4 p q r s =>
    rcases mem_intercalate hc with rfl | ⟨digits, hdigits, hcd⟩
    · decide
    · obtain ⟨n, rfl⟩ : ∃ n, digits = byteText n := by
        simp only [List.mem_cons, List.not_mem_nil, or_false] at hdigits
        rcases hdigits with rfl | rfl | rfl | rfl <;> exact ⟨_, rfl⟩
      exact isAuthorityChar_of_isHexDigit (isHexDigit_of_isDigit
        (Nat.isDigit_of_mem_toDigits (by decide) (by decide) hcd))
  | ipv6 groups length valid =>
    rw [text, List.mem_cons, List.mem_append, List.mem_singleton] at hc
    rcases hc with rfl | hc | rfl
    · decide
    · rcases mem_addressText hc with rfl | ⟨g, hg, hcg⟩
      · decide
      · exact isAuthorityChar_of_isHexDigit ((isHexDigit_of_isGroup (valid g hg)).2 c hcg)
    · decide

/-- The host of a browser is in lower case. -/
theorem Host.map_toLower_text [Idna] (h : Host) : h.text.map Char.toLower = h.text := by
  refine (List.map_congr_left fun c hc => ?_).trans (List.map_id _)
  refine Char.toLower_eq_of_not_isUpper ?_
  rw [(of_mem_text hc).2]
  exact Bool.false_ne_true

/-- The characters of a text that is a host. -/
theorem isAuthorityChar_of_isHost [Idna] {host : List Char} (h : isHost host = true) {c : Char}
    (hc : c ∈ host) : isAuthorityChar c = true := by
  obtain ⟨x, hx⟩ := isHost_iff.mp h
  refine isAuthorityChar_of_toLower (Host.of_mem_text (h := x) ?_).1
  rw [← hx]
  exact List.mem_map_of_mem hc

/-! ### Origins -/

/-- The schemes of web pages. -/
inductive Scheme where
  | http
  | https
  deriving DecidableEq

/-- The text before the host. -/
def Scheme.text : Scheme → List Char
  | http => ['h', 't', 't', 'p', ':', '/', '/']
  | https => ['h', 't', 't', 'p', 's', ':', '/', '/']

/-- A text has one scheme only. -/
theorem Scheme.text_append_inj {s s' : Scheme} {l l' : List Char}
    (h : s.text ++ l = s'.text ++ l') : s = s' ∧ l = l' := by
  cases s <;> cases s'
  · exact ⟨rfl, List.append_cancel_left h⟩
  · simp [text] at h
  · simp [text] at h
  · exact ⟨rfl, List.append_cancel_left h⟩

/-- The port that goes without saying. -/
def Scheme.defaultPort : Scheme → Fin 65536
  | http => 80
  | https => 443

/-- A port behind a colon, in decimal notation. -/
def portText : Option (Fin 65536) → List Char
  | none => []
  | some p => ':' :: Nat.toDigits 10 p.val

/-- **A web origin**, as a browser has it: the port that the scheme implies is no part of it. -/
structure Origin [Idna] where
  scheme : Scheme
  host : Host
  port : Option (Fin 65536)
  implied : port ≠ some scheme.defaultPort

/-- **What a browser sends** as its origin. -/
def Origin.text [Idna] (o : Origin) : List Char := o.scheme.text ++ (o.host.text ++ portText o.port)

/-- **The text of an origin** in a configuration: a scheme, a host and perhaps a port. -/
def IsOrigin [Idna] (text : List Char) : Prop :=
  ∃ (scheme : Scheme) (host : List Char) (port : Option (Fin 65536)),
    isHost host = true ∧ text = scheme.text ++ (host ++ portText port)

/-- The characters of the authority of an origin. -/
theorem isAuthorityChar_of_mem [Idna] {host : List Char} (hhost : isHost host = true)
    {port : Option (Fin 65536)} {c : Char} (hc : c ∈ host ++ portText port) :
    isAuthorityChar c = true := by
  rcases List.mem_append.mp hc with hc | hc
  · exact isAuthorityChar_of_isHost hhost hc
  · cases port with
    | none => cases hc
    | some p =>
      rcases List.mem_cons.mp hc with rfl | hc
      · decide
      · exact (isAuthorityChar_of_isHexDigit (isHexDigit_of_isDigit
          (Nat.isDigit_of_mem_toDigits (by decide) (by decide) hc))).1

theorem ne_nil_of_isHost [Idna] {host : List Char} (h : isHost host = true) : host ≠ [] := by
  rintro rfl
  simp [isHost, isName, isDotted, isBracketed] at h

/-- **Two texts of one origin**: the host is the same up to letter case, and so is the port, whether
written or not. -/
def SameOrigin [Idna] (text text' : List Char) : Prop :=
  ∃ (scheme : Scheme) (host host' : List Char) (port port' : Option (Fin 65536)),
    isHost host = true ∧ text = scheme.text ++ (host ++ portText port) ∧
      text' = scheme.text ++ (host' ++ portText port') ∧
      host.map Char.toLower = host'.map Char.toLower ∧
      port.getD scheme.defaultPort = port'.getD scheme.defaultPort

/-- **The texts of origins are those that some browser sends**, up to letter case and the port that
goes without saying. -/
theorem isOrigin_iff [Idna] {text : List Char} :
    IsOrigin text ↔ ∃ o : Origin, SameOrigin text o.text := by
  constructor
  · rintro ⟨scheme, host, port, hhost, rfl⟩
    obtain ⟨h, hh⟩ := isHost_iff.mp hhost
    have hlower : host.map Char.toLower = h.text.map Char.toLower :=
      hh.trans h.map_toLower_text.symm
    by_cases hport : port = some scheme.defaultPort
    · refine ⟨⟨scheme, h, none, (Option.some_ne_none _).symm⟩, scheme, host, h.text, port, none,
        hhost, rfl, rfl, hlower, ?_⟩
      rw [hport]
      rfl
    · exact ⟨⟨scheme, h, port, hport⟩, scheme, host, h.text, port, port, hhost, rfl, rfl, hlower,
        rfl⟩
  · rintro ⟨o, scheme, host, host', port, port', hhost, htext, -⟩
    exact ⟨scheme, host, port, hhost, htext⟩

end Web
