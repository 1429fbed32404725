import ApmeApi.Lib.StringLiteral

/-!
# The grammar of JSON texts

The grammar as a relation between values and byte sequences, apart from any reader: `TextOf v bs`
says that `bs` is a complete JSON text of the value `v`, with any white space between the tokens
and any spelling of the strings.

* `readRecord_forms_iff` — the reader of records accepts exactly the texts of objects whose member
  names are the fields in some order, each once, with values of their forms, and the texts of
  arrays with one such value for each field; `readRecord_eq_some_iff` for records of strings.
* `TextOf.eq_of_definite` — the text of a value without numbers and truth values is the text of no
  other value; `TextOf.eq_of_flat` for the objects and arrays of strings.
-/

namespace Json

/-! ### Values -/

/-- The values that JSON texts denote. Literals other than strings stand for themselves. -/
inductive Value where
  | literal (l : List UInt8)
  | string (s : String)
  | array (vs : List Value)
  | object (ms : List (String × Value))

/-- Members whose values are strings. -/
def strings (ms : List (String × String)) : List (String × Value) :=
  ms.map fun m => (m.1, .string m.2)

/-- A string occurs in a value, as a name or as a value, at any depth. -/
inductive Occurs (s : String) : Value → Prop
  | string : Occurs s (.string s)
  | element {v : Value} {vs : List Value} (hv : v ∈ vs) (h : Occurs s v) : Occurs s (.array vs)
  | name {v : Value} {ms : List (String × Value)} (hm : (s, v) ∈ ms) : Occurs s (.object ms)
  | member {k : String} {v : Value} {ms : List (String × Value)} (hm : (k, v) ∈ ms)
    (h : Occurs s v) : Occurs s (.object ms)

/-! ### The grammar -/

/-- White space between tokens. -/
def Blank (w : List UInt8) : Prop := ∀ b ∈ w, b = 0x20 ∨ b = 0x0A ∨ b = 0x09 ∨ b = 0x0D

/-- A token of one byte: white space, then the byte. -/
def TokenText (c : UInt8) (t : List UInt8) : Prop := ∃ w, Blank w ∧ t = w ++ [c]

/-- A string: white space, then a spelling of it between quotes. -/
def StringText (s : String) (t : List UInt8) : Prop :=
  ∃ w l, Blank w ∧ Spells s.toList l ∧ t = w ++ 0x22 :: (l ++ [0x22])

/-- One decimal digit or more. -/
def Digits (l : List UInt8) : Prop := l ≠ [] ∧ ∀ b ∈ l, 0x30 ≤ b.toNat ∧ b.toNat ≤ 0x39

/-- The literal of a number: an integer without leading zeros, then optionally a fraction and
an exponent. -/
def NumberLiteral (l : List UInt8) : Prop :=
  ∃ sign int frac exp : List UInt8, (sign = [] ∨ sign = [0x2D]) ∧ Digits int ∧
    (int.head? = some 0x30 → int = [0x30]) ∧ (frac = [] ∨ ∃ d, Digits d ∧ frac = 0x2E :: d) ∧
    (exp = [] ∨ ∃ e s d, (e = 0x65 ∨ e = 0x45) ∧ (s = [] ∨ s = [0x2B] ∨ s = [0x2D]) ∧
      Digits d ∧ exp = e :: (s ++ d)) ∧
    l = sign ++ (int ++ (frac ++ exp))

/-- The literals other than strings. -/
def Literal (l : List UInt8) : Prop :=
  l = ascii "null" ∨ l = ascii "true" ∨ l = ascii "false" ∨ NumberLiteral l

/-- What stands before an item: nothing before the first, a comma before any other. -/
def Separator : Bool → List UInt8 → Prop
  | true, t => t = []
  | false, t => TokenText 0x2C t

/-- Items in a given form, separated by commas, up to a closing byte. -/
inductive ItemsText {α : Type} (Item : α → List UInt8 → Prop) (close : UInt8) :
    Bool → List α → List UInt8 → Prop
  | nil {first : Bool} {t : List UInt8} (h : TokenText close t) : ItemsText Item close first [] t
  | cons {first : Bool} {x : α} {xs : List α} {s t r : List UInt8} (hs : Separator first s)
    (hx : Item x t) (h : ItemsText Item close false xs r) :
    ItemsText Item close first (x :: xs) (s ++ (t ++ r))

/-- The member of an object, with a given form of values. -/
inductive MemberText {α : Type} (Item : α → List UInt8 → Prop) :
    String × α → List UInt8 → Prop
  | mk {name : String} {x : α} {k c v : List UInt8} (hk : StringText name k)
    (hc : TokenText 0x3A c) (hv : Item x v) : MemberText Item (name, x) (k ++ (c ++ v))

/-- The texts of a value, inside a larger text. -/
inductive ValueText : Value → List UInt8 → Prop
  | literal {w l : List UInt8} (hw : Blank w) (hl : Literal l) : ValueText (.literal l) (w ++ l)
  | string {s : String} {t : List UInt8} (h : StringText s t) : ValueText (.string s) t
  | array {vs : List Value} {b t : List UInt8} (hb : TokenText 0x5B b)
    (h : ItemsText ValueText 0x5D true vs t) : ValueText (.array vs) (b ++ t)
  | object {ms : List (String × Value)} {b t : List UInt8} (hb : TokenText 0x7B b)
    (h : ItemsText (MemberText ValueText) 0x7D true ms t) : ValueText (.object ms) (b ++ t)

/-- **A complete JSON text of a value**, with nothing but white space after it. -/
def TextOf (v : Value) (bs : List UInt8) : Prop :=
  ∃ t w, ValueText v t ∧ Blank w ∧ bs = t ++ w

/-! ### Tokens -/

theorem skipWs_append {w : List UInt8} (hw : Blank w) (bs : List UInt8) :
    skipWs (w ++ bs) = skipWs bs := by
  induction w with
  | nil => rfl
  | cons b w ih =>
    obtain ⟨hb, hw⟩ := List.forall_mem_cons.mp hw
    rw [List.cons_append, skipWs, if_pos hb, ih hw]

/-- What is skipped is white space. -/
theorem exists_skipWs (bs : List UInt8) : ∃ w, Blank w ∧ bs = w ++ skipWs bs := by
  induction bs with
  | nil => exact ⟨[], nofun, rfl⟩
  | cons b bs ih =>
    rw [skipWs]
    split
    · next hb =>
      obtain ⟨w, hw, he⟩ := ih
      exact ⟨b :: w, List.forall_mem_cons.mpr ⟨hb, hw⟩, by rw [List.cons_append, ← he]⟩
    · exact ⟨[], nofun, rfl⟩

theorem skipWs_skipWs (bs : List UInt8) : skipWs (skipWs bs) = skipWs bs := by
  obtain ⟨w, hw, he⟩ := exists_skipWs bs
  have hskip := skipWs_append hw (skipWs bs)
  rw [← he] at hskip
  exact hskip.symm

/-- A byte that is no white space. -/
def Solid (c : UInt8) : Prop := ¬(c = 0x20 ∨ c = 0x0A ∨ c = 0x09 ∨ c = 0x0D)

instance (c : UInt8) : Decidable (Solid c) := inferInstanceAs (Decidable (¬ _))

theorem skipWs_cons {c : UInt8} (hc : Solid c) (bs : List UInt8) :
    skipWs (c :: bs) = c :: bs := by
  rw [skipWs, if_neg hc]

/-- **The next token.** -/
theorem skipWs_eq_cons_iff {c : UInt8} (hc : Solid c) {bs r : List UInt8} :
    skipWs bs = c :: r ↔ ∃ t, TokenText c t ∧ bs = t ++ r := by
  constructor
  · intro h
    obtain ⟨w, hw, he⟩ := exists_skipWs bs
    rw [h] at he
    exact ⟨w ++ [c], ⟨w, hw, rfl⟩, by rw [he, List.append_assoc, List.singleton_append]⟩
  · rintro ⟨t, ⟨w, hw, rfl⟩, rfl⟩
    rw [List.append_assoc, skipWs_append hw, List.singleton_append, skipWs_cons hc]

/-- The end of a text. -/
theorem skipWs_eq_nil_iff {bs : List UInt8} : skipWs bs = [] ↔ Blank bs := by
  constructor
  · intro h
    obtain ⟨w, hw, he⟩ := exists_skipWs bs
    rw [h, List.append_nil] at he
    rwa [he]
  · intro h
    have hskip := skipWs_append h []
    rwa [List.append_nil] at hskip

/-- The reader of one token. -/
theorem readTokens_eq_some_iff {c : UInt8} (hc : Solid c) {bs r : List UInt8} :
    readTokens [[c]] bs = some r ↔ ∃ t, TokenText c t ∧ bs = t ++ r := by
  have hread : readTokens [[c]] bs = some r ↔ skipWs bs = c :: r := by
    simp [readTokens, Text.stripPrefixList_eq_some_iff]
  rw [hread, skipWs_eq_cons_iff hc]

/-- **The reader of strings.** -/
theorem readString_eq_some_iff {bs r : List UInt8} {s : String} :
    readString bs = some (s, r) ↔ ∃ t, StringText s t ∧ bs = t ++ r := by
  constructor
  · intro h
    rw [readString] at h
    split at h
    · next rest hskip =>
      obtain ⟨t, ⟨w, hw, rfl⟩, rfl⟩ := (skipWs_eq_cons_iff (by decide)).mp hskip
      obtain ⟨l, hl, rfl⟩ := readLiteral_eq_some_iff.mp h
      exact ⟨_, ⟨w, l, hw, hl, rfl⟩, by simp⟩
    · cases h
  · rintro ⟨t, ⟨w, l, hw, hl, rfl⟩, rfl⟩
    have hskip : skipWs (w ++ 0x22 :: (l ++ [0x22]) ++ r) = 0x22 :: (l ++ 0x22 :: r) :=
      (skipWs_eq_cons_iff (by decide)).mpr ⟨w ++ [0x22], ⟨w, hw, rfl⟩, by simp⟩
    simp only [readString, hskip]
    exact readLiteral_eq_some_iff.mpr ⟨l, hl, rfl⟩

/-- White space before a string does not matter. -/
theorem readString_skipWs (bs : List UInt8) : readString (skipWs bs) = readString bs := by
  simp only [readString, skipWs_skipWs]

/-! ### Members and elements -/

/-- The form that a record asks of the values of its members: `F k v x` when the value `x` of the
member `k` stands for `v`. -/
abbrev Form := String → String → Value → Prop

/-- A reader **reads** the values of a form. -/
def Reads (F : Form) (reader : String → Reader) : Prop :=
  ∀ k v bs r, reader k bs = some (v, r) ↔ ∃ x t, F k v x ∧ ValueText x t ∧ bs = t ++ r

/-- The member of an object. -/
theorem memberText_iff {k : String} {x : Value} {t : List UInt8} :
    MemberText ValueText (k, x) t ↔
      ∃ a c b, StringText k a ∧ TokenText 0x3A c ∧ ValueText x b ∧ t = a ++ (c ++ b) := by
  constructor
  · intro h
    cases h with
    | mk hk hc hv => exact ⟨_, _, _, hk, hc, hv, rfl⟩
  · rintro ⟨a, c, b, hk, hc, hv, rfl⟩
    exact .mk hk hc hv

/-- The end of a list of items. -/
theorem itemsText_nil_iff {α : Type} {Item : α → List UInt8 → Prop} {close : UInt8}
    {first : Bool} {t : List UInt8} : ItemsText Item close first [] t ↔ TokenText close t := by
  constructor
  · intro h
    cases h with
    | nil h => exact h
  · exact .nil

theorem itemsText_cons_iff {α : Type} {Item : α → List UInt8 → Prop} {close : UInt8}
    {first : Bool} {x : α} {xs : List α} {u : List UInt8} :
    ItemsText Item close first (x :: xs) u ↔ ∃ s t r, Separator first s ∧ Item x t ∧
      ItemsText Item close false xs r ∧ u = s ++ (t ++ r) := by
  constructor
  · intro h
    cases h with
    | cons hs hx h => exact ⟨_, _, _, hs, hx, h, rfl⟩
  · rintro ⟨s, t, r, hs, hx, h, rfl⟩
    exact .cons hs hx h

section Reads

variable {F : Form} {reader : String → Reader} (hF : Reads F reader)
include hF

/-- The reader of one member, with what stands before it. -/
theorem readMember_eq_some_iff {first : Bool} {k v : String} {bs r : List UInt8} :
    (∃ b₁ b₂ b₃, (if first then some (skipWs bs) else readTokens [[0x2C]] bs) = some b₁ ∧
        readString b₁ = some (k, b₂) ∧ readTokens [[0x3A]] b₂ = some b₃ ∧
        reader k b₃ = some (v, r)) ↔
      ∃ x s t, F k v x ∧ Separator first s ∧ MemberText ValueText (k, x) t ∧
        bs = s ++ (t ++ r) := by
  constructor
  · rintro ⟨b₁, b₂, b₃, hsep, hk, hc, hv⟩
    obtain ⟨c, hct, rfl⟩ := (readTokens_eq_some_iff (by decide)).mp hc
    obtain ⟨x, b, hx, hbt, rfl⟩ := (hF k v b₃ r).mp hv
    cases first with
    | true =>
      obtain rfl := Option.some.inj hsep
      rw [readString_skipWs] at hk
      obtain ⟨a, hat, rfl⟩ := readString_eq_some_iff.mp hk
      exact ⟨x, [], _, hx, rfl, memberText_iff.mpr ⟨a, c, b, hat, hct, hbt, rfl⟩, by simp⟩
    | false =>
      obtain ⟨s, hst, rfl⟩ := (readTokens_eq_some_iff (by decide)).mp hsep
      obtain ⟨a, hat, rfl⟩ := readString_eq_some_iff.mp hk
      exact ⟨x, s, _, hx, hst, memberText_iff.mpr ⟨a, c, b, hat, hct, hbt, rfl⟩, by simp⟩
  · rintro ⟨x, s, t, hx, hs, ht, rfl⟩
    obtain ⟨a, c, b, ha, hc, hb, rfl⟩ := memberText_iff.mp ht
    have hk : readString (a ++ (c ++ (b ++ r))) = some (k, c ++ (b ++ r)) :=
      readString_eq_some_iff.mpr ⟨a, ha, rfl⟩
    have hv : reader k (b ++ r) = some (v, r) := (hF k v (b ++ r) r).mpr ⟨x, b, hx, hb, rfl⟩
    have hcolon : readTokens [[0x3A]] (c ++ (b ++ r)) = some (b ++ r) :=
      (readTokens_eq_some_iff (by decide)).mpr ⟨c, hc, rfl⟩
    simp only [List.append_assoc]
    cases first with
    | true =>
      obtain rfl : s = [] := hs
      exact ⟨_, _, _, rfl, by rw [List.nil_append, readString_skipWs, hk], hcolon, hv⟩
    | false =>
      exact ⟨_, _, _, (readTokens_eq_some_iff (by decide)).mpr ⟨s, hs, rfl⟩, hk, hcolon, hv⟩

omit hF in
/-- One round of the reader of members, its choices inside. -/
theorem readMembers_succ (reader : String → Reader) (first : Bool) (n : ℕ) (fields : List String)
    (bs : List UInt8) :
    readMembers reader first (n + 1) fields bs =
      (if first then some (skipWs bs) else readTokens [[0x2C]] bs).bind fun b₁ =>
        (readString b₁).bind fun p =>
          (if p.1 ∈ fields then readTokens [[0x3A]] p.2 else none).bind fun b₃ =>
            (reader p.1 b₃).bind fun q =>
              (readMembers reader false n (fields.erase p.1) q.2).bind fun rest =>
                some ((p.1, q.1) :: rest.1, rest.2) := by
  have hchoice : ∀ {α β : Type} (c : Prop) [Decidable c] (x y : Option α) (f : α → Option β),
      (if c then x.bind f else y.bind f) = (if c then x else y).bind f := by
    intro α β c _ x y f
    split <;> rfl
  simp only [readMembers, Option.bind_eq_bind, Option.pure_def, hchoice]

/-- **The reader of members.** -/
theorem readMembers_eq_some_iff {first : Bool} {n : ℕ} {fields : List String}
    (hn : fields.length = n) {ms : List (String × String)} {bs r : List UInt8} :
    readMembers reader first n fields bs = some (ms, r) ↔
      (ms.map Prod.fst).Perm fields ∧ ∃ xs t,
        List.Forall₂ (fun m x => x.1 = m.1 ∧ F m.1 m.2 x.2) ms xs ∧
          ItemsText (MemberText ValueText) 0x7D first xs t ∧ bs = t ++ r := by
  induction n generalizing first fields ms bs with
  | zero =>
    -- no field is left: the object ends
    obtain rfl := List.length_eq_zero_iff.mp hn
    simp only [List.perm_nil, List.map_eq_nil_iff]
    constructor
    · intro h
      rw [readMembers] at h
      split at h
      · next rest hskip =>
        obtain ⟨rfl, rfl⟩ := Prod.mk.inj (Option.some.inj h)
        obtain ⟨t, ht, rfl⟩ := (skipWs_eq_cons_iff (by decide)).mp hskip
        exact ⟨rfl, [], t, .nil, .nil ht, rfl⟩
      · cases h
    · rintro ⟨rfl, xs, t, hxs, ht, rfl⟩
      obtain rfl := List.forall₂_nil_left_iff.mp hxs
      have hskip : skipWs (t ++ r) = 0x7D :: r :=
        (skipWs_eq_cons_iff (by decide)).mpr ⟨t, itemsText_nil_iff.mp ht, rfl⟩
      simp only [readMembers, hskip]
  | succ n ih =>
    -- one member with one of the names, then the others
    have hlen : ∀ k ∈ fields, (fields.erase k).length = n := fun k hk => by
      rw [List.length_erase_of_mem hk, hn, Nat.add_sub_cancel]
    constructor
    · intro h
      rw [readMembers_succ] at h
      obtain ⟨b₁, hsep, h⟩ := Option.bind_eq_some_iff.mp h
      obtain ⟨⟨k, b₂⟩, hk, h⟩ := Option.bind_eq_some_iff.mp h
      obtain ⟨b₃, hcolon, h⟩ := Option.bind_eq_some_iff.mp h
      obtain ⟨⟨v, b₄⟩, hv, h⟩ := Option.bind_eq_some_iff.mp h
      obtain ⟨⟨ms', r'⟩, hrest, h⟩ := Option.bind_eq_some_iff.mp h
      obtain ⟨rfl, rfl⟩ := Prod.mk.inj (Option.some.inj h)
      obtain ⟨hmem, hcolon⟩ := Option.ite_none_right_eq_some.mp hcolon
      obtain ⟨hperm, xs, u, hxs, hu, rfl⟩ := (ih (hlen k hmem)).mp hrest
      obtain ⟨x, s, t, hx, hs, ht, rfl⟩ :=
        (readMember_eq_some_iff hF).mp ⟨_, _, _, hsep, hk, hcolon, hv⟩
      refine ⟨?_, (k, x) :: xs, _, .cons ⟨rfl, hx⟩ hxs, .cons hs ht hu, by simp⟩
      exact (List.Perm.cons k hperm).trans (List.perm_cons_erase hmem).symm
    · rintro ⟨hperm, xs, u, hxs, hu, rfl⟩
      cases hxs with
      | nil =>
        have hnil := hperm.length_eq
        rw [hn] at hnil
        cases hnil
      | @cons m x ms xs hx hxs =>
        obtain ⟨k, v⟩ := m
        obtain ⟨k', x⟩ := x
        obtain ⟨rfl, hx⟩ := hx
        obtain ⟨s, t, u', hs, ht, hu', rfl⟩ := itemsText_cons_iff.mp hu
        obtain ⟨hmem, hperm⟩ := List.cons_perm_iff_perm_erase.mp hperm
        obtain ⟨b₁, b₂, b₃, hsep, hk, hcolon, hv⟩ :=
          (readMember_eq_some_iff hF).mpr ⟨x, s, t, hx, hs, ht, rfl⟩
        have hrest := (ih (hlen _ hmem)).mpr ⟨hperm, xs, u', hxs, hu', rfl⟩
        rw [List.append_assoc, List.append_assoc]
        rw [readMembers_succ, hsep, Option.bind_some, hk, Option.bind_some, if_pos hmem, hcolon,
          Option.bind_some, hv, Option.bind_some, hrest, Option.bind_some]

/-- The reader of one element, with what stands before it. -/
theorem readElement_eq_some_iff {first : Bool} {k v : String} {bs r : List UInt8} :
    (∃ b, (if first then some bs else readTokens [[0x2C]] bs) = some b ∧
        reader k b = some (v, r)) ↔
      ∃ x s t, F k v x ∧ Separator first s ∧ ValueText x t ∧ bs = s ++ (t ++ r) := by
  constructor
  · rintro ⟨b, hsep, hv⟩
    obtain ⟨x, t, hx, ht, rfl⟩ := (hF k v b r).mp hv
    cases first with
    | true =>
      obtain rfl := Option.some.inj hsep
      exact ⟨x, [], t, hx, rfl, ht, rfl⟩
    | false =>
      obtain ⟨s, hs, rfl⟩ := (readTokens_eq_some_iff (by decide)).mp hsep
      exact ⟨x, s, t, hx, hs, ht, rfl⟩
  · rintro ⟨x, s, t, hx, hs, ht, rfl⟩
    have hv : reader k (t ++ r) = some (v, r) := (hF k v (t ++ r) r).mpr ⟨x, t, hx, ht, rfl⟩
    cases first with
    | true =>
      obtain rfl : s = [] := hs
      exact ⟨_, rfl, hv⟩
    | false => exact ⟨_, (readTokens_eq_some_iff (by decide)).mpr ⟨s, hs, rfl⟩, hv⟩

omit hF in
/-- One round of the reader of elements, its choice inside. -/
theorem readElements_cons (reader : String → Reader) (first : Bool) (k : String)
    (ks : List String) (bs : List UInt8) :
    readElements reader first (k :: ks) bs =
      (if first then some bs else readTokens [[0x2C]] bs).bind fun b =>
        (reader k b).bind fun p =>
          (readElements reader false ks p.2).bind fun rest =>
            some ((k, p.1) :: rest.1, rest.2) := by
  cases first <;> rfl

/-- **The reader of elements.** -/
theorem readElements_eq_some_iff {first : Bool} {fields : List String}
    {ms : List (String × String)} {bs r : List UInt8} :
    readElements reader first fields bs = some (ms, r) ↔
      ms.map Prod.fst = fields ∧ ∃ xs t, List.Forall₂ (fun m x => F m.1 m.2 x) ms xs ∧
        ItemsText ValueText 0x5D first xs t ∧ bs = t ++ r := by
  induction fields generalizing first ms bs with
  | nil =>
    rw [List.map_eq_nil_iff]
    constructor
    · intro h
      rw [readElements] at h
      split at h
      · next rest hskip =>
        obtain ⟨rfl, rfl⟩ := Prod.mk.inj (Option.some.inj h)
        obtain ⟨t, ht, rfl⟩ := (skipWs_eq_cons_iff (by decide)).mp hskip
        exact ⟨rfl, [], t, .nil, .nil ht, rfl⟩
      · cases h
    · rintro ⟨rfl, xs, t, hxs, ht, rfl⟩
      obtain rfl := List.forall₂_nil_left_iff.mp hxs
      have hskip : skipWs (t ++ r) = 0x5D :: r :=
        (skipWs_eq_cons_iff (by decide)).mpr ⟨t, itemsText_nil_iff.mp ht, rfl⟩
      simp only [readElements, hskip]
  | cons k fields ih =>
    constructor
    · intro h
      rw [readElements_cons] at h
      obtain ⟨b₁, hsep, h⟩ := Option.bind_eq_some_iff.mp h
      obtain ⟨⟨v, b₂⟩, hv, h⟩ := Option.bind_eq_some_iff.mp h
      obtain ⟨⟨ms', r'⟩, hrest, h⟩ := Option.bind_eq_some_iff.mp h
      obtain ⟨rfl, rfl⟩ := Prod.mk.inj (Option.some.inj h)
      obtain ⟨hnames, xs, u, hxs, hu, rfl⟩ := ih.mp hrest
      obtain ⟨x, s, t, hx, hs, ht, rfl⟩ := (readElement_eq_some_iff hF).mp ⟨_, hsep, hv⟩
      exact ⟨congrArg (k :: ·) hnames, x :: xs, _, .cons hx hxs, .cons hs ht hu, by simp⟩
    · rintro ⟨hnames, xs, u, hxs, hu, rfl⟩
      cases hxs with
      | nil => cases hnames
      | @cons m x ms xs hx hxs =>
        obtain ⟨k', v⟩ := m
        obtain ⟨rfl, htail⟩ := List.cons.inj hnames
        obtain ⟨s, t, u', hs, ht, hu', rfl⟩ := itemsText_cons_iff.mp hu
        obtain ⟨b, hsep, hv⟩ := (readElement_eq_some_iff hF).mpr ⟨x, s, t, hx, hs, ht, rfl⟩
        have hrest := ih.mpr ⟨htail, xs, u', hxs, hu', rfl⟩
        rw [List.append_assoc, List.append_assoc]
        rw [readElements_cons, hsep, Option.bind_some, hv, Option.bind_some, hrest,
          Option.bind_some]

/-- **The reader of records accepts exactly two kinds of texts**: of objects whose member names are
the fields in some order, each once, with values of their forms, and of arrays with one value of
its form for each field. -/
theorem readRecord_forms_iff {fields : List String} {ms : List (String × String)}
    {bs : List UInt8} :
    readRecord reader fields bs = some ms ↔
      ((ms.map Prod.fst).Perm fields ∧ ∃ xs,
        List.Forall₂ (fun m x => x.1 = m.1 ∧ F m.1 m.2 x.2) ms xs ∧ TextOf (.object xs) bs) ∨
      (ms.map Prod.fst = fields ∧ ∃ xs,
        List.Forall₂ (fun m x => F m.1 m.2 x) ms xs ∧ TextOf (.array xs) bs) := by
  constructor
  · intro h
    have hfinish : ∀ {o : Option (List (String × String) × List UInt8)},
        (o.bind fun p => if skipWs p.2 = [] then some p.1 else none) = some ms →
          ∃ w, o = some (ms, w) ∧ Blank w := by
      intro o ho
      obtain ⟨⟨ms', w⟩, rfl, ho⟩ := Option.bind_eq_some_iff.mp ho
      obtain ⟨hend, ho⟩ := Option.ite_none_right_eq_some.mp ho
      obtain rfl := Option.some.inj ho
      exact ⟨w, rfl, skipWs_eq_nil_iff.mp hend⟩
    rw [readRecord] at h
    split at h
    · next r hskip =>
      obtain ⟨b, hb, rfl⟩ := (skipWs_eq_cons_iff (by decide)).mp hskip
      obtain ⟨w, hread, hw⟩ := hfinish h
      obtain ⟨hperm, xs, t, hxs, ht, rfl⟩ := (readMembers_eq_some_iff hF rfl).mp hread
      exact .inl ⟨hperm, xs, hxs, b ++ t, w, .object hb ht, hw, (List.append_assoc ..).symm⟩
    · next r hskip =>
      obtain ⟨b, hb, rfl⟩ := (skipWs_eq_cons_iff (by decide)).mp hskip
      obtain ⟨w, hread, hw⟩ := hfinish h
      obtain ⟨hnames, xs, t, hxs, ht, rfl⟩ := (readElements_eq_some_iff hF).mp hread
      exact .inr ⟨hnames, xs, hxs, b ++ t, w, .array hb ht, hw, (List.append_assoc ..).symm⟩
    · cases h
  · have hend : ∀ w, Blank w → skipWs w = [] := fun w hw => skipWs_eq_nil_iff.mpr hw
    rintro (⟨hperm, xs, hxs, u, w, hu, hw, rfl⟩ | ⟨hnames, xs, hxs, u, w, hu, hw, rfl⟩)
    · cases hu with
      | @object _ b t hb ht =>
        have hskip : skipWs (b ++ t ++ w) = 0x7B :: (t ++ w) :=
          (skipWs_eq_cons_iff (by decide)).mpr ⟨b, hb, List.append_assoc ..⟩
        have hread : readMembers reader true fields.length fields (t ++ w) = some (ms, w) :=
          (readMembers_eq_some_iff hF rfl).mpr ⟨hperm, xs, t, hxs, ht, rfl⟩
        simp only [readRecord, hskip, hread, Option.bind_eq_bind, Option.bind_some, hend w hw,
          if_true]
    · cases hu with
      | @array _ b t hb ht =>
        have hskip : skipWs (b ++ t ++ w) = 0x5B :: (t ++ w) :=
          (skipWs_eq_cons_iff (by decide)).mpr ⟨b, hb, List.append_assoc ..⟩
        have hread : readElements reader true fields (t ++ w) = some (ms, w) :=
          (readElements_eq_some_iff hF).mpr ⟨hnames, xs, t, hxs, ht, rfl⟩
        simp only [readRecord, hskip, hread, Option.bind_eq_bind, Option.bind_some, hend w hw,
          if_true]

end Reads

/-- Strings are read in their form. -/
theorem reads_string : Reads (fun _ v x => x = .string v) fun _ => readString := by
  intro k v bs r
  rw [readString_eq_some_iff]
  constructor
  · rintro ⟨t, ht, rfl⟩
    exact ⟨_, t, rfl, .string ht, rfl⟩
  · rintro ⟨x, t, rfl, ht, rfl⟩
    cases ht with
    | string ht => exact ⟨t, ht, rfl⟩

/-- The literal `null`. -/
def Value.null : Value := .literal (ascii "null")

/-- The end of a tagged unit variant. -/
theorem readTokens_null_iff {bs r : List UInt8} :
    readTokens [[0x3A], ascii "null", [0x7D]] bs = some r ↔ ∃ c v t, TokenText 0x3A c ∧
      ValueText .null v ∧ TokenText 0x7D t ∧ bs = c ++ (v ++ (t ++ r)) := by
  have hsplit : readTokens [[0x3A], ascii "null", [0x7D]] bs = (readTokens [[0x3A]] bs).bind
      fun bs => (Text.stripPrefixList (ascii "null") (skipWs bs)).bind (readTokens [[0x7D]]) := by
    simp only [readTokens, Option.bind_assoc, Option.bind_some]
  have hnull : ∀ {bs r : List UInt8}, Text.stripPrefixList (ascii "null") (skipWs bs) = some r ↔
      ∃ v, ValueText .null v ∧ bs = v ++ r := by
    intro bs r
    rw [Text.stripPrefixList_eq_some_iff]
    constructor
    · intro h
      obtain ⟨w, hw, he⟩ := exists_skipWs bs
      rw [h] at he
      exact ⟨w ++ ascii "null", .literal hw (.inl rfl), by rw [he, List.append_assoc]⟩
    · rintro ⟨v, hv, rfl⟩
      cases hv with
      | literal hw hl =>
        rw [List.append_assoc, skipWs_append hw]
        exact skipWs_cons (by decide) _
  rw [hsplit, Option.bind_eq_some_iff]
  constructor
  · rintro ⟨b₁, hcolon, h⟩
    obtain ⟨b₂, hskip, hend⟩ := Option.bind_eq_some_iff.mp h
    obtain ⟨c, hc, rfl⟩ := (readTokens_eq_some_iff (by decide)).mp hcolon
    obtain ⟨v, hv, rfl⟩ := hnull.mp hskip
    obtain ⟨t, ht, rfl⟩ := (readTokens_eq_some_iff (by decide)).mp hend
    exact ⟨c, v, t, hc, hv, ht, rfl⟩
  · rintro ⟨c, v, t, hc, hv, ht, rfl⟩
    refine ⟨_, (readTokens_eq_some_iff (by decide)).mpr ⟨c, hc, rfl⟩, ?_⟩
    rw [hnull.mpr ⟨v, hv, rfl⟩, Option.bind_some]
    exact (readTokens_eq_some_iff (by decide)).mpr ⟨t, ht, rfl⟩

/-- The forms of a unit variant: its name, or an object that tags nothing with it. -/
def VariantForm (v : String) (x : Value) : Prop := x = .string v ∨ x = .object [(v, .null)]

/-- The name is the only string of a variant. -/
theorem VariantForm.occurs {v s : String} {x : Value} (h : VariantForm v x) (hs : Occurs s x) :
    s = v := by
  rcases h with rfl | rfl
  · cases hs
    rfl
  · cases hs with
    | name hm => exact (Prod.mk.inj (List.mem_singleton.mp hm)).1
    | member hm hs =>
      obtain ⟨-, rfl⟩ := Prod.mk.inj (List.mem_singleton.mp hm)
      cases hs

/-- **Unit variants are read in their forms.** -/
theorem reads_variant : Reads (fun _ => VariantForm) fun _ => readVariant := by
  intro k v bs r
  constructor
  · intro h
    simp only [readVariant] at h
    split at h
    · next rest hskip =>
      obtain ⟨t, ⟨w, hw, rfl⟩, rfl⟩ := (skipWs_eq_cons_iff (by decide)).mp hskip
      obtain ⟨l, hl, rfl⟩ := readLiteral_eq_some_iff.mp h
      exact ⟨_, _, .inl rfl, .string ⟨w, l, hw, hl, rfl⟩, by simp⟩
    · next rest hskip =>
      obtain ⟨b, hb, rfl⟩ := (skipWs_eq_cons_iff (by decide)).mp hskip
      obtain ⟨⟨name, b₁⟩, hname, h⟩ := Option.bind_eq_some_iff.mp h
      obtain ⟨b₂, htokens, h⟩ := Option.bind_eq_some_iff.mp h
      obtain ⟨rfl, rfl⟩ := Prod.mk.inj (Option.some.inj h)
      obtain ⟨a, ha, rfl⟩ := readString_eq_some_iff.mp hname
      obtain ⟨c, u, t, hc, hu, ht, rfl⟩ := readTokens_null_iff.mp htokens
      have hmember : MemberText ValueText (name, .null) (a ++ (c ++ u)) := .mk ha hc hu
      have hitems : ItemsText (MemberText ValueText) 0x7D true [(name, .null)]
          ([] ++ (a ++ (c ++ u) ++ t)) := .cons rfl hmember (.nil ht)
      exact ⟨_, _, .inr rfl, .object hb hitems, by simp⟩
    · cases h
  · rintro ⟨x, u, rfl | rfl, hu, rfl⟩
    · cases hu with
      | string h =>
        obtain ⟨w, l, hw, hl, rfl⟩ := h
        have hskip : skipWs (w ++ 0x22 :: (l ++ [0x22]) ++ r) = 0x22 :: (l ++ 0x22 :: r) :=
          (skipWs_eq_cons_iff (by decide)).mpr ⟨w ++ [0x22], ⟨w, hw, rfl⟩, by simp⟩
        simp only [readVariant, hskip]
        exact readLiteral_eq_some_iff.mpr ⟨l, hl, rfl⟩
    · cases hu with
      | @object _ b t hb ht =>
        obtain ⟨s, m, t', hs, hm, ht', rfl⟩ := itemsText_cons_iff.mp ht
        obtain rfl : s = [] := hs
        obtain ⟨a, c, n, ha, hc, hn, rfl⟩ := memberText_iff.mp hm
        have hskip : skipWs (b ++ ([] ++ (a ++ (c ++ n) ++ t')) ++ r) =
            0x7B :: (a ++ (c ++ (n ++ (t' ++ r)))) :=
          (skipWs_eq_cons_iff (by decide)).mpr ⟨b, hb, by simp⟩
        have hname : readString (a ++ (c ++ (n ++ (t' ++ r)))) = some (v, c ++ (n ++ (t' ++ r))) :=
          readString_eq_some_iff.mpr ⟨a, ha, rfl⟩
        have htokens := readTokens_null_iff.mpr
          ⟨c, n, t', hc, hn, itemsText_nil_iff.mp ht', (rfl : _ = c ++ (n ++ (t' ++ r)))⟩
        simp only [readVariant, hskip, hname, htokens, Option.bind_eq_bind, Option.bind_some,
          Option.pure_def]

/-- **The reader of records of strings accepts exactly two kinds of texts**: of objects whose
member names are the fields in some order, each once, and of arrays with one string for each
field. -/
theorem readRecord_eq_some_iff {fields : List String} {ms : List (String × String)}
    {bs : List UInt8} :
    readRecord (fun _ => readString) fields bs = some ms ↔
      ((ms.map Prod.fst).Perm fields ∧ TextOf (.object (strings ms)) bs) ∨
      (ms.map Prod.fst = fields ∧ TextOf (.array (ms.map fun m => .string m.2)) bs) := by
  have hmembers : ∀ xs, List.Forall₂ (fun (m : String × String) (x : String × Value) =>
      x.1 = m.1 ∧ x.2 = .string m.2) ms xs ↔ strings ms = xs := fun xs => by
    rw [strings, ← List.forall₂_eq_eq_eq, List.forall₂_map_left_iff]
    exact ⟨.imp fun m x h => Prod.ext h.1.symm h.2.symm, .imp fun m x h => h ▸ ⟨rfl, rfl⟩⟩
  have helements : ∀ xs, List.Forall₂ (fun (m : String × String) (x : Value) => x = .string m.2)
      ms xs ↔ ms.map (fun m => Value.string m.2) = xs := fun xs => by
    rw [← List.forall₂_eq_eq_eq, List.forall₂_map_left_iff]
    exact ⟨.imp fun m x h => h.symm, .imp fun m x h => h.symm⟩
  rw [readRecord_forms_iff reads_string]
  simp only [hmembers, helements, exists_eq_left']

/-! ### Fields -/

/-- A field of a record whose names differ is any of its members. -/
theorem field_eq_some_iff {ms : List (String × String)} (hnodup : (ms.map Prod.fst).Nodup)
    {k v : String} : field k ms = some v ↔ (k, v) ∈ ms := by
  induction ms with
  | nil => simp [field]
  | cons m ms ih =>
    obtain ⟨k', v'⟩ := m
    obtain ⟨hnot, hnodup⟩ := List.nodup_cons.mp hnodup
    have ih := ih hnodup
    by_cases hk : k' = k
    · subst hk
      have habsent : (k', v) ∉ ms := fun hm => hnot (List.mem_map.mpr ⟨_, hm, rfl⟩)
      simp [field, habsent, eq_comm]
    · have hskip : field k ((k', v') :: ms) = field k ms := by simp [field, hk]
      rw [hskip, ih, List.mem_cons]
      have hne : (k, v) ≠ (k', v') := fun he => hk (Prod.mk.inj he).1.symm
      exact ⟨.inr, fun hm => hm.resolve_left hne⟩

/-- Members whose names are the given ones in some order, in that order. -/
theorem exists_perm_of_names {β : Type} {ms : List (String × β)} {fields : List String}
    (h : (ms.map Prod.fst).Perm fields) : ∃ ms', ms.Perm ms' ∧ ms'.map Prod.fst = fields := by
  induction fields generalizing ms with
  | nil =>
    rw [List.perm_nil, List.map_eq_nil_iff] at h
    exact ⟨[], by rw [h], rfl⟩
  | cons k fields ih =>
    obtain ⟨m, hm, rfl⟩ := List.mem_map.mp (h.symm.subset List.mem_cons_self)
    obtain ⟨s, t, rfl⟩ := List.append_of_mem hm
    have hms : (s ++ m :: t).Perm (m :: (s ++ t)) := List.perm_middle
    have hrest : ((s ++ t).map Prod.fst).Perm fields :=
      List.Perm.cons_inv ((hms.map Prod.fst).symm.trans h)
    obtain ⟨ms', hperm, rfl⟩ := ih hrest
    exact ⟨m :: ms', hms.trans (hperm.cons m), rfl⟩

/-- **The records with given fields**: those read from a text of an object with these members in
some order, or of an array with their values. -/
theorem readRecord_fields_iff {F : Form} {reader : String → Reader} (hF : Reads F reader)
    {fields : List String} (hnodup : fields.Nodup) {text : String → String} {bs : List UInt8} :
    (∃ ms, readRecord reader fields bs = some ms ∧ ∀ k ∈ fields, field k ms = some (text k)) ↔
      ∃ xs : List (String × Value), xs.map Prod.fst = fields ∧
        (∀ x ∈ xs, F x.1 (text x.1) x.2) ∧
        ((∃ ms, ms.Perm xs ∧ TextOf (.object ms) bs) ∨ TextOf (.array (xs.map Prod.snd)) bs) := by
  constructor
  · rintro ⟨ms, hread, hfields⟩
    have htext : ∀ {m}, m ∈ ms → (ms.map Prod.fst).Perm fields → m.2 = text m.1 := by
      intro m hm hnames
      have hfield := (field_eq_some_iff (hnames.nodup_iff.mpr hnodup)).mpr hm
      have hmem := hnames.subset (List.mem_map_of_mem hm)
      exact Option.some.inj (hfield.symm.trans (hfields m.1 hmem))
    rcases (readRecord_forms_iff hF).mp hread with ⟨hnames, xs, hxs, hbs⟩ | ⟨hnames, xs, hxs, hbs⟩
    · obtain ⟨hlen, hzip⟩ := List.forall₂_iff_zip.mp hxs
      have hfst : xs.map Prod.fst = ms.map Prod.fst := by
        rw [← List.forall₂_eq_eq_eq, List.forall₂_map_left_iff, List.forall₂_map_right_iff]
        exact hxs.flip.imp fun _ _ h => h.1
      have hform : ∀ x ∈ xs, F x.1 (text x.1) x.2 := by
        intro x hx
        rw [← List.map_snd_zip hlen.ge] at hx
        obtain ⟨⟨m, _⟩, hmx, rfl⟩ := List.mem_map.mp hx
        obtain ⟨hk, hF⟩ := hzip hmx
        rw [hk, ← htext (List.of_mem_zip hmx).1 hnames]
        exact hF
      rw [← hfst] at hnames
      obtain ⟨ys, hperm, hys⟩ := exists_perm_of_names hnames
      exact ⟨ys, hys, fun y hy => hform y (hperm.symm.subset hy), .inl ⟨xs, hperm, hbs⟩⟩
    · obtain ⟨hlen, hzip⟩ := List.forall₂_iff_zip.mp hxs
      have hlen' : fields.length = xs.length := by rw [← hnames, List.length_map, hlen]
      refine ⟨fields.zip xs, List.map_fst_zip hlen'.le, fun y hy => ?_, .inr ?_⟩
      · rw [← hnames, List.zip_map_left] at hy
        obtain ⟨⟨m, x⟩, hmx, rfl⟩ := List.mem_map.mp hy
        have hm := htext (List.of_mem_zip hmx).1 (.of_eq hnames)
        exact hm ▸ hzip hmx
      · rwa [List.map_snd_zip hlen'.ge]
  · rintro ⟨xs, hnames, hform, hbs⟩
    -- the texts that the values stand for, in the order of the members
    have hrecord : ∀ ms : List (String × Value), ms.Perm xs →
        ∀ k ∈ fields, field k (ms.map fun x => (x.1, text x.1)) = some (text k) := by
      intro ms hperm k hk
      have hmap : (ms.map fun x => (x.1, text x.1)).map Prod.fst = ms.map Prod.fst := by
        simp [Function.comp_def]
      have hperm := hnames ▸ hperm.map Prod.fst
      rw [field_eq_some_iff (hmap ▸ hperm.nodup_iff.mpr hnodup)]
      obtain ⟨x, hx, rfl⟩ := List.mem_map.mp (hperm.symm.subset hk)
      exact List.mem_map.mpr ⟨x, hx, rfl⟩
    rcases hbs with ⟨ms, hperm, hbs⟩ | hbs
    · refine ⟨_, (readRecord_forms_iff hF).mpr (.inl ⟨?_, ms, ?_, hbs⟩), hrecord ms hperm⟩
      · simpa [Function.comp_def] using hnames ▸ hperm.map Prod.fst
      · rw [List.forall₂_map_left_iff, List.forall₂_same]
        exact fun x hx => ⟨rfl, hform x (hperm.subset hx)⟩
    · refine ⟨_, (readRecord_forms_iff hF).mpr (.inr ⟨?_, _, ?_, hbs⟩), hrecord xs (.refl _)⟩
      · simpa [Function.comp_def] using hnames
      · rw [List.forall₂_map_left_iff, List.forall₂_map_right_iff, List.forall₂_same]
        exact hform

/-! ### One reading -/

/-- A text that starts with a token. -/
def Starts (c : UInt8) (t : List UInt8) : Prop := ∃ a u, TokenText c a ∧ t = a ++ u

theorem TokenText.starts {c : UInt8} {t : List UInt8} (h : TokenText c t) (u : List UInt8) :
    Starts c (t ++ u) :=
  ⟨t, u, h, rfl⟩

theorem Starts.append {c : UInt8} {t : List UInt8} (h : Starts c t) (u : List UInt8) :
    Starts c (t ++ u) := by
  obtain ⟨a, v, ha, rfl⟩ := h
  exact ⟨a, v ++ u, ha, List.append_assoc ..⟩

/-- The token that a text starts with is determined, and so is what follows it. -/
theorem TokenText.append_inj {c c' : UInt8} (hc : Solid c) (hc' : Solid c') {t t' r r' : List UInt8}
    (h : TokenText c t) (h' : TokenText c' t') (he : t ++ r = t' ++ r') : c = c' ∧ r = r' := by
  have hskip : skipWs (t ++ r) = c :: r := (skipWs_eq_cons_iff hc).mpr ⟨t, h, rfl⟩
  rw [he, (skipWs_eq_cons_iff hc').mpr ⟨t', h', rfl⟩] at hskip
  obtain ⟨rfl, rfl⟩ := List.cons.inj hskip
  exact ⟨rfl, rfl⟩

theorem Starts.eq {c c' : UInt8} (hc : Solid c) (hc' : Solid c') {t t' r r' : List UInt8}
    (h : Starts c t) (h' : Starts c' t') (he : t ++ r = t' ++ r') : c = c' := by
  obtain ⟨a, u, ha, rfl⟩ := h
  obtain ⟨a', u', ha', rfl⟩ := h'
  rw [List.append_assoc, List.append_assoc] at he
  exact (ha.append_inj hc hc' ha' he).1

theorem StringText.starts {s : String} {t : List UInt8} (h : StringText s t) : Starts 0x22 t := by
  obtain ⟨w, l, hw, -, rfl⟩ := h
  exact ⟨w ++ [0x22], l ++ [0x22], ⟨w, hw, rfl⟩, by simp⟩

/-- **Strings are determined by their texts.** -/
theorem StringText.append_inj {s s' : String} {t t' r r' : List UInt8} (h : StringText s t)
    (h' : StringText s' t') (he : t ++ r = t' ++ r') : s = s' ∧ r = r' := by
  have hread : readString (t ++ r) = some (s, r) := readString_eq_some_iff.mpr ⟨t, h, rfl⟩
  rw [he, readString_eq_some_iff.mpr ⟨t', h', rfl⟩] at hread
  obtain ⟨rfl, rfl⟩ := Prod.mk.inj (Option.some.inj hread)
  exact ⟨rfl, rfl⟩

/-- A byte that stands at the start of a literal. -/
def Leading (c : UInt8) : Prop := c ∉ [0x20, 0x0A, 0x09, 0x0D, 0x22, 0x5B, 0x5D, 0x7B]

instance (c : UInt8) : Decidable (Leading c) := inferInstanceAs (Decidable (¬ _))

theorem Literal.exists_leading {l : List UInt8} (h : Literal l) :
    ∃ c u, Leading c ∧ l = c :: u := by
  rcases h with rfl | rfl | rfl | ⟨sign, int, frac, exp, hsign, ⟨hne, hdigit⟩, -, -, -, rfl⟩
  · exact ⟨0x6E, ascii "ull", by decide, rfl⟩
  · exact ⟨0x74, ascii "rue", by decide, rfl⟩
  · exact ⟨0x66, ascii "alse", by decide, rfl⟩
  rcases hsign with rfl | rfl
  · cases int with
    | nil => exact absurd rfl hne
    | cons d int =>
      have hd := hdigit d List.mem_cons_self
      refine ⟨d, int ++ (frac ++ exp), fun hmem => ?_, rfl⟩
      have hall : [0x20, 0x0A, 0x09, 0x0D, 0x22, 0x5B, 0x5D, (0x7B : UInt8)].all fun c =>
          c.toNat < 0x30 ∨ 0x39 < c.toNat := by decide
      have hapart := of_decide_eq_true (List.all_eq_true.mp hall d hmem)
      omega
  · exact ⟨0x2D, int ++ (frac ++ exp), by decide, rfl⟩

/-- The byte that the texts of a value start with. -/
inductive Leads : Value → UInt8 → Prop
  | literal {l : List UInt8} {c : UInt8} (h : Leading c) : Leads (.literal l) c
  | string (s : String) : Leads (.string s) 0x22
  | array (vs : List Value) : Leads (.array vs) 0x5B
  | object (ms : List (String × Value)) : Leads (.object ms) 0x7B

theorem Leads.solid {v : Value} {c : UInt8} (h : Leads v c) : Solid c ∧ c ≠ 0x5D := by
  cases h with
  | literal h =>
    refine ⟨fun hc => h (by simp; tauto), fun hc => h (by simp [hc])⟩
  | _ => decide

theorem ValueText.starts {v : Value} {t : List UInt8} (h : ValueText v t) :
    ∃ c, Leads v c ∧ Starts c t := by
  cases h with
  | @literal w l hw hl =>
    obtain ⟨c, u, hc, rfl⟩ := hl.exists_leading
    exact ⟨c, .literal hc, w ++ [c], u, ⟨w, hw, rfl⟩, by simp⟩
  | string h => exact ⟨_, .string _, h.starts⟩
  | array hb h => exact ⟨_, .array _, hb.starts _⟩
  | object hb h => exact ⟨_, .object _, hb.starts _⟩

/-- The byte that a text starts with fits every value that it is a text of. -/
theorem ValueText.leads {v : Value} {c : UInt8} (hc : Solid c) {t t' r r' : List UInt8}
    (h : ValueText v t) (h' : Starts c t') (he : t' ++ r' = t ++ r) : Leads v c := by
  obtain ⟨c', hlead, hstart⟩ := h.starts
  obtain rfl := h'.eq hc hlead.solid.1 hstart he
  exact hlead

/-- **Items are determined by their texts** when each of the one reading is, and no item starts
with the closing byte. -/
theorem ItemsText.append_inj {α : Type} {Item : α → List UInt8 → Prop} {close : UInt8}
    (hclose : Solid close) (hcomma : close ≠ 0x2C)
    (hlead : ∀ {y t}, Item y t → ∃ c, Solid c ∧ c ≠ close ∧ Starts c t)
    {first : Bool} {xs ys : List α}
    (hinj : ∀ x ∈ xs, ∀ {y t t' r r'}, Item x t → Item y t' → t ++ r = t' ++ r' →
      x = y ∧ r = r')
    {t t' r r' : List UInt8} (h : ItemsText Item close first xs t)
    (h' : ItemsText Item close first ys t') (he : t ++ r = t' ++ r') : xs = ys ∧ r = r' := by
  -- a list with an item starts with a comma or with the item, never with the closing byte
  have hcons : ∀ {first y s u v w z}, Separator first s → Item y u → TokenText close w →
      w ++ z ≠ s ++ (u ++ v) := by
    intro first y s u v w z hs hy hw he
    cases first with
    | true =>
      obtain rfl : s = [] := hs
      obtain ⟨c, hc, hne, hstart⟩ := hlead hy
      exact hne (hstart.eq hc hclose (⟨w, [], hw, (List.append_nil w).symm⟩) he.symm)
    | false => exact hcomma (hw.append_inj hclose (by decide) hs he).1
  induction h generalizing ys t' with
  | nil h =>
    cases h' with
    | nil h' => exact ⟨rfl, (h.append_inj hclose hclose h' he).2⟩
    | cons hs hx h' =>
      rw [List.append_assoc, List.append_assoc] at he
      exact absurd he (hcons hs hx h)
  | @cons first x xs s u v hs hx h ih =>
    cases h' with
    | nil h' =>
      rw [List.append_assoc, List.append_assoc] at he
      exact absurd he.symm (hcons hs hx h')
    | @cons _ y ys s' u' v' hs' hy h' =>
      obtain ⟨hxinj, hinj⟩ := List.forall_mem_cons.mp hinj
      have hitem : u ++ (v ++ r) = u' ++ (v' ++ r') := by
        simp only [List.append_assoc] at he
        cases first with
        | true =>
          obtain rfl : s = [] := hs
          obtain rfl : s' = [] := hs'
          exact he
        | false => exact (hs.append_inj (by decide) (by decide) hs' he).2
      obtain ⟨rfl, he⟩ := hxinj hx hy hitem
      obtain ⟨rfl, rfl⟩ := ih hinj h' he
      exact ⟨rfl, rfl⟩

/-- A literal that starts like `null` is `null`. -/
theorem Literal.eq_null {l : List UInt8} (h : Literal l) {r r' : List UInt8}
    (he : ascii "null" ++ r = l ++ r') : ascii "null" = l ∧ r = r' := by
  rcases h with rfl | rfl | rfl | ⟨sign, int, frac, exp, hsign, ⟨hne, hdigit⟩, -, -, -, rfl⟩
  · exact ⟨rfl, List.append_cancel_left he⟩
  · exact absurd (List.cons.inj he).1 (by decide)
  · exact absurd (List.cons.inj he).1 (by decide)
  rcases hsign with rfl | rfl
  · cases int with
    | nil => exact absurd rfl hne
    | cons d int =>
      have hd := hdigit d List.mem_cons_self
      obtain rfl : 0x6E = d := (List.cons.inj he).1
      exact absurd hd (by decide)
  · exact absurd (List.cons.inj he).1 (by decide)

/-- The values without a number or a truth value: their texts end by themselves. -/
inductive Definite : Value → Prop
  | null : Definite .null
  | string (s : String) : Definite (.string s)
  | array {vs : List Value} (h : ∀ v ∈ vs, Definite v) : Definite (.array vs)
  | object {ms : List (String × Value)} (h : ∀ m ∈ ms, Definite m.2) : Definite (.object ms)

/-- **A text of a definite value is the text of no other value**, whatever follows it. -/
theorem ValueText.append_inj {v v' : Value} (hv : Definite v) {t t' r r' : List UInt8}
    (h : ValueText v t) (h' : ValueText v' t') (he : t ++ r = t' ++ r') : v = v' ∧ r = r' := by
  induction hv generalizing v' t t' r r' with
  | null =>
    cases h with
    | @literal w _ hw hl =>
      have hstart : Starts 0x6E (w ++ ascii "null") :=
        ⟨w ++ [0x6E], ascii "ull", ⟨w, hw, rfl⟩, by simp [ascii]⟩
      cases h'.leads (by decide) hstart he with
      | literal =>
        cases h' with
        | @literal w' l' hw' hl' =>
          obtain ⟨c, u, hc, rfl⟩ := hl'.exists_leading
          have hsolid := (Leads.literal (l := c :: u) hc).solid.1
          rw [List.append_assoc, List.append_assoc] at he
          -- the white space goes on both sides
          have hskip := congrArg skipWs he
          rw [skipWs_append hw, skipWs_append hw'] at hskip
          have he : ascii "null" ++ r = c :: u ++ r' :=
            (skipWs_cons (by decide) _).symm.trans (hskip.trans (skipWs_cons hsolid _))
          obtain ⟨hl', rfl⟩ := hl'.eq_null he
          exact ⟨congrArg Value.literal hl', rfl⟩
  | string s =>
    cases h with
    | string h =>
      cases h'.leads (by decide) h.starts he with
      | literal hlead => exact absurd hlead (by decide)
      | string s' =>
        cases h' with
        | string h' =>
          obtain ⟨rfl, rfl⟩ := h.append_inj h' he
          exact ⟨rfl, rfl⟩
  | array _ ih =>
    cases h with
    | array hb hitems =>
      -- the bracket decides the kind of the other value
      cases h'.leads (by decide) (hb.starts _) he with
      | literal hlead => exact absurd hlead (by decide)
      | array vs' =>
        cases h' with
        | array hb' hitems' =>
          rw [List.append_assoc, List.append_assoc] at he
          obtain ⟨-, he⟩ := hb.append_inj (by decide) (by decide) hb' he
          have hlead : ∀ {y t}, ValueText y t → ∃ c, Solid c ∧ c ≠ 0x5D ∧ Starts c t := by
            intro y t hy
            obtain ⟨c, hlead, hstart⟩ := hy.starts
            exact ⟨c, hlead.solid.1, hlead.solid.2, hstart⟩
          obtain ⟨rfl, rfl⟩ := hitems.append_inj (by decide) (by decide) hlead
            (fun x hx _ _ _ _ _ hxt hyt => ih x hx hxt hyt) hitems' he
          exact ⟨rfl, rfl⟩
  | @object ms _ ih =>
    cases h with
    | object hb hitems =>
      cases h'.leads (by decide) (hb.starts _) he with
      | literal hlead => exact absurd hlead (by decide)
      | object ms' =>
        cases h' with
        | object hb' hitems' =>
          rw [List.append_assoc, List.append_assoc] at he
          obtain ⟨-, he⟩ := hb.append_inj (by decide) (by decide) hb' he
          -- a member starts with a quote, not with the closing brace
          have hlead : ∀ {y t}, MemberText ValueText y t →
              ∃ c, Solid c ∧ c ≠ 0x7D ∧ Starts c t := by
            rintro _ _ ⟨hk, -, -⟩
            exact ⟨0x22, by decide, by decide, hk.starts.append _⟩
          have hinj : ∀ x ∈ ms, ∀ {y t t' r r'}, MemberText ValueText x t →
              MemberText ValueText y t' → t ++ r = t' ++ r' → x = y ∧ r = r' := by
            rintro ⟨k, v⟩ hx y t t' r r' ⟨hk, hc, hval⟩ ⟨hk', hc', hval'⟩ he
            simp only [List.append_assoc] at he
            obtain ⟨rfl, he⟩ := hk.append_inj hk' he
            obtain ⟨-, he⟩ := hc.append_inj (by decide) (by decide) hc' he
            obtain ⟨hxy, rfl⟩ := ih _ hx hval hval' he
            exact ⟨congrArg _ hxy, rfl⟩
          obtain ⟨rfl, rfl⟩ := hitems.append_inj (by decide) (by decide) hlead hinj hitems' he
          exact ⟨rfl, rfl⟩

/-- **A complete text of a definite value is the text of no other value**, definite or not. -/
theorem TextOf.eq_of_definite {v v' : Value} (hv : Definite v) {bs : List UInt8} (h : TextOf v bs)
    (h' : TextOf v' bs) : v = v' := by
  obtain ⟨t, w, ht, -, rfl⟩ := h
  obtain ⟨t', w', ht', -, he⟩ := h'
  exact (ht.append_inj hv ht' he).1

theorem VariantForm.definite {v : String} {x : Value} (h : VariantForm v x) : Definite x := by
  rcases h with rfl | rfl
  · exact .string v
  · exact .object fun m hm => List.mem_singleton.mp hm ▸ .null

/-- The objects and the arrays of strings. -/
inductive Flat : Value → Prop
  | object (ms : List (String × String)) : Flat (.object (strings ms))
  | array (ss : List String) : Flat (.array (ss.map .string))

theorem Flat.definite {v : Value} (h : Flat v) : Definite v := by
  cases h with
  | object ms =>
    refine .object fun m hm => ?_
    obtain ⟨m, -, rfl⟩ := List.mem_map.mp hm
    exact .string _
  | array ss =>
    refine .array fun v hv => ?_
    obtain ⟨s, -, rfl⟩ := List.mem_map.mp hv
    exact .string s

/-- **A text of a flat value is the text of no other value**, flat or not. -/
theorem TextOf.eq_of_flat {v v' : Value} (hv : Flat v) {bs : List UInt8} (h : TextOf v bs)
    (h' : TextOf v' bs) : v = v' :=
  h.eq_of_definite hv.definite h'

end Json
