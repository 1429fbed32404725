import Mathlib.Data.List.Basic
import Mathlib.Tactic.Common

/-!
# Message streams: subjects and duplicate windows

A *subject* is a text of tokens separated by dots. A *pattern* is a subject some of whose tokens
may be `*`, which captures any one token, and whose last token may be `>`, which captures the
rest.

A *stream* is a log of messages with the time at which each was stored and the identifier under
which it was published. For the length of the duplicate window after a message was stored, a
publication with the same identifier is dropped. `publish_spaced` is what this keeps true: two
stored messages with one identifier lie at least a window apart.
-/

namespace MessageStream

/-! ### Subjects -/

/-- The tokens of a subject: the parts between its dots. -/
def tokens : List Char → List (List Char)
  | [] => [[]]
  | c :: cs =>
    if c = '.' then [] :: tokens cs
    else match tokens cs with
      | [] => [[c]]
      | t :: ts => (c :: t) :: ts

/-- Whether a pattern captures a subject, both given by their tokens. -/
def captures : List (List Char) → List (List Char) → Bool
  | [], [] => true
  | p :: ps, t :: ts =>
    (p = ['>'] && ps.isEmpty) || ((p = ['*'] || p = t) && captures ps ts)
  | _, _ => false

/-- A text without dots is one token. -/
theorem tokens_of_forall_ne {cs : List Char} (h : ∀ c ∈ cs, c ≠ '.') : tokens cs = [cs] := by
  induction cs with
  | nil => rfl
  | cons c cs ih =>
    have hc : c ≠ '.' := h c (by simp)
    rw [tokens, if_neg hc, ih fun d hd => h d (by simp [hd])]

/-- A text has at least one token. -/
theorem tokens_ne_nil (cs : List Char) : tokens cs ≠ [] := by
  cases cs with
  | nil => simp [tokens]
  | cons c cs =>
    rw [tokens]
    split
    · simp
    · split <;> simp

/-- A token appended after a dot. -/
theorem tokens_append_dot (cs : List Char) {t : List Char} (h : ∀ c ∈ t, c ≠ '.') :
    tokens (cs ++ '.' :: t) = tokens cs ++ [t] := by
  induction cs with
  | nil =>
    have ht := tokens_of_forall_ne h
    simp [tokens, ht]
  | cons c cs ih =>
    rw [List.cons_append, tokens, tokens, ih]
    split
    · rfl
    · obtain ⟨u, us, hu⟩ := List.exists_cons_of_ne_nil (tokens_ne_nil cs)
      rw [hu]
      rfl

/-- A pattern captures itself when it is a plain subject, followed by whatever its `*` captures. -/
theorem captures_append_star (ts : List (List Char)) (t : List Char) :
    captures (ts ++ [['*']]) (ts ++ [t]) = true := by
  induction ts with
  | nil => simp [captures]
  | cons a ts ih => simp [captures, ih]

/-! ### Duplicate windows -/

variable {ι α : Type} [DecidableEq ι]

/-- A stored message. -/
structure Stored (ι α : Type) where
  time : ℕ
  id : ι
  body : α
  deriving DecidableEq

/-- A publication at time `now`: dropped when a message with its identifier was stored less than
`window` before. -/
def publish (window now : ℕ) (id : ι) (body : α) (log : List (Stored ι α)) : List (Stored ι α) :=
  if ∃ e ∈ log, e.id = id ∧ now < e.time + window then log else log ++ [⟨now, id, body⟩]

/-- Messages with one identifier lie at least a window apart. -/
def Spaced (window : ℕ) (log : List (Stored ι α)) : Prop :=
  log.Pairwise fun e e' => e.id = e'.id → e.time + window ≤ e'.time

/-- A publication changes nothing, or it appends its message. -/
theorem publish_cases (window now : ℕ) (id : ι) (body : α) (log : List (Stored ι α)) :
    (publish window now id body log = log ∧
      ∃ e ∈ log, e.id = id ∧ now < e.time + window) ∨
    (publish window now id body log = log ++ [⟨now, id, body⟩] ∧
      ∀ e ∈ log, e.id = id → e.time + window ≤ now) := by
  rw [publish]
  split
  · exact .inl ⟨rfl, ‹_›⟩
  · rename_i hnone
    refine .inr ⟨rfl, fun e he hid => ?_⟩
    by_contra hlt
    exact hnone ⟨e, he, hid, Nat.lt_of_not_le hlt⟩

variable {window now : ℕ} {id : ι} {body : α} {log : List (Stored ι α)}

/-- Nothing that is stored gets lost. -/
theorem subset_publish : log ⊆ publish window now id body log := by
  rcases publish_cases window now id body log with ⟨h, -⟩ | ⟨h, -⟩ <;> rw [h]
  · exact List.Subset.refl _
  · exact List.subset_append_left _ _

/-- What is stored was stored before or is the message. -/
theorem mem_publish {e : Stored ι α} (he : e ∈ publish window now id body log) :
    e ∈ log ∨ e = ⟨now, id, body⟩ := by
  rcases publish_cases window now id body log with ⟨h, -⟩ | ⟨h, -⟩ <;> rw [h] at he
  · exact .inl he
  · simpa using he

/-- **After a publication a message with its identifier is stored.** -/
theorem exists_mem_publish : ∃ e ∈ publish window now id body log, e.id = id := by
  rcases publish_cases window now id body log with ⟨h, e, he, hid, -⟩ | ⟨h, -⟩ <;> rw [h]
  · exact ⟨e, he, hid⟩
  · exact ⟨⟨now, id, body⟩, by simp, rfl⟩

/-- **Duplicates are dropped**: a publication keeps messages with one identifier apart. -/
theorem publish_spaced (hlog : Spaced window log) :
    Spaced window (publish window now id body log) := by
  rcases publish_cases window now id body log with ⟨h, -⟩ | ⟨h, hold⟩ <;> rw [h]
  · exact hlog
  · refine List.pairwise_append.mpr ⟨hlog, List.pairwise_singleton .., fun e he e' he' hid => ?_⟩
    obtain rfl := List.mem_singleton.mp he'
    exact hold e he hid

end MessageStream
