import ApmeApi.Lib.Utf8
import Mathlib.Data.List.DropRight

/-!
# Lines of a text

A line feed ends a line, and nothing else does. This module has the lines of a text, as a text
stream yields them, and where they start: a start is given by the text from there on, so that two
readers of the text can be told to be at the same place.
-/

namespace Lines

/-! ### Parts between delimiters -/

section Split

variable {α : Type} [DecidableEq α] {d : α}

theorem splitOn_append_of_not_mem {xs : List α} (h : d ∉ xs) (ys : List α) :
    (xs ++ ys).splitOn d = (ys.splitOn d).modifyHead (xs ++ ·) := by
  induction xs with
  | nil =>
    rw [List.nil_append]
    cases ys.splitOn d <;> rfl
  | cons x xs ih =>
    have hx : ¬ (x == d) = true := fun hx => h (by simp [beq_iff_eq.mp hx])
    rw [List.cons_append, List.splitOn_cons_eq_if_modifyHead, if_neg hx,
      ih fun hmem => h (List.mem_cons_of_mem _ hmem)]
    cases ys.splitOn d <;> rfl

/-- The delimiters at the end make empty parts only. -/
theorem find?_splitOn_rdropWhile {p : List α → Bool} (hp : p [] = false) (l : List α) :
    ((l.rdropWhile (· = d)).splitOn d).find? p = (l.splitOn d).find? p := by
  induction l using List.reverseRecOn with
  | nil => rfl
  | append_singleton l a ih =>
    rw [List.rdropWhile_concat]
    split
    · rename_i ha
      rw [ih, of_decide_eq_true ha, List.splitOn_append_cons_self, List.find?_append,
        List.splitOn_nil]
      simp [hp]
    · rfl

end Split

theorem utf8_splitOn (cs : List Char) :
    (Text.utf8 cs).splitOn 10 = (cs.splitOn '\n').map Text.utf8 := by
  induction cs with
  | nil => rfl
  | cons c cs ih =>
    rw [Text.utf8_cons, List.splitOn_cons_eq_if_modifyHead]
    by_cases hc : c = '\n'
    · have hfeed : String.utf8EncodeChar '\n' = [10] := rfl
      rw [if_pos (by simp [hc]), hc, hfeed, List.singleton_append,
        List.splitOn_cons_eq_if_modifyHead, if_pos (by simp), ih]
      rfl
    · have hplain : 10 ∉ String.utf8EncodeChar c := fun h =>
        hc (Char.toNat_inj.mp (Text.toNat_of_mem_utf8EncodeChar h (by decide)))
      rw [if_neg (by simpa using hc), splitOn_append_of_not_mem hplain, ih]
      cases cs.splitOn '\n' <;> rfl

/-! ### Streams -/

/-- The lines of a stream, with the line feeds that end them. -/
def keepEnds : List Char → List (List Char)
  | [] => []
  | c :: cs =>
    if c = '\n' then [c] :: keepEnds cs
    else
      match keepEnds cs with
      | [] => [[c]]
      | line :: lines => (c :: line) :: lines

/-- A line without the line feeds at its end. -/
def stripEnd (line : List Char) : List Char := line.rdropWhile (· = '\n')

theorem stripEnd_idem (line : List Char) : stripEnd (stripEnd line) = stripEnd line :=
  List.rdropWhile_idempotent ..

theorem stripEnd_of_not_mem {line : List Char} (h : '\n' ∉ line) : stripEnd line = line := by
  rw [stripEnd, List.rdropWhile_eq_self_iff]
  exact fun hne hlast => h ((of_decide_eq_true hlast) ▸ List.getLast_mem hne)

theorem stripEnd_cons {c : Char} (hc : c ≠ '\n') (line : List Char) :
    stripEnd (c :: line) = c :: stripEnd line := by
  induction line using List.reverseRecOn with
  | nil => simp [stripEnd, hc]
  | append_singleton line d ih =>
    rw [stripEnd, stripEnd, ← List.cons_append, List.rdropWhile_concat, List.rdropWhile_concat]
    split
    · exact ih
    · rfl

theorem keepEnds_eq_nil {cs : List Char} (h : keepEnds cs = []) : cs = [] := by
  cases cs with
  | nil => rfl
  | cons c cs =>
    rw [keepEnds] at h
    split at h
    · cases h
    · split at h <;> cases h

/-- **The lines of a stream** are the parts between line feeds; only a last part that is empty is no
line. -/
theorem splitOn_eq_keepEnds (cs : List Char) :
    cs.splitOn '\n' = (keepEnds cs).map stripEnd ∨
      cs.splitOn '\n' = (keepEnds cs).map stripEnd ++ [[]] := by
  induction cs with
  | nil => exact .inr rfl
  | cons c cs ih =>
    rw [keepEnds, List.splitOn_cons_eq_if_modifyHead]
    by_cases hc : c = '\n'
    · have hstrip : stripEnd ['\n'] = [] := by decide
      rw [if_pos hc, if_pos (beq_iff_eq.mpr hc), hc, List.map_cons, hstrip, List.cons_append]
      exact ih.imp (congrArg _) (congrArg _)
    · rw [if_neg hc, if_neg (mt beq_iff_eq.mp hc)]
      cases hlines : keepEnds cs with
      | nil =>
        rw [keepEnds_eq_nil hlines]
        have hstrip : stripEnd [c] = [c] := stripEnd_of_not_mem (by simpa using Ne.symm hc)
        exact .inl (by simp [hstrip])
      | cons line lines =>
        rw [hlines] at ih
        refine ih.imp (fun h => ?_) (fun h => ?_)
        · rw [h, List.map_cons, List.modifyHead_cons, List.map_cons, stripEnd_cons hc]
        · rw [h, List.map_cons, List.cons_append, List.modifyHead_cons, List.map_cons,
            stripEnd_cons hc, List.cons_append]

/-! ### Starts -/

/-- Where the lines behind the first one start. -/
def startsAfter : List Char → List (List Char)
  | [] => []
  | c :: cs => if c = '\n' then cs :: startsAfter cs else startsAfter cs

/-- **Where the lines of a text start.** -/
def starts (cs : List Char) : List (List Char) := cs :: startsAfter cs

/-- The line from a start to a line feed. -/
def feedLine (cs : List Char) : List Char := cs.takeWhile (· ≠ '\n')

theorem feed_not_mem_feedLine (cs : List Char) : '\n' ∉ feedLine cs := fun hmem =>
  absurd (List.mem_takeWhile_imp hmem) (by decide)

theorem splitOn_eq_starts (cs : List Char) : cs.splitOn '\n' = (starts cs).map feedLine := by
  induction cs with
  | nil => rfl
  | cons c cs ih =>
    rw [List.splitOn_cons_eq_if_modifyHead, ih, starts, starts, startsAfter]
    by_cases hc : c = '\n' <;> simp [hc, feedLine]

theorem length_lt_of_mem_startsAfter {cs start : List Char} (h : start ∈ startsAfter cs) :
    start.length < cs.length := by
  induction cs with
  | nil => cases h
  | cons c cs ih =>
    rw [startsAfter] at h
    split at h
    · rcases List.mem_cons.mp h with rfl | h
      · exact Nat.lt_succ_self _
      · exact Nat.lt_succ_of_lt (ih h)
    · exact Nat.lt_succ_of_lt (ih h)

/-- The starts in a text come in order, each with less behind it than the one before. -/
theorem starts_pairwise (cs : List Char) :
    (starts cs).Pairwise fun s t => t.length < s.length := by
  refine List.pairwise_cons.mpr ⟨fun t ht => length_lt_of_mem_startsAfter ht, ?_⟩
  induction cs with
  | nil => exact .nil
  | cons c cs ih =>
    rw [startsAfter]
    split
    · exact List.pairwise_cons.mpr ⟨fun t ht => length_lt_of_mem_startsAfter ht, ih⟩
    · exact ih

end Lines
