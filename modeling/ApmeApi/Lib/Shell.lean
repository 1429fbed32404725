import Mathlib.Data.List.DropRight
import Mathlib.Logic.Function.Basic

/-!
# Shell variables and the `read` of two fields

A shell has variables, some of which it exports: these are the environment of the commands that it
runs. This module has the variables, their assignment and export, and two ways in which a shell
takes data in: command substitution, and `read -r` of a line into two variables.

`read` splits the line into fields. A delimiter that is no blank ends a field, so that a line with
a delimiter at its end has no further field after it. When a line has at most two fields, each goes
to its variable and no delimiter is kept; when it has more, the second variable gets all that
follows the first delimiter, unchanged. Hence the one case in which a character is lost: what
follows the first delimiter has a single delimiter, at its end (`readTwo_append_cons`).
-/

namespace Shell

/-! ### Fields -/

section Fields

variable {α : Type} [DecidableEq α] {d : α}

/-- The **fields** of a line: each is ended by the delimiter or by the end of the line. -/
def fields (d : α) (line : List α) : List (List α) :=
  if (line.splitOn d).getLast? = some [] then (line.splitOn d).dropLast else line.splitOn d

theorem fields_nil : fields d ([] : List α) = [] := by
  rw [fields, List.splitOn_nil]
  rfl

theorem fields_of_not_mem {l : List α} (hl : d ∉ l) (hne : l ≠ []) : fields d l = [l] := by
  rw [fields, List.splitOn_eq_singleton hl, if_neg]
  simpa using hne

theorem fields_append_cons {k v : List α} (hk : d ∉ k) :
    fields d (k ++ d :: v) = k :: fields d v := by
  have hne := List.splitOn_ne_nil d v
  rw [fields, fields, List.splitOn_append_cons_self_of_not_mem hk, List.getLast?_cons,
    List.dropLast_cons_of_ne_nil hne]
  obtain ⟨last, hlast⟩ := Option.isSome_iff_exists.mp (List.getLast?_isSome.mpr hne)
  rw [hlast, Option.getD_some]
  split <;> rfl

theorem fields_ne_nil {l : List α} (h : l ≠ []) : fields d l ≠ [] := by
  by_cases hd : d ∈ l
  · obtain ⟨k, v, rfl, hk⟩ := List.eq_append_cons_of_mem hd
    rw [fields_append_cons hk]
    exact List.cons_ne_nil _ _
  · rw [fields_of_not_mem hd h]
    exact List.cons_ne_nil _ _

/-- `read -r` of a line into two variables. -/
def readTwo (d : α) (line : List α) : List α × List α :=
  match fields d line with
  | [] => ([], [])
  | [first] => (first, [])
  | [first, second] => (first, second)
  | first :: _ => (first, line.drop (first.length + 1))

/-- The delimiter at the end, when there is no other, is lost. -/
def clip (d : α) (v : List α) : List α :=
  if v.getLast? = some d ∧ d ∉ v.dropLast then v.dropLast else v

theorem clip_concat {w : List α} (hw : d ∉ w) : clip d (w ++ [d]) = w := by
  rw [clip, if_pos ⟨by simp, by simpa using hw⟩, List.dropLast_concat]

theorem clip_eq_self_iff {v : List α} : clip d v = v ↔ ∀ w, v = w ++ [d] → d ∈ w := by
  constructor
  · rintro h w rfl
    by_contra hw
    rw [clip_concat hw] at h
    simpa using congrArg List.length h
  · intro h
    refine if_neg ?_
    rintro ⟨hlast, hrest⟩
    exact hrest (h _ (List.dropLast_append_getLast? _ hlast).symm)

theorem clip_isPrefix (d : α) (v : List α) : clip d v <+: v := by
  rw [clip]
  split
  · exact List.dropLast_prefix v
  · exact List.prefix_refl v

theorem length_le_length_clip (d : α) (v : List α) : v.length ≤ (clip d v).length + 1 := by
  rw [clip]
  split
  · rw [List.length_dropLast]
    omega
  · exact Nat.le_succ _

/-- Nothing is lost but at the end. -/
theorem exists_clip_append_cons (d : α) (u : List α) (a : α) (w : List α) :
    ∃ t, clip d (u ++ a :: w) = u ++ t := by
  rw [clip]
  split
  · exact ⟨(a :: w).dropLast, List.dropLast_append_of_ne_nil (List.cons_ne_nil a w)⟩
  · exact ⟨a :: w, rfl⟩

/-- A line without a delimiter is one field. -/
theorem readTwo_of_not_mem {l : List α} (hl : d ∉ l) : readTwo d l = (l, []) := by
  by_cases hne : l = []
  · rw [hne, readTwo, fields_nil]
  · rw [readTwo, fields_of_not_mem hl hne]

/-- **What `read` makes of a line**: the text before the first delimiter, and the text behind it
but for a lone delimiter at its end. -/
theorem readTwo_append_cons {k v : List α} (hk : d ∉ k) :
    readTwo d (k ++ d :: v) = (k, clip d v) := by
  rw [readTwo, fields_append_cons hk]
  by_cases hd : d ∈ v
  · obtain ⟨w, rest, rfl, hw⟩ := List.eq_append_cons_of_mem hd
    rw [fields_append_cons hw]
    by_cases hrest : rest = []
    · rw [hrest, fields_nil, clip_concat hw]
    · -- three fields at least, so that the text is kept
      have hself : clip d (w ++ d :: rest) = w ++ d :: rest := by
        refine clip_eq_self_iff.mpr fun w' hw' => ?_
        have hdrop := congrArg List.dropLast hw'
        rw [List.dropLast_concat, List.dropLast_append_of_ne_nil (by simp),
          List.dropLast_cons_of_ne_nil hrest] at hdrop
        rw [← hdrop]
        simp
      cases hfields : fields d rest with
      | nil => exact absurd hfields (fields_ne_nil hrest)
      | cons f fs =>
        have hdrop : (k ++ d :: (w ++ d :: rest)).drop (k.length + 1) = w ++ d :: rest := by
          rw [← List.drop_drop, List.drop_left]
          rfl
        simp only [hdrop, hself]
  · have hself : clip d v = v := clip_eq_self_iff.mpr fun w hw => by simp [hw] at hd
    by_cases hne : v = []
    · rw [hne, fields_nil, ← hne, hself, hne]
    · rw [fields_of_not_mem hd hne, hself]

end Fields

/-! ### Variables -/

/-- A byte of a variable name. -/
def isNameByte (b : UInt8) : Bool :=
  (65 ≤ b && b ≤ 90) || (97 ≤ b && b ≤ 122) || (48 ≤ b && b ≤ 57) || b = 95

/-- Whether a text is a variable name: letters, digits and underscores, with no digit first. -/
def isName (l : List UInt8) : Bool :=
  !l.isEmpty && l.all isNameByte && !l.head?.any fun b => 48 ≤ b && b ≤ 57

/-- The **name** of a variable. -/
@[ext]
structure Name where
  bytes : List UInt8
  valid : isName bytes = true
  deriving DecidableEq

/-- The bytes of a name. -/
theorem Name.isNameByte_of_mem (x : Name) {b : UInt8} (h : b ∈ x.bytes) : isNameByte b = true := by
  have hvalid := x.valid
  simp only [isName, Bool.and_eq_true] at hvalid
  exact List.all_eq_true.mp hvalid.1.2 b h

theorem Name.not_mem (x : Name) {b : UInt8} (hb : isNameByte b = false) : b ∉ x.bytes := fun h =>
  absurd (x.isNameByte_of_mem h) (by simp [hb])

theorem Name.bytes_ne_nil (x : Name) : x.bytes ≠ [] := by
  intro h
  have hvalid := x.valid
  simp [isName, h] at hvalid

/-- A variable that is set. -/
structure Var where
  value : List UInt8
  exported : Bool
  deriving DecidableEq

/-- The variables of a shell, those that are set. -/
abbrev Vars := Name → Option Var

namespace Vars

variable {σ : Vars} {x y : Name} {v : List UInt8}

/-- Assignment. A variable that is exported stays so. -/
def assign (σ : Vars) (x : Name) (v : List UInt8) : Vars :=
  Function.update σ x (some ⟨v, (σ x).any Var.exported⟩)

/-- `export x=v`. -/
def exportVar (σ : Vars) (x : Name) (v : List UInt8) : Vars :=
  Function.update σ x (some ⟨v, true⟩)

/-- `unset x`. -/
def unset (σ : Vars) (x : Name) : Vars := Function.update σ x none

/-- The **environment**: the exported variables. -/
def env (σ : Vars) (x : Name) : Option (List UInt8) :=
  ((σ x).filter Var.exported).map Var.value

@[simp]
theorem assign_self : σ.assign x v x = some ⟨v, (σ x).any Var.exported⟩ :=
  Function.update_self ..

@[simp]
theorem assign_of_ne (h : x ≠ y) : σ.assign y v x = σ x := Function.update_of_ne h ..

@[simp]
theorem exportVar_self : σ.exportVar x v x = some ⟨v, true⟩ := Function.update_self ..

@[simp]
theorem exportVar_of_ne (h : x ≠ y) : σ.exportVar y v x = σ x := Function.update_of_ne h ..

@[simp]
theorem unset_self : σ.unset x x = none := Function.update_self ..

@[simp]
theorem unset_of_ne (h : x ≠ y) : σ.unset y x = σ x := Function.update_of_ne h ..

theorem env_eq_some_iff : σ.env x = some v ↔ σ x = some ⟨v, true⟩ := by
  rw [env]
  cases hx : σ x with
  | none => simp
  | some var =>
    obtain ⟨value, exported⟩ := var
    cases exported <;> simp [Option.filter]

theorem env_eq_none_iff : σ.env x = none ↔ ∀ var, σ x = some var → var.exported = false := by
  rw [env, Option.map_eq_none_iff, Option.filter_eq_none_iff]
  simp

end Vars

/-! ### Command substitution -/

/-- What a command substitution makes of the output of the command: bytes that no variable can
hold are dropped, and so are the newlines at the end. -/
def commandSubst (output : List UInt8) : List UInt8 :=
  (output.filter (· ≠ 0)).rdropWhile (· = 10)

end Shell
