import Mathlib.Data.List.Basic
import Mathlib.Tactic.Common

/-!
# Broadcast channels with bounded retention

A broadcast channel sends every value to every receiver and retains only the last `capacity`
values. The channel is represented by the list of all values ever sent; a receiver is a
position in it. A receiver that has fallen behind the oldest retained value is told once how
many values it missed (`Recv.lagged`) and continues with the oldest retained one.

`window log m n` is the part of the log between two positions. What a receiver gets is
described by the window it has passed:

* `window_recv_value`: a received value extends the window by exactly that value;
* `window_isPrefix_of_le`: a lag extends it by what was lost;
* `window_suffix`: a window that starts later, at the oldest retained value, is a suffix of it;
* `window_append`: sending does not change a window that was passed.
-/

namespace Broadcast

variable {α : Type}

/-- A receiver: the position at which it subscribed and the position of the next value. -/
structure Receiver where
  since : ℕ
  next : ℕ
  deriving DecidableEq

/-- What a receive yields. -/
inductive Recv (α : Type) where
  | value (a : α)
  | lagged (missed : ℕ)
  | empty

/-- A new receiver gets what is sent from now on. -/
def subscribe (log : List α) : Receiver := ⟨log.length, log.length⟩

/-- The position of the oldest retained value. -/
def oldest (capacity : ℕ) (log : List α) : ℕ := log.length - capacity

/-- One receive. -/
def Receiver.recv (capacity : ℕ) (log : List α) (r : Receiver) : Recv α × Receiver :=
  if r.next < oldest capacity log then
    (.lagged (oldest capacity log - r.next), { r with next := oldest capacity log })
  else
    match log[r.next]? with
    | some a => (.value a, { r with next := r.next + 1 })
    | none => (.empty, r)

/-- The values between two positions of the log. -/
def window (log : List α) (m n : ℕ) : List α := (log.take n).drop m

/-- **Inversion of a receive**: a retained value, a lag, or nothing new. -/
theorem recv_cases (capacity : ℕ) (log : List α) (r : Receiver) :
    (∃ a, log[r.next]? = some a ∧ oldest capacity log ≤ r.next ∧
      r.recv capacity log = (.value a, { r with next := r.next + 1 })) ∨
    (r.next < oldest capacity log ∧ r.recv capacity log =
      (.lagged (oldest capacity log - r.next), { r with next := oldest capacity log })) ∨
    r.recv capacity log = (.empty, r) := by
  rw [Receiver.recv]
  by_cases hlag : r.next < oldest capacity log
  · exact .inr (.inl ⟨hlag, if_pos hlag⟩)
  · rw [if_neg hlag]
    cases ha : log[r.next]? with
    | some a => exact .inl ⟨a, rfl, Nat.le_of_not_lt hlag, rfl⟩
    | none => exact .inr (.inr rfl)

/-- A value that was received is the next one, and is retained. -/
theorem recv_eq_value {capacity : ℕ} {log : List α} {r r' : Receiver} {a : α}
    (h : r.recv capacity log = (.value a, r')) :
    log[r.next]? = some a ∧ oldest capacity log ≤ r.next ∧ r' = { r with next := r.next + 1 } := by
  rcases recv_cases capacity log r with ⟨b, hb, hle, hr⟩ | ⟨-, hr⟩ | hr
  · obtain ⟨hv, rfl⟩ := Prod.mk.inj (hr.symm.trans h)
    obtain rfl := Recv.value.inj hv
    exact ⟨hb, hle, rfl⟩
  · cases (Prod.mk.inj (hr.symm.trans h)).1
  · cases (Prod.mk.inj (hr.symm.trans h)).1

/-- After a lag the next value is the oldest retained one. -/
theorem recv_eq_lagged {capacity n : ℕ} {log : List α} {r r' : Receiver}
    (h : r.recv capacity log = (.lagged n, r')) :
    r.next < oldest capacity log ∧ r' = { r with next := oldest capacity log } := by
  rcases recv_cases capacity log r with ⟨b, -, -, hr⟩ | ⟨hlt, hr⟩ | hr
  · cases (Prod.mk.inj (hr.symm.trans h)).1
  · exact ⟨hlt, (Prod.mk.inj (hr.symm.trans h)).2.symm⟩
  · cases (Prod.mk.inj (hr.symm.trans h)).1

/-! ### Windows -/

/-- A window that ends before it starts is empty. -/
theorem window_eq_nil (log : List α) {m n : ℕ} (h : n ≤ m) : window log m n = [] :=
  List.drop_eq_nil_of_le (Nat.le_trans (List.length_take_le n log) h)

/-- Sending does not change a window that was passed. -/
theorem window_append {log : List α} {m n : ℕ} (h : n ≤ log.length) (l : List α) :
    window (log ++ l) m n = window log m n := by
  rw [window, window, List.take_append_of_le_length h]

/-- Receiving a value extends the window passed by that value. -/
theorem window_recv_value {log : List α} {m n : ℕ} {a : α} (hmn : m ≤ n)
    (ha : log[n]? = some a) : window log m (n + 1) = window log m n ++ [a] := by
  have hn : n < log.length := (List.getElem?_eq_some_iff.mp ha).1
  have hlen : m ≤ (log.take n).length := by
    rw [List.length_take_of_le (Nat.le_of_lt hn)]
    exact hmn
  rw [window, window, List.take_add_one, ha, Option.toList_some,
    List.drop_append_of_le_length hlen]

/-- A lag extends the window passed. -/
theorem window_isPrefix_of_le (log : List α) {m n n' : ℕ} (h : n ≤ n') :
    window log m n <+: window log m n' := by
  rw [window, window, List.drop_take, List.drop_take]
  exact List.take_prefix_take_left (Nat.sub_le_sub_right h m)

/-- A window that starts later is a suffix. -/
theorem window_suffix (log : List α) {m m' n : ℕ} (h : m ≤ m') :
    window log m' n <:+ window log m n := by
  obtain ⟨k, rfl⟩ := Nat.exists_eq_add_of_le h
  rw [window, window, ← List.drop_drop]
  exact List.drop_suffix k _

end Broadcast
