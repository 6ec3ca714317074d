import EventScript.Scheduler.Channel
import Mathlib.Tactic.Common

/-!
# Laws of channels

A receive finds the receiver left behind, or gives the value at its position, or nothing new.
How many values are kept is one or an even number.
-/

namespace EventScript

namespace Channel

variable {α : Type} (c : Channel α)

/-- A channel keeps one value or an even number of them. -/
theorem window_cases : c.window = 1 ∨ ∃ k, 0 < k ∧ c.window = 2 * k := by
  obtain ⟨e, he⟩ := Nat.isPowerOfTwo_nextPowerOfTwo (max c.capacity 1)
  rw [window, he]
  cases e with
  | zero => exact .inl rfl
  | succ e => exact .inr ⟨2 ^ e, Nat.two_pow_pos e, by rw [Nat.pow_succ, Nat.mul_comm]⟩

/-- What a receive can be. -/
theorem receive_cases (position : Nat) :
    (position < c.oldest ∧
      c.receive position = (.lagged (c.oldest - position), c.oldest)) ∨
    (∃ a, c.oldest ≤ position ∧ c.sent[position]? = some a ∧
      c.receive position = (.value a, position + 1)) ∨
    c.sent.length ≤ position ∧ c.receive position = (.empty, position) := by
  unfold receive
  by_cases hlag : position < c.oldest
  · rw [if_pos hlag]
    exact .inl ⟨hlag, rfl⟩
  · rw [if_neg hlag]
    cases ha : c.sent[position]? with
    | some a => exact .inr (.inl ⟨a, Nat.le_of_not_lt hlag, rfl, rfl⟩)
    | none => exact .inr (.inr ⟨List.getElem?_eq_none_iff.mp ha, rfl⟩)

end Channel

end EventScript
