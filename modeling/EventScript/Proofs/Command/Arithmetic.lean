import EventScript.Command.Basic
import EventScript.Host.Stage
import Mathlib.Algebra.Order.Ring.Int

/-!
# Arithmetic on variables

A variable holds 32 bits. Sums, products and quotients are formed in 64 bits, which hold all of
them, and brought back to the nearest value that a variable holds; a remainder never leaves the
range. So what a command stores is the exact result, clamped, and only a quotient of the lowest
value can fail to be exact where there is a quotient at all.
-/

namespace EventScript

/-- The exact result of an operation. A quotient goes toward zero, and a remainder is what that
quotient leaves. -/
def VariableOperation.exact (op : VariableOperation) (current operand : Int) : Int :=
  match op with
  | set => operand
  | add => current + operand
  | sub => current - operand
  | mul => current * operand
  | div => current.tdiv operand
  | mod => current.tmod operand

/-- The integer nearest to `n` that a variable can hold. -/
def clamp (n : Int) : Int := max (-2 ^ 31) (min n (2 ^ 31 - 1))

/-- What a variable can hold is left alone. -/
theorem clamp_eq_self {n : Int} (hlo : -2 ^ 31 ≤ n) (hhi : n < 2 ^ 31) : clamp n = n := by
  unfold clamp
  omega

/-- The value of a variable is one that it can hold. -/
theorem clamp_toInt (a : Int32) : clamp a.toInt = a.toInt :=
  clamp_eq_self a.le_toInt a.toInt_lt

/-- Narrowing goes to the nearest value. -/
theorem toInt_narrow (n : Int64) : (narrow n).toInt = clamp n.toInt := by
  have hmin : Int32.minValue.toInt64.toInt = -2 ^ 31 := by decide
  have hmax : Int32.maxValue.toInt64.toInt = 2 ^ 31 - 1 := by decide
  unfold narrow clamp
  simp only [Int64.lt_iff_toInt_lt, hmin, hmax]
  split
  · rw [Int32.toInt_minValue]
    omega
  · split
    · rw [Int32.toInt_maxValue]
      omega
    · rw [Int64.toInt_toInt32, Int.bmod_eq_of_le (by omega) (by omega)]
      omega

/-- An operation that wraps in 64 bits is exact, up to the range of a variable, where its exact
result needs no more of them. -/
theorem toInt_saturating {f : Int64 → Int64 → Int64} {a b : Int32} {n : Int}
    (hf : (f a.toInt64 b.toInt64).toInt = n.bmod (2 ^ 64)) (hlo : -2 ^ 63 ≤ n)
    (hhi : n < 2 ^ 63) : (saturating f a b).toInt = clamp n := by
  rw [saturating, toInt_narrow, hf, Int.bmod_eq_of_le (by omega) (by omega)]

/-- No value of a variable is farther from zero than the lowest one. -/
theorem natAbs_toInt_le (a : Int32) : a.toInt.natAbs ≤ 2 ^ 31 := by
  have hlo := a.le_toInt
  have hhi := a.toInt_lt
  omega

/-- The product of two values fits 64 bits. -/
theorem natAbs_mul_le (a b : Int32) : (a.toInt * b.toInt).natAbs ≤ 2 ^ 62 := by
  rw [Int.natAbs_mul, show 2 ^ 62 = 2 ^ 31 * 2 ^ 31 by decide]
  exact Nat.mul_le_mul (natAbs_toInt_le a) (natAbs_toInt_le b)

/-- Every operation stores its exact result, clamped. -/
theorem VariableOperation.toInt_apply (op : VariableOperation) (current operand : Int32) :
    (op.apply current operand).toInt = clamp (op.exact current.toInt operand.toInt) := by
  have hcurrent := natAbs_toInt_le current
  have hoperand := natAbs_toInt_le operand
  cases op with
  | set => exact (clamp_toInt operand).symm
  | add =>
    apply toInt_saturating (n := current.toInt + operand.toInt)
    · rw [Int64.toInt_add, Int32.toInt_toInt64, Int32.toInt_toInt64]
    · omega
    · omega
  | sub =>
    apply toInt_saturating (n := current.toInt - operand.toInt)
    · rw [Int64.toInt_sub, Int32.toInt_toInt64, Int32.toInt_toInt64]
    · omega
    · omega
  | mul =>
    have hproduct := natAbs_mul_le current operand
    apply toInt_saturating (n := current.toInt * operand.toInt)
    · rw [Int64.toInt_mul, Int32.toInt_toInt64, Int32.toInt_toInt64]
    · omega
    · omega
  | div =>
    have hquotient := Int.natAbs_tdiv_le_natAbs current.toInt operand.toInt
    apply toInt_saturating (n := current.toInt.tdiv operand.toInt)
    · rw [Int64.toInt_div, Int32.toInt_toInt64, Int32.toInt_toInt64]
    · omega
    · omega
  | mod =>
    have hremainder := clamp_toInt (current % operand)
    rw [Int32.toInt_mod] at hremainder
    exact (Int32.toInt_mod current operand).trans hremainder.symm

/-- A quotient of two values is out of range in one case alone. -/
theorem clamp_tdiv_eq_iff (a b : Int32) :
    clamp (a.toInt.tdiv b.toInt) = a.toInt.tdiv b.toInt ↔
      ¬ (a.toInt = -2 ^ 31 ∧ b.toInt = -1) := by
  have ha := natAbs_toInt_le a
  have hquotient := Int.natAbs_tdiv_le_natAbs a.toInt b.toInt
  constructor
  · rintro hfits ⟨hmin, hminus⟩
    rw [hmin, hminus] at hfits
    exact absurd hfits (by decide)
  · intro hother
    apply clamp_eq_self (by omega)
    rw [← Int.not_le]
    intro hlarge
    -- The quotient is as far from zero as a dividend can be, so the divisor is a unit.
    have hfar : a.toInt.natAbs / b.toInt.natAbs = 2 ^ 31 := by
      have habs := Int.natAbs_tdiv a.toInt b.toInt
      change _ = a.toInt.natAbs / b.toInt.natAbs at habs
      omega
    have hproduct := Nat.div_mul_le_self a.toInt.natAbs b.toInt.natAbs
    rw [hfar] at hproduct
    have hunit : b.toInt.natAbs = 1 := by
      have hpos : b.toInt.natAbs ≠ 0 := by
        intro hzero
        rw [hzero, Nat.div_zero] at hfar
        omega
      omega
    rcases Int.natAbs_eq_iff.mp hunit with hone | hminus
    · have hhi := a.toInt_lt
      rw [hone, Int.natCast_one, Int.tdiv_one] at hlarge
      omega
    · rw [hminus, Int.natCast_one, Int.tdiv_neg, Int.tdiv_one] at hlarge
      exact hother ⟨by omega, hminus⟩

/-- What a quotient and a remainder are to a dividend `x` and a divisor `y`. The quotient is exact
but for that of the lowest value by -1, and where it is exact the two make up the dividend; the
remainder is smaller than the divisor and has the sign of the dividend. -/
structure Division (x y quotient remainder : Int32) : Prop where
  exact_iff : quotient.toInt = x.toInt.tdiv y.toInt ↔ ¬ (x.toInt = -2 ^ 31 ∧ y.toInt = -1)
  whole : quotient.toInt = x.toInt.tdiv y.toInt →
    x.toInt = quotient.toInt * y.toInt + remainder.toInt
  smaller : remainder.toInt.natAbs < y.toInt.natAbs
  nonneg : 0 ≤ x.toInt → 0 ≤ remainder.toInt
  nonpos : x.toInt ≤ 0 → remainder.toInt ≤ 0

namespace ControlVariables

variable {p : ControlVariables} {x y : Int32}

/-- The update of a variable fails in one case alone. -/
def Fails (p : ControlVariables) (operand : Int32) : Prop :=
  (p.operation = .div ∨ p.operation = .mod) ∧ operand = 0

instance (p : ControlVariables) (operand : Int32) : Decidable (p.Fails operand) := by
  unfold Fails
  infer_instance

/-- Where the update fails there is nothing to store. -/
theorem compute_of_fails (h : p.Fails y) (x : Int32) :
    p.compute x y = .error (.divisionByZero p.target) := by
  obtain ⟨hop | hop, rfl⟩ := h <;> simp [compute, hop, VariableOperation.divides]

/-- Otherwise there is. -/
theorem compute_of_not_fails (h : ¬ p.Fails y) (x : Int32) :
    p.compute x y = .ok (p.operation.apply x y) := by
  unfold compute
  apply if_neg
  intro hzero
  rw [Bool.and_eq_true, beq_iff_eq] at hzero
  obtain ⟨hdivides, hzero⟩ := hzero
  apply h
  refine ⟨?_, hzero⟩
  cases hop : p.operation <;> simp [hop, VariableOperation.divides] at hdivides ⊢

/-- Whatever is stored for the quotient and the remainder of two values belongs together. -/
theorem division_of_compute {q r : Int32}
    (hq : ({ p with operation := .div } : ControlVariables).compute x y = .ok q)
    (hr : ({ p with operation := .mod } : ControlVariables).compute x y = .ok r) :
    Division x y q r := by
  have hy : y ≠ 0 := by
    rintro rfl
    rw [compute_of_fails ⟨.inl rfl, rfl⟩] at hq
    cases hq
  have hpos : y.toInt ≠ 0 := fun h => hy (Int32.toInt_inj.mp h)
  rw [compute_of_not_fails fun h => hy h.2] at hq hr
  obtain rfl := Except.ok.inj hq
  obtain rfl := Except.ok.inj hr
  have hremainder : (VariableOperation.mod.apply x y).toInt = x.toInt.tmod y.toInt :=
    Int32.toInt_mod x y
  have hquotient : (VariableOperation.div.apply x y).toInt = clamp (x.toInt.tdiv y.toInt) :=
    VariableOperation.toInt_apply .div x y
  constructor
  case exact_iff => rw [hquotient, clamp_tdiv_eq_iff]
  case whole =>
    intro hexact
    rw [hexact, hremainder, Int.mul_comm, Int.mul_tdiv_add_tmod]
  case smaller =>
    rw [hremainder, Int.natAbs_tmod]
    exact Nat.mod_lt _ (Int.natAbs_pos.mpr hpos)
  case nonneg =>
    intro hx
    rw [hremainder]
    exact Int.tmod_nonneg _ hx
  case nonpos =>
    intro hx
    have hneg := Int.tmod_nonneg y.toInt (Int.neg_nonneg_of_nonpos hx)
    rw [Int.neg_tmod] at hneg
    rw [hremainder]
    omega

end ControlVariables

namespace Command

/-- An idle command runs the update of its variable once. -/
theorem execute_controlVariables {c : Command} {p : ControlVariables} (hidle : c.phase = .idle)
    (ha : c.action = .controlVariables p) {η : Type} [Host η] (owner : Owner) (w : World η) :
    c.execute owner w = c.settle
      (match p.compute (w.game.getVariable p.target) (p.operand.value w.game) with
      | .ok value =>
        ⟨.ok .completed, c.memory, { w with game := w.game.setVariable p.target value }⟩
      | .error e => ⟨.error e, c.memory, w⟩) := by
  rw [execute, if_pos hidle, ha]
  rfl

end Command

end EventScript
