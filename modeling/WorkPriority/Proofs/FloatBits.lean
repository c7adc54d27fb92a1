import WorkPriority.Decimal.Binary
import Mathlib

/-!
# The bits of floating point numbers

Numbers are read and written through their bits, whereas they are compared as
what the bits stand for. Here the two are put together: the bits say which
numbers are finite and which are none at all (`isFinite_iff`, `isNaN_iff`), a
finite number has legal parts (`Binary.legal_decode`), and a number is known by
its sign and the bits of its parts (`Binary.nearest_eq`).

Adjacent numbers have adjacent bits because the field of the exponent stands
above that of the fraction. So `Binary.bits` puts the parts together by a sum,
in which the leading digit of a normal significand, that has no bit of its own,
adds one to the field of the exponent.
-/

namespace WorkPriority.Decimal

open Float.Model Float.Model.UnpackedFloat

/-- A number is equal to itself. -/
theorem beq_self {x : Float} (h : x.isNaN = false) : (x == x) = true := by
  rw [Float.isNaN_eq_decide_eq_nan, decide_eq_false_iff_not] at h
  exact Float.beq_self_iff.2 h

/-- Only numbers can be compared. -/
theorem isNaN_of_compare {x y : Float} {o : Ordering}
    (h : UnpackedFloat.compare x.toModel.unpack y.toModel.unpack = some o) :
    x.isNaN = false ∧ y.isNaN = false := by
  change x.toModel.unpack.isNaN = false ∧ y.toModel.unpack.isNaN = false
  generalize x.toModel.unpack = u at h ⊢
  generalize y.toModel.unpack = v at h ⊢
  cases u <;> cases v <;>
    first
    | exact ⟨rfl, rfl⟩
    | cases h

/-- What is equal to something is a number. -/
theorem isNaN_of_beq {x y : Float} (h : (x == y) = true) : x.isNaN = false ∧ y.isNaN = false := by
  change (UnpackedFloat.compare x.toModel.unpack y.toModel.unpack == some .eq) = true at h
  exact isNaN_of_compare (beq_iff_eq.1 h)

/-! ### Fields -/

/-- The field of the exponent. -/
def exponentField (x : Float) : Nat := x.toBits.toNat / 2 ^ 52 % 2 ^ 11

/-- The field of the fraction. -/
def fractionField (x : Float) : Nat := x.toBits.toNat % 2 ^ 52

/-- The bits of a number as packed. -/
def packed (x : Float) : BitVec Format.binary64.numBits := x.toBits.toBitVec

theorem unpack_eq (x : Float) :
    x.toModel.unpack = UnpackedFloat.unpack Format.binary64 (packed x) :=
  rfl

theorem toNat_unpackExponent (b : BitVec Format.binary64.numBits) :
    (unpackExponent b).toNat = b.toNat / 2 ^ 52 % 2 ^ 11 := by
  simp [unpackExponent, BitVec.extractLsb, Nat.shiftRight_eq_div_pow]

theorem toNat_unpackMantissa (b : BitVec Format.binary64.numBits) :
    (unpackMantissa b).toNat = b.toNat % 2 ^ 52 := by
  simp [unpackMantissa, BitVec.extractLsb]

theorem unpackExponent_eq_iff (x : Float) (n : Nat) (hn : n < 2048) :
    unpackExponent (packed x) = BitVec.ofNat 11 n ↔ exponentField x = n := by
  have h : n % 2 ^ 11 = n := Nat.mod_eq_of_lt hn
  rw [← BitVec.toNat_inj, toNat_unpackExponent, BitVec.toNat_ofNat]
  exact iff_of_eq (congrArg (_ = ·) h)

theorem unpackMantissa_eq_zero_iff (x : Float) :
    unpackMantissa (packed x) = 0#52 ↔ fractionField x = 0 := by
  rw [← BitVec.toNat_inj, toNat_unpackMantissa]
  exact .rfl

/-- The highest exponent is that of infinities and of what is not a number. -/
theorem isFinite_iff (x : Float) : x.isFinite = true ↔ exponentField x ≠ 2047 := by
  rw [ne_eq, ← not_congr (unpackExponent_eq_iff x 2047 (by decide))]
  change x.toModel.unpack.isFinite = true ↔ _
  rw [unpack_eq, UnpackedFloat.unpack]
  dsimp only
  split
  · rename_i hexp
    refine iff_of_false ?_ (not_not.2 hexp)
    split <;> exact Bool.false_ne_true
  · rename_i hexp
    refine iff_of_true ?_ hexp
    split
    · split <;> rfl
    · rfl

/-- What is not a number has the highest exponent and a fraction, which infinities have not. -/
theorem isNaN_iff (x : Float) :
    x.isNaN = true ↔ exponentField x = 2047 ∧ fractionField x ≠ 0 := by
  rw [← unpackExponent_eq_iff x 2047 (by decide), ne_eq, ← unpackMantissa_eq_zero_iff]
  change x.toModel.unpack.isNaN = true ↔ _
  rw [unpack_eq, UnpackedFloat.unpack]
  dsimp only
  split
  · rename_i hexp
    split
    · rename_i hm
      exact iff_of_false Bool.false_ne_true fun hn => hn.2 hm
    · rename_i hm
      exact iff_of_true rfl ⟨hexp, hm⟩
  · rename_i hexp
    refine iff_of_false ?_ fun hn => hexp hn.1
    split
    · split <;> exact Bool.false_ne_true
    · exact Bool.false_ne_true

theorem isNaN_of_isFinite {x : Float} (h : x.isFinite = true) : x.isNaN = false :=
  Bool.eq_false_iff.2 fun hn => (isFinite_iff x).1 h ((isNaN_iff x).1 hn).1

/-! ### Parts -/

namespace Binary

/-- The bits of a number with these parts, but for the sign. -/
def bits (b : Binary) : Nat := (b.exponent + 1074).toNat * 2 ^ 52 + b.significand

/-- The parts are those of a finite number. -/
structure Legal (b : Binary) : Prop where
  /-- The significand has 53 digits at most. -/
  significand_lt : b.significand < 2 ^ 53
  /-- There is a least exponent. -/
  exponent_ge : -1074 ≤ b.exponent
  /-- There is a greatest exponent. -/
  exponent_le : b.exponent ≤ 971
  /-- Only with the least exponent the significand may have fewer digits. -/
  normal : b.exponent ≠ -1074 → 2 ^ 52 ≤ b.significand
  /-- Below a power of two the numbers are twice as dense, but for the least powers. -/
  narrow : b.narrow = true ↔ b.significand = 2 ^ 52 ∧ b.exponent ≠ -1074

theorem decode_subnormal {x : Float} (h : exponentField x = 0) : decode x =
    ⟨decide (2 ^ 63 ≤ x.toBits.toNat), fractionField x, -1074, false⟩ := by
  rw [decode]
  exact if_pos (beq_iff_eq.2 h)

theorem decode_normal {x : Float} (h : exponentField x ≠ 0) : decode x =
    ⟨decide (2 ^ 63 ≤ x.toBits.toNat), 2 ^ 52 + fractionField x, (exponentField x : Int) - 1075,
      fractionField x == 0 && exponentField x != 1⟩ := by
  rw [decode]
  exact if_neg fun h' => h (beq_iff_eq.1 h')

theorem negative_decode (x : Float) :
    (decode x).negative = decide (2 ^ 63 ≤ x.toBits.toNat) := by
  by_cases h0 : exponentField x = 0
  · rw [decode_subnormal h0]
  · rw [decode_normal h0]

theorem legal_decode {x : Float} (h : x.isFinite = true) : (decode x).Legal := by
  have hfield : exponentField x < 2 ^ 11 := Nat.mod_lt _ (by decide)
  have hfraction : fractionField x < 2 ^ 52 := Nat.mod_lt _ (by decide)
  rw [isFinite_iff] at h
  by_cases h0 : exponentField x = 0
  · rw [decode_subnormal h0]
    refine ⟨by dsimp; omega, by dsimp; omega, by dsimp; omega, by simp, by simp⟩
  · rw [decode_normal h0]
    refine ⟨by dsimp; omega, by dsimp; omega, by dsimp; omega, fun _ => by dsimp; omega, ?_⟩
    simp only [Bool.and_eq_true, beq_iff_eq, bne_iff_ne, ne_eq]
    omega

theorem bits_decode (x : Float) :
    (decode x).bits = exponentField x * 2 ^ 52 + fractionField x := by
  by_cases h0 : exponentField x = 0
  · rw [decode_subnormal h0, bits, h0]
    simp
  · have hexp : ((exponentField x : Int) - 1075 + 1074).toNat = exponentField x - 1 := by omega
    rw [decode_normal h0, bits, hexp]
    dsimp only
    omega

/-- The bits of a number are those of its parts, under the bit of its sign. -/
theorem toNat_toBits (x : Float) : x.toBits.toNat =
    (decode x).bits + if (decode x).negative then 2 ^ 63 else 0 := by
  have hlt : x.toBits.toNat < 2 ^ 64 := x.toBits.toNat_lt
  rw [bits_decode, negative_decode, exponentField, fractionField]
  split
  · rename_i hneg
    have hneg := of_decide_eq_true hneg
    omega
  · rename_i hneg
    have hneg := of_decide_eq_false (Bool.eq_false_iff.2 hneg)
    omega

/-- What has the sign of a number and the bits of its parts is that number. -/
theorem nearest_eq {x : Float} {num den : Nat} (h : nearestBits num den = (decode x).bits) :
    nearest (decode x).negative num den = x := by
  have hpow : Nat.pow 2 63 = 2 ^ 63 := rfl
  rw [nearest, h, hpow, ← toNat_toBits, UInt64.ofNat_toNat, Float.ofBits_toBits]

theorem bits_of_infinite {x : Float} (hn : x.isNaN = false) (hf : x.isFinite = false) :
    (decode x).bits = infiniteBits := by
  have hexp : exponentField x = 2047 := by
    by_contra h
    exact absurd ((isFinite_iff x).2 h) (Bool.eq_false_iff.1 hf)
  have hfraction : fractionField x = 0 := by
    by_contra h
    exact absurd ((isNaN_iff x).2 ⟨hexp, h⟩) (Bool.eq_false_iff.1 hn)
  rw [bits_decode, hexp, hfraction]
  rfl

end Binary
end WorkPriority.Decimal
