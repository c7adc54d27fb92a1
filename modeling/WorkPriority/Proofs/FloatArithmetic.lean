import WorkPriority.Proofs.Packing

/-!
# Arithmetic of floating point numbers

What is needed of the operations on numbers to see that a formula has a finite result.
A sum or product that is finite has finite parts (`isFinite_of_isFinite_add`,
`isFinite_of_isFinite_mul`), and it is the number nearest to the exact sum or product of
these (`bits_add`, `bits_mul`). Of differences and quotients it is enough to know when they
are numbers at all, and that a number divided by itself is one (`div_self_eq_one`).

Since rounding keeps the order, what lies between two numbers is rounded to something
between them. So a number can be multiplied by a fraction of one (`mul_mem_uIcc`), and what
is added can be moved towards zero (`isFinite_add_of_mem_uIcc`), and the result stays
finite.
-/

namespace WorkPriority.Decimal

open Float.Model Float.Model.UnpackedFloat

/-! ### Numbers that are not finite -/

/-- An unpacked number as a number. -/
def packedAs (u : UnpackedFloat) : Float := .ofModel (Float.Model.pack u)

theorem isFinite_packedAs {u : UnpackedFloat} (h : (packedAs u).isFinite = true) :
    u.isFinite = true := by
  cases u with
  | infinity s => cases s <;> exact absurd h (by decide)
  | notANumber => exact absurd h (by decide)
  | zero s => rfl
  | finite s m e hm => rfl

theorem pack_ne_packedNaN {u : UnpackedFloat} (h : u.isNaN = false) :
    UnpackedFloat.pack Format.binary64 u ≠ packedNaN Format.binary64 := by
  intro heq
  have hexp := congrArg unpackExponent heq
  have hmant := congrArg unpackMantissa heq
  rw [packedNaN, unpackExponent_packComponents] at hexp
  rw [packedNaN, unpackMantissa_packComponents] at hmant
  cases u with
  | infinity s =>
    rw [UnpackedFloat.pack, packedInfinity, unpackMantissa_packComponents] at hmant
    exact absurd hmant (by decide)
  | notANumber => exact Bool.false_ne_true h.symm
  | zero s =>
    rw [UnpackedFloat.pack, packedZero, unpackExponent_packComponents] at hexp
    exact absurd hexp (by decide)
  | finite s m e hm =>
    rw [UnpackedFloat.pack] at hexp hmant
    dsimp only at hexp hmant
    split at hexp
    · rename_i hover
      rw [if_pos hover, packedInfinity, unpackMantissa_packComponents] at hmant
      exact absurd hmant (by decide)
    · rename_i hover
      split at hexp
      · rw [unpackExponent_packComponents, ← BitVec.toNat_inj, BitVec.toNat_ofNat,
          Nat.mod_eq_of_lt (by omega)] at hexp
        have : (-1#11).toNat = 2047 := rfl
        omega
      · rw [unpackExponent_packComponents] at hexp
        exact absurd hexp (by decide)

theorem isNaN_packedAs {u : UnpackedFloat} (h : u.isNaN = false) : (packedAs u).isNaN = false :=
  Bool.eq_false_iff.2 fun hn => pack_ne_packedNaN h ((isNaN_unpack_iff_of_valid valid_pack).1 hn)

theorem mul_eq_packedAs (x y : Float) :
    x * y = packedAs (UnpackedFloat.mul Format.binary64 x.toModel.unpack y.toModel.unpack) := rfl

theorem add_eq_packedAs (x y : Float) :
    x + y = packedAs (UnpackedFloat.add Format.binary64 x.toModel.unpack y.toModel.unpack) := rfl

theorem sub_eq_packedAs (x y : Float) :
    x - y = packedAs (UnpackedFloat.sub Format.binary64 x.toModel.unpack y.toModel.unpack) := rfl

theorem div_eq_packedAs (x y : Float) :
    x / y = packedAs (UnpackedFloat.div Format.binary64 x.toModel.unpack y.toModel.unpack) := rfl

/-- If an operation has finite results of finite operands alone, a result that is finite
    when packed has finite operands. -/
theorem isFinite_operands {op : UnpackedFloat → UnpackedFloat → UnpackedFloat}
    (hop : ∀ u v, (op u v).isFinite = true → u.isFinite = true ∧ v.isFinite = true) {x y : Float}
    (h : (packedAs (op x.toModel.unpack y.toModel.unpack)).isFinite = true) :
    x.isFinite = true ∧ y.isFinite = true :=
  hop _ _ (isFinite_packedAs h)

theorem isFinite_of_isFinite_mul {x y : Float} (h : (x * y).isFinite = true) :
    x.isFinite = true ∧ y.isFinite = true := by
  refine isFinite_operands (fun u v h => ?_) (mul_eq_packedAs x y ▸ h)
  cases u <;> cases v <;>
    first
    | exact ⟨rfl, rfl⟩
    | exact absurd h Bool.false_ne_true

theorem isFinite_of_isFinite_add {x y : Float} (h : (x + y).isFinite = true) :
    x.isFinite = true ∧ y.isFinite = true := by
  refine isFinite_operands (fun u v h => ?_) (add_eq_packedAs x y ▸ h)
  cases u <;> cases v <;>
    first
    | exact ⟨rfl, rfl⟩
    | exact absurd h Bool.false_ne_true
    | (rename_i s t; cases s <;> cases t <;> exact absurd h Bool.false_ne_true)

/-! ### Sums and products -/

/-- The exact value of a finite number. -/
def exactValue (x : Float) : ℚ := (Binary.decode x).value

variable {x y : Float}

/-- Where the factors have as many digits as there are, or the least exponent, the exponent
    that is aimed at is above that of the product. -/
theorem le_targetExponent_mul {b c : Binary} (hb : b.Legal) (hc : c.Legal)
    (hb0 : b.significand ≠ 0) (hc0 : c.significand ≠ 0) :
    b.exponent + c.exponent ≤ Format.binary64.targetExponent
      (totalExponent (b.significand * c.significand) (b.exponent + c.exponent)) := by
  have hpos : b.significand * c.significand ≠ 0 := Nat.mul_ne_zero hb0 hc0
  have hlog (h : 2 ^ 52 ≤ b.significand * c.significand) :
      52 ≤ (b.significand * c.significand).log2 := (Nat.le_log2 hpos).2 h
  rw [targetExponent_eq]
  by_cases hbe : b.exponent = -1074
  · by_cases hce : c.exponent = -1074
    · omega
    · have := hlog ((hc.normal hce).trans (Nat.le_mul_of_pos_left _ (Nat.pos_of_ne_zero hb0)))
      omega
  · have := hlog ((hb.normal hbe).trans (Nat.le_mul_of_pos_right _ (Nat.pos_of_ne_zero hc0)))
    omega

/-- A product is packed to the number nearest to the exact product. -/
theorem toNat_pack_mul {b c : Binary} (hb : b.Legal) (hc : c.Legal) :
    (UnpackedFloat.pack Format.binary64
        (UnpackedFloat.mul Format.binary64 b.unpacked c.unpacked)).toNat =
      signBit (signOf b.negative * signOf c.negative) + Binary.bitsNear (b.value * c.value) := by
  by_cases hb0 : b.significand = 0
  · rw [Binary.value_of_zero hb0, zero_mul, Binary.bitsNear_zero, Nat.add_zero, Binary.unpacked,
      dif_pos hb0, Binary.unpacked]
    split
    · exact toNat_pack_zero _
    · exact toNat_pack_zero _
  by_cases hc0 : c.significand = 0
  · rw [Binary.value_of_zero hc0, mul_zero, Binary.bitsNear_zero, Nat.add_zero, Binary.unpacked,
      dif_neg hb0, Binary.unpacked, dif_pos hc0]
    exact toNat_pack_zero _
  rw [Binary.unpacked, dif_neg hb0, Binary.unpacked, dif_neg hc0, UnpackedFloat.mul,
    toNat_pack_roundWithAccuracy _ (Nat.mul_pos (Nat.pos_of_ne_zero hb0) (Nat.pos_of_ne_zero hc0))
      (le_targetExponent_mul hb hc hb0 hc0)]
  congr 1
  refine Binary.bitsNear_congr ?_
  rw [abs_mul b.value, Binary.abs_value, Binary.abs_value, abs_of_nonneg (by positivity),
    Nat.cast_mul, zpow_add₀ two_ne_zero]
  ring

/-- A shift to a lesser exponent leaves the value as it is. -/
theorem apply_decreaseExponent (s : Sign) (m : Nat) {e t : Int} (h : t ≤ e) :
    ((s.apply (decreaseExponent m e t).1 : Int) : ℚ) * 2 ^ t = (s.apply m : Int) * 2 ^ e := by
  have hshift : ((m * 2 ^ (e - t).toNat : Nat) : ℚ) * 2 ^ t = m * 2 ^ e := by
    have hcast : ((2 ^ (e - t).toNat : Nat) : ℚ) = 2 ^ (e - t) := cast_pow_toNat 2 (by omega)
    rw [Nat.cast_mul, hcast, mul_assoc, ← zpow_add₀ two_ne_zero, sub_add_cancel]
  rw [decreaseExponent, Nat.shiftLeft_eq]
  cases s with
  | negative =>
    rw [Sign.apply, Sign.apply, Int.cast_neg, Int.cast_neg, Int.cast_natCast, Int.cast_natCast,
      neg_mul, neg_mul, hshift]
  | positive => rw [Sign.apply, Sign.apply, Int.cast_natCast, Int.cast_natCast, hshift]

/-- A scaled whole number is packed to the number nearest to it, with plus unless it is
    negative. -/
theorem exists_toNat_pack_normalize (m : Int) (e : Int) (zeroSign : Sign) :
    ∃ s, (UnpackedFloat.pack Format.binary64
          (UnpackedFloat.normalize Format.binary64 m e zeroSign)).toNat =
        signBit s + Binary.bitsNear (m * 2 ^ e) ∧
      (0 ≤ m → zeroSign = .positive → s = .positive) := by
  rw [UnpackedFloat.normalize]
  split
  · rename_i h
    have hneg : m < 0 := Int.compare_eq_lt.1 h
    have hcast : (((-m).toNat : Nat) : ℚ) = -m := by
      have : (((-m).toNat : Nat) : Int) = -m := Int.toNat_of_nonneg (by omega)
      exact_mod_cast congrArg (Int.cast : Int → ℚ) this
    refine ⟨.negative, ?_, fun hm => absurd hneg (not_lt.2 hm)⟩
    rw [toNat_pack_round _ (by omega), hcast, neg_mul]
    congr 1
    exact Binary.bitsNear_congr (abs_neg _)
  · rename_i h
    have hzero : m = 0 := Int.compare_eq_eq.1 h
    refine ⟨zeroSign, ?_, fun _ hs => hs⟩
    rw [toNat_pack_zero, hzero, Int.cast_zero, zero_mul, Binary.bitsNear_zero, Nat.add_zero]
  · rename_i h
    have hpos : 0 < m := Int.compare_eq_gt.1 h
    have hcast : ((m.toNat : Nat) : ℚ) = m := by
      have : ((m.toNat : Nat) : Int) = m := Int.toNat_of_nonneg (by omega)
      exact_mod_cast congrArg (Int.cast : Int → ℚ) this
    refine ⟨.positive, ?_, fun _ _ => rfl⟩
    rw [toNat_pack_round _ (by omega), hcast]

theorem apply_signOf_nonneg {negative : Bool} (h : negative = false) (m : Nat) :
    0 ≤ (signOf negative).apply m := by
  rw [h]
  exact Int.natCast_nonneg m

/-- A sum is packed to the number nearest to the exact sum, with one sign or the other, and
    with plus if both parts have it. -/
theorem exists_toNat_pack_add {b c : Binary} (hb : b.Legal) (hc : c.Legal) :
    ∃ s, (UnpackedFloat.pack Format.binary64
          (UnpackedFloat.add Format.binary64 b.unpacked c.unpacked)).toNat =
        signBit s + Binary.bitsNear (b.value + c.value) ∧
      (b.negative = false → c.negative = false → s = .positive) := by
  by_cases hb0 : b.significand = 0
  · by_cases hc0 : c.significand = 0
    · have hzero : ∃ s, UnpackedFloat.add Format.binary64 b.unpacked c.unpacked = .zero s ∧
          (b.negative = false → c.negative = false → s = .positive) := by
        rw [Binary.unpacked, dif_pos hb0, Binary.unpacked, dif_pos hc0, UnpackedFloat.add]
        split
        · exact ⟨_, rfl, fun hneg _ => congrArg signOf hneg⟩
        · exact ⟨_, rfl, fun _ _ => rfl⟩
      obtain ⟨s, hs, hsign⟩ := hzero
      refine ⟨s, ?_, hsign⟩
      rw [hs, toNat_pack_zero, Binary.value_of_zero hb0, Binary.value_of_zero hc0, zero_add,
        Binary.bitsNear_zero, Nat.add_zero]
    · have hself : UnpackedFloat.add Format.binary64 b.unpacked c.unpacked = c.unpacked := by
        rw [Binary.unpacked, dif_pos hb0, Binary.unpacked, dif_neg hc0]
        rfl
      rw [hself, Binary.value_of_zero hb0, zero_add]
      exact ⟨_, hc.toNat_pack_unpacked, fun _ hneg => congrArg signOf hneg⟩
  · by_cases hc0 : c.significand = 0
    · have hself : UnpackedFloat.add Format.binary64 b.unpacked c.unpacked = b.unpacked := by
        rw [Binary.unpacked, dif_neg hb0, Binary.unpacked, dif_pos hc0]
        rfl
      rw [hself, Binary.value_of_zero hc0, add_zero]
      exact ⟨_, hb.toNat_pack_unpacked, fun hneg _ => congrArg signOf hneg⟩
    · -- Both are shifted to the lesser exponent, where their significands are added exactly.
      rw [Binary.unpacked, dif_neg hb0, Binary.unpacked, dif_neg hc0, UnpackedFloat.add]
      obtain ⟨s, hs, hsign⟩ := exists_toNat_pack_normalize
        ((signOf b.negative).apply (decreaseExponent b.significand b.exponent
          (min b.exponent c.exponent)).1 + (signOf c.negative).apply (decreaseExponent
          c.significand c.exponent (min b.exponent c.exponent)).1)
        (min b.exponent c.exponent) .positive
      rw [Int.cast_add, add_mul, apply_decreaseExponent _ _ (min_le_left _ _),
        apply_decreaseExponent _ _ (min_le_right _ _), ← Binary.value_eq_apply,
        ← Binary.value_eq_apply] at hs
      refine ⟨s, hs, fun hbneg hcneg => hsign ?_ rfl⟩
      exact add_nonneg (apply_signOf_nonneg hbneg _) (apply_signOf_nonneg hcneg _)

theorem toNat_toBits_mul (hx : x.isFinite = true) (hy : y.isFinite = true) :
    (x * y).toBits.toNat =
      signBit (signOf (Binary.decode x).negative * signOf (Binary.decode y).negative) +
        Binary.bitsNear (exactValue x * exactValue y) := by
  rw [mul_eq_packedAs, Binary.unpack_eq_unpacked hx, Binary.unpack_eq_unpacked hy]
  exact toNat_pack_mul (Binary.legal_decode hx) (Binary.legal_decode hy)

theorem exists_toNat_toBits_add (hx : x.isFinite = true) (hy : y.isFinite = true) :
    ∃ s, (x + y).toBits.toNat = signBit s + Binary.bitsNear (exactValue x + exactValue y) ∧
      ((Binary.decode x).negative = false → (Binary.decode y).negative = false →
        s = .positive) := by
  rw [add_eq_packedAs, Binary.unpack_eq_unpacked hx, Binary.unpack_eq_unpacked hy]
  exact exists_toNat_pack_add (Binary.legal_decode hx) (Binary.legal_decode hy)

theorem bits_add (hx : x.isFinite = true) (hy : y.isFinite = true) :
    (Binary.decode (x + y)).bits = Binary.bitsNear (exactValue x + exactValue y) := by
  obtain ⟨s, hs, -⟩ := exists_toNat_toBits_add hx hy
  exact (Binary.decode_of_toBits hs (Binary.bitsNear_le _)).1

theorem bits_mul (hx : x.isFinite = true) (hy : y.isFinite = true) :
    (Binary.decode (x * y)).bits = Binary.bitsNear (exactValue x * exactValue y) :=
  (Binary.decode_of_toBits (toNat_toBits_mul hx hy) (Binary.bitsNear_le _)).1

theorem signOf_mul (hx : x.isFinite = true) (hy : y.isFinite = true) :
    signOf (Binary.decode (x * y)).negative =
      signOf (Binary.decode x).negative * signOf (Binary.decode y).negative :=
  (Binary.decode_of_toBits (toNat_toBits_mul hx hy) (Binary.bitsNear_le _)).2

/-! ### Differences and quotients -/

theorem isNaN_roundWithAccuracy (s : Sign) (m : Nat) (e : Int) (acc : Accuracy) :
    (roundWithAccuracy Format.binary64 s m e acc).isNaN = false := by
  rw [roundWithAccuracy]
  dsimp only
  split
  · rfl
  · rfl

theorem isNaN_normalize (m : Int) (e : Int) (s : Sign) :
    (UnpackedFloat.normalize Format.binary64 m e s).isNaN = false := by
  rw [UnpackedFloat.normalize]
  split
  · exact isNaN_roundWithAccuracy ..
  · rfl
  · exact isNaN_roundWithAccuracy ..

theorem isNaN_sub (hx : x.isNaN = false) (hy : y.isFinite = true) : (x - y).isNaN = false := by
  change x.toModel.unpack.isNaN = false at hx
  change y.toModel.unpack.isFinite = true at hy
  rw [sub_eq_packedAs]
  refine isNaN_packedAs ?_
  generalize x.toModel.unpack = u at hx ⊢
  generalize y.toModel.unpack = v at hy ⊢
  cases v with
  | infinity t => exact absurd hy Bool.false_ne_true
  | notANumber => exact absurd hy Bool.false_ne_true
  | zero t =>
    cases u with
    | infinity s => rfl
    | notANumber => exact absurd hx.symm Bool.false_ne_true
    | zero s =>
      rw [UnpackedFloat.sub]
      split
      · rfl
      · rfl
    | finite s m e hm => rfl
  | finite t n f hn =>
    cases u with
    | infinity s => rfl
    | notANumber => exact absurd hx.symm Bool.false_ne_true
    | zero s => rfl
    | finite s m e hm => exact isNaN_normalize ..

theorem isNaN_div (hx : x.isNaN = false) (hy : y.isFinite = true)
    (hy0 : (Binary.decode y).significand ≠ 0) : (x / y).isNaN = false := by
  change x.toModel.unpack.isNaN = false at hx
  rw [div_eq_packedAs, Binary.unpack_eq_unpacked hy, Binary.unpacked, dif_neg hy0]
  refine isNaN_packedAs ?_
  generalize x.toModel.unpack = u at hx ⊢
  cases u with
  | infinity s => rfl
  | notANumber => exact absurd hx.symm Bool.false_ne_true
  | zero s => rfl
  | finite s m e hm => exact isNaN_roundWithAccuracy ..

/-- Only what is finite and not zero may be divided by itself. -/
theorem isFinite_of_isNaN_div_self (h : (x / x).isNaN = false) :
    x.isFinite = true ∧ (Binary.decode x).significand ≠ 0 := by
  have hnan : (packedAs .notANumber).isNaN = true := by decide
  rw [div_eq_packedAs] at h
  have hx : x.isFinite = true := by
    change x.toModel.unpack.isFinite = true
    generalize x.toModel.unpack = u at h ⊢
    cases u with
    | infinity s => exact absurd (h.symm.trans hnan) Bool.false_ne_true
    | notANumber => exact absurd (h.symm.trans hnan) Bool.false_ne_true
    | zero s => rfl
    | finite s m e hm => rfl
  refine ⟨hx, fun h0 => ?_⟩
  rw [Binary.unpack_eq_unpacked hx, Binary.unpacked, dif_pos h0] at h
  exact absurd (h.symm.trans hnan) Bool.false_ne_true

theorem divCore_self {m : Nat} (hm : 0 < m) (e : Int) :
    divCore Format.binary64 m e m e = (2 ^ 53, -53, .exact) := by
  have htarget : Format.binary64.targetExponent 0 = -53 := rfl
  rw [divCore, sub_self, sub_self, htarget]
  change (m <<< 53 / m, (-53 : Int), accuracyOfFraction (m <<< 53 % m) m) = _
  rw [Nat.shiftLeft_eq, Nat.mul_div_cancel_left _ hm, Nat.mul_mod_right]
  rfl

theorem div_self_eq_one (hx : x.isFinite = true) (h0 : (Binary.decode x).significand ≠ 0) :
    x / x = Float.ofNat 1 := by
  rw [div_eq_packedAs, Binary.unpack_eq_unpacked hx, Binary.unpacked, dif_neg h0, UnpackedFloat.div,
    divCore_self (Nat.pos_of_ne_zero h0)]
  cases signOf (Binary.decode x).negative with
  | negative => exact congrArg Float.ofModel (by decide)
  | positive => exact congrArg Float.ofModel (by decide)

/-! ### The order -/

theorem lt_iff_lt_unpack : x < y ↔
    UnpackedFloat.compare x.toModel.unpack y.toModel.unpack = some .lt := by
  change decide ((UnpackedFloat.compare _ _ == some .lt) = true) = true ↔ _
  rw [decide_eq_true_iff, beq_iff_eq]

theorem lt_iff_exactValue_lt (hx : x.isFinite = true) (hy : y.isFinite = true) :
    x < y ↔ exactValue x < exactValue y := by
  rw [lt_iff_lt_unpack, Binary.unpack_eq_unpacked hx, Binary.unpack_eq_unpacked hy]
  exact Binary.compare_unpacked_eq_lt_iff (Binary.legal_decode hx) (Binary.legal_decode hy)

/-- Of two numbers of which one is less than the other, none is `nan`. -/
theorem isNaN_of_lt (h : x < y) : x.isNaN = false ∧ y.isNaN = false :=
  isNaN_of_compare (lt_iff_lt_unpack.1 h)

/-! ### Between two numbers -/

theorem bits_lt_infinite (hx : x.isFinite = true) :
    (Binary.decode x).bits < Binary.infiniteBits := (Binary.isFinite_iff_bits x).1 hx

theorem bitsNear_exactValue (hx : x.isFinite = true) :
    Binary.bitsNear (exactValue x) = (Binary.decode x).bits :=
  (Binary.legal_decode hx).bitsNear_value

/-- What is added to a number may be moved towards zero: the sum stays finite. -/
theorem isFinite_add_of_mem_uIcc {z : Float} (hx : x.isFinite = true) (hy : y.isFinite = true)
    (hz : (x + z).isFinite = true) (h : exactValue y ∈ Set.uIcc 0 (exactValue z)) :
    (x + y).isFinite = true := by
  have hzf := (isFinite_of_isFinite_add hz).2
  have hle : |exactValue x + exactValue y| ≤ max |exactValue x| |exactValue x + exactValue z| := by
    rcases Set.mem_uIcc.1 h with ⟨hlow, hhigh⟩ | ⟨hlow, hhigh⟩
    · exact abs_le_max_abs_abs (by linarith) (by linarith)
    · rw [max_comm]
      exact abs_le_max_abs_abs (by linarith) (by linarith)
  rw [Binary.isFinite_iff_bits, bits_add hx hy]
  rcases le_max_iff.1 hle with hle | hle
  · calc Binary.bitsNear (exactValue x + exactValue y)
        ≤ Binary.bitsNear (exactValue x) := Binary.bitsNear_mono hle
      _ = (Binary.decode x).bits := bitsNear_exactValue hx
      _ < Binary.infiniteBits := bits_lt_infinite hx
  · calc Binary.bitsNear (exactValue x + exactValue y)
        ≤ Binary.bitsNear (exactValue x + exactValue z) := Binary.bitsNear_mono hle
      _ = (Binary.decode (x + z)).bits := (bits_add hx hzf).symm
      _ < Binary.infiniteBits := bits_lt_infinite hz

theorem signOf_injective : Function.Injective signOf := by
  intro a b h
  cases a <;> cases b <;> first | rfl | cases h

theorem exactValue_zero : exactValue (Float.ofNat 0) = 0 := Binary.value_of_zero (by decide)

theorem exactValue_one : exactValue (Float.ofNat 1) = 1 := by
  have hdecode : Binary.decode (Float.ofNat 1) = ⟨false, 2 ^ 52, -52, true⟩ := rfl
  rw [exactValue, hdecode, Binary.value]
  norm_num

/-- A fraction of a number lies between zero and the number, taken once. -/
theorem mul_mem_uIcc {t d : Float} (ht : t.isFinite = true) (h0 : 0 ≤ exactValue t)
    (h1 : exactValue t ≤ 1) (hd : (Float.ofNat 1 * d).isFinite = true) :
    (t * d).isFinite = true ∧ exactValue (t * d) ∈ Set.uIcc 0 (exactValue (Float.ofNat 1 * d)) := by
  obtain ⟨hone, hdf⟩ := isFinite_of_isFinite_mul hd
  have hbits : (Binary.decode (t * d)).bits ≤ (Binary.decode (Float.ofNat 1 * d)).bits := by
    rw [bits_mul ht hdf, bits_mul hone hdf]
    refine Binary.bitsNear_mono ?_
    rw [abs_mul, exactValue_one, one_mul, abs_of_nonneg h0]
    exact mul_le_of_le_one_left (abs_nonneg _) h1
  have htd : (t * d).isFinite = true :=
    (Binary.isFinite_iff_bits _).2 (hbits.trans_lt (bits_lt_infinite hd))
  have habs : |exactValue (t * d)| ≤ |exactValue (Float.ofNat 1 * d)| :=
    (Binary.legal_decode htd).abs_value_le (Binary.legal_decode hd) hbits
  refine ⟨htd, ?_⟩
  have hpart : exactValue (t * d) = _ := Binary.value_eq_abs _
  have hwhole : exactValue (Float.ofNat 1 * d) = _ := Binary.value_eq_abs _
  cases hneg : (Binary.decode t).negative with
  | true =>
    -- Then the fraction is a negative zero, which leaves nothing of the number.
    have hzero : exactValue t = 0 := by
      have hle : exactValue t = _ := Binary.value_eq_abs _
      rw [if_pos hneg] at hle
      exact le_antisymm (hle.trans_le (neg_nonpos.2 (abs_nonneg _))) h0
    have hproduct : exactValue (t * d) = 0 := by
      have hbits := bits_mul ht hdf
      rw [hzero, zero_mul, Binary.bitsNear_zero, Binary.bits] at hbits
      exact Binary.value_of_zero (Nat.eq_zero_of_add_eq_zero_left hbits)
    rw [hproduct]
    exact Set.left_mem_uIcc
  | false =>
    have hpos : (Binary.decode (Float.ofNat 1)).negative = false := by decide
    have hsign : (Binary.decode (t * d)).negative = (Binary.decode (Float.ofNat 1 * d)).negative :=
      signOf_injective (by rw [signOf_mul ht hdf, signOf_mul hone hdf, hneg, hpos])
    rw [hsign] at hpart
    rw [hpart, hwhole, Set.mem_uIcc]
    split
    · exact .inr ⟨neg_le_neg habs, neg_nonpos.2 (abs_nonneg _)⟩
    · exact .inl ⟨abs_nonneg _, habs⟩

end WorkPriority.Decimal
