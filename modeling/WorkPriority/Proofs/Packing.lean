import WorkPriority.Proofs.Rounding

/-!
# Rounding and packing

An operation computes a significand and an exponent exactly, shifts what is too long,
rounds it and packs the result into bits. Here this is put against the search for what is
nearest to a fraction: the digits that are shifted out are kept just as far as rounding
needs them (`roundedMantissa_shiftRight`), the exponent that is aimed at is the one of the
exact value, and what is packed in the end is the number nearest to it
(`toNat_pack_round`).

In the other direction, what a finite number is unpacked to are its parts
(`Binary.unpack_eq_unpacked`).
-/

namespace WorkPriority.Decimal

open Float.Model Float.Model.UnpackedFloat

/-! ### Shifts -/

/-- Shifted to the right, a mantissa keeps its next digit, and whether there are others. -/
theorem shiftRight_exact (m k : Nat) : ExtendedMantissa.ofMantissaAndAccuracy m .exact >>> k =
    ⟨m / 2 ^ k, 2 * m / 2 ^ k % 2 != 0, 2 * m % 2 ^ k != 0⟩ := by
  induction k with
  | zero =>
    simp [HShiftRight.hShiftRight, Nat.repeat, ExtendedMantissa.ofMantissaAndAccuracy, Nat.mod_one]
  | succ k ih =>
    change ExtendedMantissa.shiftRightOne
      (ExtendedMantissa.ofMantissaAndAccuracy m .exact >>> k) = _
    have hround : 2 * m / 2 ^ (k + 1) = m / 2 ^ k := by
      rw [pow_succ', Nat.mul_div_mul_left _ _ two_pos]
    -- What is dropped is what was dropped before and the digit that was next.
    have hsticky : (2 * m / 2 ^ k % 2 != 0 || 2 * m % 2 ^ k != 0) =
        (2 * m % 2 ^ (k + 1) != 0) := by
      rw [Nat.mod_pow_succ]
      rcases Nat.mod_two_eq_zero_or_one (2 * m / 2 ^ k) with h | h <;> simp [h]
    rw [ih, ExtendedMantissa.shiftRightOne, Nat.div_div_eq_div_mul, ← pow_succ, hround, ← hsticky]

/-- So it is rounded like the quotient. -/
theorem roundedMantissa_shiftRight (m k : Nat) :
    (ExtendedMantissa.ofMantissaAndAccuracy m .exact >>> k).roundedMantissa =
      roundEven m (2 ^ k) := by
  rw [shiftRight_exact]
  have hpos : 0 < 2 ^ k := Nat.two_pow_pos k
  generalize 2 ^ k = d at hpos ⊢
  have hm := Nat.div_add_mod m d
  have hlt := Nat.mod_lt m hpos
  have hdouble : 2 * m = d * (2 * (m / d)) + 2 * (m % d) := by
    conv_lhs => rw [← hm]
    ring
  have hround : 2 * m / d % 2 = 2 * (m % d) / d := by
    have hbit : 2 * (m % d) / d < 2 := Nat.div_lt_of_lt_mul (by omega)
    rw [hdouble, Nat.mul_add_div hpos, Nat.mul_add_mod, Nat.mod_eq_of_lt hbit]
  have hsticky : 2 * m % d = 2 * (m % d) % d := by rw [hdouble, Nat.mul_add_mod]
  rw [hround, hsticky, roundEven]
  generalize m % d = r at hlt ⊢
  rcases lt_trichotomy (2 * r) d with h | h | h
  · rw [Nat.div_eq_of_lt h, Nat.mod_eq_of_lt h, if_pos h]
    cases (2 * r != 0) with
    | true => rfl
    | false => rfl
  · rw [h, Nat.div_self hpos, Nat.mod_self, if_neg (lt_irrefl d), if_neg (lt_irrefl d)]
    rfl
  · have hdiv : 2 * r / d = 1 := Nat.div_eq_of_lt_le (by omega) (by omega)
    have hmod : (2 * r % d != 0) = true := by
      have := Nat.div_add_mod (2 * r) d
      rw [hdiv] at this
      exact bne_iff_ne.2 (by omega)
    rw [hdiv, hmod, if_neg h.not_gt, if_pos h]
    rfl

/-! ### Packing -/

/-- The bit of a sign. -/
def signBit (s : Sign) : Nat := s.toBitVec.toNat * 2 ^ 63

theorem toNat_packComponents (s : Sign) (e : BitVec 11) (m : BitVec 52) :
    (packComponents Format.binary64 s e m).toNat = signBit s + e.toNat * 2 ^ 52 + m.toNat := by
  have he := e.isLt
  have hm := m.isLt
  rw [packComponents, BitVec.toNat_append, BitVec.toNat_append, ← Nat.shiftLeft_add_eq_or_of_lt he,
    ← Nat.shiftLeft_add_eq_or_of_lt hm, Nat.shiftLeft_eq, Nat.shiftLeft_eq, signBit]
  omega

theorem toNat_pack_zero (s : Sign) :
    (UnpackedFloat.pack Format.binary64 (.zero s)).toNat = signBit s := by
  rw [UnpackedFloat.pack, packedZero, toNat_packComponents]
  simp

theorem toNat_pack_finite (s : Sign) {m : Nat} {e : Int} (hm : 0 < m) (hlt : m < 2 ^ 53)
    (hge : -1074 ≤ e) (hnormal : e ≠ -1074 → 2 ^ 52 ≤ m) :
    (UnpackedFloat.pack Format.binary64 (.finite s m e hm)).toNat =
      signBit s + min ((e + 1074).toNat * 2 ^ 52 + m) Binary.infiniteBits := by
  have hinf : Binary.infiniteBits = 2047 * 2 ^ 52 := rfl
  have hbias : e + (Format.binary64.exponentBias : Int) + (52 : Nat) = e + 1075 := by
    have : Format.binary64.exponentBias = 1023 := rfl
    omega
  have hbits : Format.binary64.mantissaBits = 53 := rfl
  rw [UnpackedFloat.pack]
  dsimp only
  rw [hbias, hbits]
  split
  · rename_i hover
    have hexp : (-1#11).toNat = 2047 := rfl
    rw [packedInfinity, toNat_packComponents, hexp, min_eq_right (by omega), hinf]
    exact Nat.add_zero _
  · rename_i hover
    split
    · rename_i hlog
      have hm52 : 2 ^ 52 ≤ m := ((Nat.log2_eq_iff hm.ne').1 (Nat.succ_inj.1 hlog)).1
      rw [toNat_packComponents, BitVec.toNat_ofNat, BitVec.toNat_ofNat, min_eq_left (by omega)]
      omega
    · rename_i hlog
      have hm52 : m < 2 ^ 52 := by
        by_contra hle
        exact hlog (congrArg (· + 1) ((Nat.log2_eq_iff hm.ne').2 ⟨not_lt.1 hle, hlt⟩))
      have hzero : (0#11).toNat = 0 := rfl
      have hfraction : (BitVec.ofNat 52 m).toNat = m := by
        rw [BitVec.toNat_ofNat, Nat.mod_eq_of_lt hm52]
      rw [toNat_packComponents, hzero, hfraction, min_eq_left (by omega)]
      omega

/-! ### Rounding -/

theorem targetExponent_eq (m : Nat) (e : Int) :
    Format.binary64.targetExponent (totalExponent m e) = max (m.log2 + 1 + e - 53) (-1074) :=
  rfl

/-- The exponent that is aimed at is the one of the value. -/
theorem isExponent_targetExponent {m : Nat} (hm : 0 < m) (e : Int) :
    Binary.IsExponent (m * 2 ^ e) (Format.binary64.targetExponent (totalExponent m e)) := by
  have habs : |(m : ℚ) * 2 ^ e| = m * 2 ^ e := abs_of_nonneg (by positivity)
  have hhigh : (m : ℚ) * 2 ^ e < 2 ^ ((m.log2 + 1 : Int) + e) := by
    rw [zpow_add₀ two_ne_zero]
    gcongr
    exact Binary.lt_zpow_log2 m
  have hlow : (2 : ℚ) ^ ((m.log2 : Int) + e) ≤ m * 2 ^ e := by
    rw [zpow_add₀ two_ne_zero]
    gcongr
    exact Binary.zpow_log2_le hm
  rw [targetExponent_eq]
  refine ⟨le_max_right _ _, ?_, fun he => ?_⟩
  · rw [habs]
    refine hhigh.trans_le (zpow_le_zpow_right₀ one_le_two ?_)
    have := le_max_left ((m.log2 : Int) + 1 + e - 53) (-1074)
    omega
  · rw [habs]
    refine le_trans (zpow_le_zpow_right₀ one_le_two ?_) hlow
    omega

/-- A significand that fits is not shifted. -/
theorem shiftToTargetExponent_of_lt {m : Nat} {e : Int} (hm : m < 2 ^ 53) (he : -1074 ≤ e) :
    shiftToTargetExponent Format.binary64 m e .exact =
      (ExtendedMantissa.ofMantissaAndAccuracy m .exact, e) := by
  have hlog : m.log2 < 53 := by
    rcases Nat.eq_zero_or_pos m with rfl | hpos
    · decide
    · exact (Nat.log2_lt hpos.ne').2 hm
  have hshift : (Format.binary64.targetExponent (totalExponent m e) - e).toNat = 0 := by
    rw [targetExponent_eq]
    omega
  rw [shiftToTargetExponent, shiftToExponent, hshift]
  exact congrArg _ (add_zero e)

/-- One that was rounded up to a digit too many is shifted by that. -/
theorem shiftToTargetExponent_carry {e : Int} (he : -1074 ≤ e) :
    shiftToTargetExponent Format.binary64 (2 ^ 53) e .exact =
      (ExtendedMantissa.ofMantissaAndAccuracy (2 ^ 53) .exact >>> 1, e + 1) := by
  have hlog : (2 ^ 53 : Nat).log2 = 53 := Nat.log2_two_pow
  have hshift : (Format.binary64.targetExponent (totalExponent (2 ^ 53) e) - e).toNat = 1 := by
    rw [targetExponent_eq, hlog]
    omega
  rw [shiftToTargetExponent, shiftToExponent, hshift]
  rfl

/-- The number of a significand under an exponent. -/
def ofShifted (s : Sign) (x : ExtendedMantissa × Int) : UnpackedFloat :=
  if h : x.1.mantissa = 0 then .zero s else .finite s x.1.mantissa x.2 (Nat.pos_of_ne_zero h)

/-- What was rounded is shifted once more, for it may have a digit too many. -/
theorem roundWithAccuracy_eq_ofShifted (s : Sign) (m : Nat) (e : Int) :
    roundWithAccuracy Format.binary64 s m e .exact =
      ofShifted s (shiftToTargetExponent Format.binary64
        (shiftToTargetExponent Format.binary64 m e .exact).1.roundedMantissa
        (shiftToTargetExponent Format.binary64 m e .exact).2 .exact) :=
  rfl

/-- The bits of a significand that is carried over are those of the next exponent. -/
theorem toNat_pack_ofShifted (s : Sign) {n : Nat} {t : Int} (hle : n ≤ 2 ^ 53) (hge : -1074 ≤ t)
    (hnormal : t ≠ -1074 → 2 ^ 52 ≤ n) :
    (UnpackedFloat.pack Format.binary64
        (ofShifted s (shiftToTargetExponent Format.binary64 n t .exact))).toNat =
      signBit s + min ((t + 1074).toNat * 2 ^ 52 + n) Binary.infiniteBits := by
  rcases Nat.lt_or_eq_of_le hle with hlt | rfl
  · rw [shiftToTargetExponent_of_lt hlt hge, ofShifted]
    split
    · rename_i hn
      have hn : n = 0 := hn
      have ht : t = -1074 := by
        by_contra ht
        have := hnormal ht
        omega
      have hzero : ((-1074 : Int) + 1074).toNat = 0 := rfl
      rw [toNat_pack_zero, hn, ht, hzero, Nat.zero_mul, Nat.add_zero, Nat.zero_min, Nat.add_zero]
    · rename_i hn
      exact toNat_pack_finite s (Nat.pos_of_ne_zero hn) hlt hge hnormal
  · have hcarry : (ExtendedMantissa.ofMantissaAndAccuracy (2 ^ 53) .exact >>> 1).mantissa =
        2 ^ 52 := by rw [shiftRight_exact]; rfl
    have hnext : (t + 1 + 1074).toNat * 2 ^ 52 + 2 ^ 52 = (t + 1074).toNat * 2 ^ 52 + 2 ^ 53 := by
      omega
    rw [shiftToTargetExponent_carry hge, ofShifted]
    dsimp only
    split
    · rename_i hn
      exact absurd (hcarry.symm.trans hn) (by decide)
    · rename_i hn
      rw [toNat_pack_finite s _ (by omega) (by omega) (by omega), hcarry, hnext]

/-- What is rounded is packed as the number nearest to the exact value. -/
theorem toNat_pack_roundWithAccuracy (s : Sign) {m : Nat} {e : Int} (hm : 0 < m)
    (he : e ≤ Format.binary64.targetExponent (totalExponent m e)) :
    (UnpackedFloat.pack Format.binary64 (roundWithAccuracy Format.binary64 s m e .exact)).toNat =
      signBit s + Binary.bitsNear (m * 2 ^ e) := by
  have hexp := isExponent_targetExponent hm e
  have hfirst : shiftToTargetExponent Format.binary64 m e .exact =
      (ExtendedMantissa.ofMantissaAndAccuracy m .exact >>>
        (Format.binary64.targetExponent (totalExponent m e) - e).toNat,
        Format.binary64.targetExponent (totalExponent m e)) := by
    rw [shiftToTargetExponent, shiftToExponent]
    refine congrArg _ ?_
    omega
  rw [roundWithAccuracy_eq_ofShifted, hfirst]
  generalize Format.binary64.targetExponent (totalExponent m e) = t at he hexp
  have hsig : Binary.significandNear (m * 2 ^ e) t = roundEven m (2 ^ (t - e).toNat) := by
    refine Binary.significandNear_eq (Nat.two_pow_pos _) ?_
    have hcast : ((2 ^ (t - e).toNat : Nat) : ℚ) = 2 ^ (t - e) := cast_pow_toNat 2 (by omega)
    rw [abs_of_nonneg (by positivity), hcast, mul_assoc, ← zpow_add₀ two_ne_zero, div_eq_mul_inv,
      ← zpow_neg]
    congr 2
    omega
  rw [roundedMantissa_shiftRight, ← hsig, hexp.bitsNear_eq]
  exact toNat_pack_ofShifted s hexp.significandNear_le hexp.ge hexp.le_significandNear

theorem toNat_pack_round (s : Sign) {m : Nat} (hm : 0 < m) (e : Int) :
    (UnpackedFloat.pack Format.binary64 (UnpackedFloat.round Format.binary64 s m e)).toNat =
      signBit s + Binary.bitsNear (m * 2 ^ e) := by
  have ht := targetExponent_eq m e
  rw [UnpackedFloat.round, decreaseExponent]
  generalize Format.binary64.targetExponent (totalExponent m e) = t at ht
  dsimp only
  rw [Nat.shiftLeft_eq]
  have hpos : 0 < m * 2 ^ (e - t).toNat := Nat.mul_pos hm (Nat.two_pow_pos _)
  have hvalue : ((m * 2 ^ (e - t).toNat : Nat) : ℚ) * 2 ^ (e - (e - t).toNat) = m * 2 ^ e := by
    rw [Nat.cast_mul, Nat.cast_pow, Nat.cast_ofNat, ← zpow_natCast, mul_assoc,
      ← zpow_add₀ two_ne_zero]
    congr 2
    omega
  have hlog : (m * 2 ^ (e - t).toNat).log2 = m.log2 + (e - t).toNat := by
    obtain ⟨hlow, hhigh⟩ := (Nat.log2_eq_iff hm.ne').1 rfl
    rw [Nat.log2_eq_iff hpos.ne', pow_add, Nat.add_right_comm, pow_add _ (m.log2 + 1)]
    exact ⟨Nat.mul_le_mul_right _ hlow, Nat.mul_lt_mul_of_pos_right hhigh (Nat.two_pow_pos _)⟩
  rw [toNat_pack_roundWithAccuracy s hpos, hvalue]
  rw [targetExponent_eq, hlog]
  omega

/-! ### Parts and unpacked numbers -/

/-- The sign that is minus, or not. -/
def signOf (negative : Bool) : Sign := if negative then .negative else .positive

theorem toNat_unpackSign (b : BitVec Format.binary64.numBits) :
    (unpackSign b).toNat = b.toNat / 2 ^ 63 := by
  have hlt : b.toNat < 2 ^ 64 := b.isLt
  have hdiv : b.toNat / 2 ^ 63 % 2 ^ 1 = b.toNat / 2 ^ 63 := Nat.mod_eq_of_lt (by omega)
  rw [← hdiv]
  simp [unpackSign, BitVec.extractLsb, Nat.shiftRight_eq_div_pow]

theorem ofBitVec_unpackSign (x : Float) :
    Sign.ofBitVec (unpackSign (packed x)) = signOf (Binary.decode x).negative := by
  have hlt : x.toBits.toNat < 2 ^ 64 := x.toBits.toNat_lt
  have hsign : (unpackSign (packed x)).toNat = x.toBits.toNat / 2 ^ 63 := toNat_unpackSign _
  rw [Binary.negative_decode, signOf]
  by_cases h : 2 ^ 63 ≤ x.toBits.toNat
  · have hdiv : x.toBits.toNat / 2 ^ 63 = 1 := by omega
    have hone : unpackSign (packed x) = 1#1 := BitVec.toNat_inj.1 (hsign.trans hdiv)
    rw [hone, decide_eq_true h]
    rfl
  · have hdiv : x.toBits.toNat / 2 ^ 63 = 0 := by omega
    have hzero : unpackSign (packed x) = 0#1 := BitVec.toNat_inj.1 (hsign.trans hdiv)
    rw [hzero, decide_eq_false h]
    rfl

theorem toNat_append_one (m : BitVec 52) : (1#1 ++ m).toNat = 2 ^ 52 + m.toNat := by
  rw [BitVec.toNat_append, ← Nat.shiftLeft_add_eq_or_of_lt m.isLt]
  rfl

namespace Binary

/-- A number as it is unpacked, by its parts. -/
def unpacked (b : Binary) : UnpackedFloat :=
  if h : b.significand = 0 then .zero (signOf b.negative)
  else .finite (signOf b.negative) b.significand b.exponent (Nat.pos_of_ne_zero h)

theorem unpack_eq_unpacked {x : Float} (h : x.isFinite = true) :
    x.toModel.unpack = (decode x).unpacked := by
  have hexp : (unpackExponent (packed x)).toNat = exponentField x := toNat_unpackExponent _
  have hfraction : (unpackMantissa (packed x)).toNat = fractionField x := toNat_unpackMantissa _
  have hbias : ((Format.binary64.exponentBias : Int) + (52 : Nat)) = 1075 := rfl
  rw [unpack_eq, UnpackedFloat.unpack]
  dsimp only
  rw [ofBitVec_unpackSign, hexp, hbias, unpacked]
  split
  · rename_i hmax
    exact absurd ((unpackExponent_eq_iff x 2047 (by decide)).1 hmax) ((isFinite_iff x).1 h)
  · split
    · rename_i hzero
      have hfield := (unpackExponent_eq_iff x 0 (by decide)).1 hzero
      have hsig : (decode x).significand = fractionField x := by rw [decode_subnormal hfield]
      have hleast : (decode x).exponent = -1074 := by rw [decode_subnormal hfield]
      split
      · rename_i hm
        rw [dif_pos (hsig.trans ((unpackMantissa_eq_zero_iff x).1 hm))]
      · rename_i hm
        rw [dif_neg fun h0 => hm ((unpackMantissa_eq_zero_iff x).2 (hsig.symm.trans h0))]
        congr 1
        · rw [hfraction, hsig]
        · rw [hfield, hleast]
          rfl
    · rename_i hnonzero
      have hfield : exponentField x ≠ 0 := fun h0 =>
        hnonzero ((unpackExponent_eq_iff x 0 (by decide)).2 h0)
      have hsig : (decode x).significand = 2 ^ 52 + fractionField x := by rw [decode_normal hfield]
      rw [dif_neg (by omega)]
      congr 1
      · rw [toNat_append_one, hfraction, hsig]
      · rw [decode_normal hfield]

/-- What has a sign and no more bits than infinity has these bits and this sign. -/
theorem decode_of_toBits {z : Float} {s : Sign} {n : Nat} (h : z.toBits.toNat = signBit s + n)
    (hn : n ≤ infiniteBits) : (decode z).bits = n ∧ signOf (decode z).negative = s := by
  have hinf : infiniteBits = 2047 * 2 ^ 52 := rfl
  rw [bits_decode, exponentField, fractionField, negative_decode, h]
  cases s with
  | negative =>
    have hsign : signBit .negative = 2 ^ 63 := rfl
    refine ⟨by omega, ?_⟩
    rw [decide_eq_true (by omega)]
    rfl
  | positive =>
    have hsign : signBit .positive = 0 := rfl
    refine ⟨by omega, ?_⟩
    rw [decide_eq_false (by omega)]
    rfl

/-- The value, by the sign of the unpacked number. -/
theorem value_eq_apply (b : Binary) :
    b.value = ((signOf b.negative).apply b.significand : Int) * 2 ^ b.exponent := by
  rw [value]
  cases b.negative with
  | true => simp [signOf, Sign.apply]
  | false => simp [signOf, Sign.apply]

/-- Parts are packed as they were. -/
theorem Legal.toNat_pack_unpacked {b : Binary} (hb : b.Legal) :
    (UnpackedFloat.pack Format.binary64 b.unpacked).toNat =
      signBit (signOf b.negative) + bitsNear b.value := by
  rw [unpacked]
  split
  · rename_i h
    rw [toNat_pack_zero, value_of_zero h, bitsNear_zero, Nat.add_zero]
  · rename_i h
    rw [toNat_pack_finite _ _ hb.significand_lt hb.exponent_ge hb.normal, hb.bitsNear_value]
    exact congrArg _ (min_eq_left hb.bits_le)

/-! ### The order of unpacked numbers -/

variable {b c : Binary}

/-- Legal parts are compared by their exponents first. -/
theorem Legal.compare_eq_lt_iff (hb : b.Legal) (hc : c.Legal) :
    (compare b.exponent c.exponent).then (compare b.significand c.significand) = .lt ↔
      |b.value| < |c.value| := by
  rw [hb.abs_value_lt_iff hc, bits, bits, Ordering.then_eq_lt, Int.compare_eq_lt,
    Int.compare_eq_eq, Nat.compare_eq_lt]
  obtain ⟨hbsig, hbexp, -, hbnormal, -⟩ := hb
  obtain ⟨hcsig, hcexp, -, hcnormal, -⟩ := hc
  constructor
  · rintro (hlt | ⟨heq, hlt⟩)
    · omega
    · rw [heq]
      omega
  · omega

/-- An unpacked number is zero, or it has the sign of its value. -/
theorem unpacked_cases (b : Binary) :
    (b.unpacked = .zero (signOf b.negative) ∧ b.value = 0) ∨
    (∃ h, b.unpacked = .finite .negative b.significand b.exponent h ∧
      b.value = -|b.value| ∧ 0 < |b.value|) ∨
    ∃ h, b.unpacked = .finite .positive b.significand b.exponent h ∧
      b.value = |b.value| ∧ 0 < |b.value| := by
  have hvalue := b.value_eq_abs
  by_cases h0 : b.significand = 0
  · exact .inl ⟨dif_pos h0, value_of_zero h0⟩
  rw [unpacked, dif_neg h0]
  cases hneg : b.negative with
  | true =>
    rw [if_pos hneg] at hvalue
    exact .inr (.inl ⟨Nat.pos_of_ne_zero h0, rfl, hvalue, abs_value_pos h0⟩)
  | false =>
    rw [if_neg (ne_true_of_eq_false hneg)] at hvalue
    exact .inr (.inr ⟨Nat.pos_of_ne_zero h0, rfl, hvalue, abs_value_pos h0⟩)

/-- Unpacked numbers are compared as their values are. -/
theorem compare_unpacked_eq_lt_iff (hb : b.Legal) (hc : c.Legal) :
    UnpackedFloat.compare b.unpacked c.unpacked = some .lt ↔ b.value < c.value := by
  rcases b.unpacked_cases with ⟨hu, hv⟩ | ⟨_, hu, hv, hpos⟩ | ⟨_, hu, hv, hpos⟩
  · rcases c.unpacked_cases with ⟨hu', hv'⟩ | ⟨_, hu', hv', hpos'⟩ | ⟨_, hu', hv', hpos'⟩
    · rw [hu, hu', hv, hv']
      exact iff_of_false nofun (lt_irrefl 0)
    · rw [hu, hu', hv, hv']
      exact iff_of_false nofun (by linarith)
    · rw [hu, hu', hv, hv']
      exact iff_of_true rfl hpos'
  · rcases c.unpacked_cases with ⟨hu', hv'⟩ | ⟨_, hu', hv', hpos'⟩ | ⟨_, hu', hv', hpos'⟩
    · rw [hu, hu', hv, hv']
      exact iff_of_true rfl (by linarith)
    · rw [hu, hu', hv, hv', neg_lt_neg_iff, ← hc.compare_eq_lt_iff hb, UnpackedFloat.compare,
        Option.some_inj, Ordering.swap_then, Int.compare_swap, Nat.compare_swap]
    · rw [hu, hu', hv, hv']
      exact iff_of_true rfl (by linarith)
  · rcases c.unpacked_cases with ⟨hu', hv'⟩ | ⟨_, hu', hv', hpos'⟩ | ⟨_, hu', hv', hpos'⟩
    · rw [hu, hu', hv, hv']
      exact iff_of_false nofun (by linarith)
    · rw [hu, hu', hv, hv']
      exact iff_of_false nofun (by linarith)
    · rw [hu, hu', hv, hv', ← hb.compare_eq_lt_iff hc]
      exact Option.some_inj

end Binary
end WorkPriority.Decimal
