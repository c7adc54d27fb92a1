import WorkPriority.Proofs.NearestFloats

/-!
# Rounding keeps the order

The bits of the number nearest to a rational, without its sign (`Binary.bitsNear`), grow
with its distance from zero (`Binary.bitsNear_mono`). This is so although a rational near
a power of two may be rounded up to an exponent that is not its own: the bits of a
significand that is carried over are those of the next exponent.

A finite number is nearest to its own value (`Binary.Legal.bitsNear_value`). Hence numbers
are in the order of their bits, up to the sign (`Binary.Legal.abs_value_lt_iff`). And the
whole number that a number is rounded to is the one nearest to its value
(`Binary.roundAway_eq`).
-/

namespace WorkPriority.Decimal

/-! ### Quotients -/

/-- Greater quotients are not rounded to lesser numbers. -/
theorem roundEven_mono {n d n' d' : Nat} (hd : 0 < d) (hd' : 0 < d') (h : n * d' ≤ n' * d) :
    roundEven n d ≤ roundEven n' d' := by
  have hn := Nat.div_add_mod n d
  have hn' := Nat.div_add_mod n' d'
  have hr := Nat.mod_lt n hd
  have hr' := Nat.mod_lt n' hd'
  rw [roundEven, roundEven]
  generalize n / d = q at *
  generalize n % d = r at *
  generalize n' / d' = q' at *
  generalize n' % d' = r' at *
  subst hn hn'
  have hq : q ≤ q' := by
    by_contra hlt
    have hstep : d' * d * (q' + 1) ≤ d' * d * q := Nat.mul_le_mul_left _ (by omega)
    nlinarith
  rcases Nat.lt_or_eq_of_le hq with hlt | rfl
  · split_ifs <;> omega
  · have hrest : r * d' ≤ r' * d := by nlinarith
    have hlow : 2 * r' < d' → 2 * r < d := fun hlt => by nlinarith
    have hhalf : 2 * r' ≤ d' → 2 * r ≤ d := fun hle => by nlinarith
    split_ifs <;> omega

theorem roundEven_congr {n d n' d' : Nat} (hd : 0 < d) (hd' : 0 < d')
    (h : (n : ℚ) / d = n' / d') : roundEven n d = roundEven n' d' := by
  have hne : (d : ℚ) ≠ 0 := by exact_mod_cast hd.ne'
  have hne' : (d' : ℚ) ≠ 0 := by exact_mod_cast hd'.ne'
  rw [div_eq_div_iff hne hne'] at h
  have hcross : n * d' = n' * d := by exact_mod_cast h
  exact le_antisymm (roundEven_mono hd hd' hcross.le) (roundEven_mono hd' hd hcross.ge)

/-- Rounding does not pass a whole number. -/
theorem roundEven_le {n d s : Nat} (hd : 0 < d) (h : n ≤ s * d) : roundEven n d ≤ s := by
  have hself : roundEven s 1 = s := roundEven_eq Nat.one_pos (by omega) (by omega) (by omega)
  calc roundEven n d ≤ roundEven s 1 := roundEven_mono hd Nat.one_pos (by omega)
    _ = s := hself

theorem le_roundEven {n d s : Nat} (hd : 0 < d) (h : s * d ≤ n) : s ≤ roundEven n d := by
  have hself : roundEven s 1 = s := roundEven_eq Nat.one_pos (by omega) (by omega) (by omega)
  calc s = roundEven s 1 := hself.symm
    _ ≤ roundEven n d := roundEven_mono Nat.one_pos hd (by omega)

namespace Binary

/-! ### Fractions -/

/-- The bits of the number nearest to a fraction, but for the sign. -/
def bitsNear (q : ℚ) : Nat := nearestBits q.num.natAbs q.den

theorem bitsNear_zero : bitsNear 0 = 0 := rfl

theorem natAbs_num_div_den (q : ℚ) : (q.num.natAbs : ℚ) / q.den = |q| := by
  rw [Nat.cast_natAbs, Int.cast_abs]
  conv_rhs => rw [← Rat.num_div_den q, abs_div, Nat.abs_cast]

/-- An exponent under which a fraction has a significand of 53 digits at most, and of no
    fewer unless it is the least exponent. -/
structure IsExponent (q : ℚ) (e : Int) : Prop where
  ge : -1074 ≤ e
  lt : |q| < 2 ^ (e + 53)
  le : e ≠ -1074 → (2 : ℚ) ^ (e + 52) ≤ |q|

/-- The significand of a fraction under an exponent, rounded. -/
def significandNear (q : ℚ) (e : Int) : Nat :=
  roundEven (scale q.num.natAbs q.den (-e)).1 (scale q.num.natAbs q.den (-e)).2

variable {p q : ℚ} {e f : Int}

theorem scaled_pos (q : ℚ) (e : Int) : 0 < (scale q.num.natAbs q.den e).2 :=
  scale_pos q.den_pos e

theorem scaled_eq (q : ℚ) (e : Int) :
    ((scale q.num.natAbs q.den e).1 : ℚ) / (scale q.num.natAbs q.den e).2 = |q| * 2 ^ e := by
  rw [scale_eq, natAbs_num_div_den]

/-- Any quotient that is the scaled fraction may be rounded in its place. -/
theorem significandNear_eq {n d : Nat} (hd : 0 < d) (h : (n : ℚ) / d = |q| * 2 ^ (-e)) :
    significandNear q e = roundEven n d :=
  roundEven_congr (scaled_pos q _) hd ((scaled_eq q _).trans h.symm)

theorem significandNear_mono (h : |p| ≤ |q|) (e : Int) :
    significandNear p e ≤ significandNear q e := by
  have hp : (0 : ℚ) < (scale p.num.natAbs p.den (-e)).2 := by exact_mod_cast scaled_pos p _
  have hq : (0 : ℚ) < (scale q.num.natAbs q.den (-e)).2 := by exact_mod_cast scaled_pos q _
  have hle : |p| * 2 ^ (-e) ≤ |q| * 2 ^ (-e) := by gcongr
  rw [← scaled_eq, ← scaled_eq, div_le_div_iff₀ hp hq] at hle
  exact roundEven_mono (scaled_pos p _) (scaled_pos q _) (by exact_mod_cast hle)

theorem exists_isExponent (q : ℚ) : ∃ e, IsExponent q e := by
  by_cases hq : q = 0
  · exact ⟨-1074, le_rfl, by rw [hq, abs_zero]; positivity, fun h => absurd rfl h⟩
  · have hnum : 0 < q.num.natAbs := Int.natAbs_pos.2 (Rat.num_ne_zero.2 hq)
    obtain ⟨k, -, hlow, hhigh⟩ := exists_exponent hnum q.den_pos
    rw [natAbs_num_div_den] at hlow hhigh
    refine ⟨max k (-1074), le_max_right _ _, hhigh.trans_le ?_, fun he => ?_⟩
    · gcongr
      · exact one_le_two
      · exact le_max_left _ _
    · rwa [max_eq_left (by omega)]

namespace IsExponent

variable (h : IsExponent q e)

include h

theorem significandNear_le : significandNear q e ≤ 2 ^ 53 := by
  have hpos : (0 : ℚ) < (scale q.num.natAbs q.den (-e)).2 := by exact_mod_cast scaled_pos q _
  have hlt : |q| * 2 ^ (-e) < 2 ^ 53 := by
    calc |q| * 2 ^ (-e) < 2 ^ (e + 53) * 2 ^ (-e) := by
          gcongr
          exact h.lt
      _ = 2 ^ (53 : Int) := by
        rw [← zpow_add₀ two_ne_zero]
        congr 1
        omega
  rw [← scaled_eq, div_lt_iff₀ hpos] at hlt
  exact roundEven_le (scaled_pos q _) (by exact_mod_cast hlt.le)

theorem le_significandNear (he : e ≠ -1074) : 2 ^ 52 ≤ significandNear q e := by
  have hpos : (0 : ℚ) < (scale q.num.natAbs q.den (-e)).2 := by exact_mod_cast scaled_pos q _
  have hle : (2 : ℚ) ^ 52 ≤ |q| * 2 ^ (-e) := by
    calc (2 : ℚ) ^ (52 : Int) = 2 ^ (e + 52) * 2 ^ (-e) := by
          rw [← zpow_add₀ two_ne_zero]
          congr 1
          omega
      _ ≤ |q| * 2 ^ (-e) := by
        gcongr
        exact h.le he
  rw [← scaled_eq, le_div_iff₀ hpos] at hle
  exact le_roundEven (scaled_pos q _) (by exact_mod_cast hle)

/-- The bits of the nearest number, in terms of the exponent. -/
theorem bitsNear_eq : bitsNear q =
    min ((e + 1074).toNat * 2 ^ 52 + significandNear q e) infiniteBits := by
  by_cases hq : q = 0
  · have he : e = -1074 := by
      by_contra he
      have hle := h.le he
      rw [hq, abs_zero] at hle
      exact absurd hle (not_le.2 (by positivity))
    have hzero : significandNear 0 (-1074) = roundEven 0 1 :=
      significandNear_eq Nat.one_pos (by simp)
    rw [hq, he, hzero]
    rfl
  · have hnum : 0 < q.num.natAbs := Int.natAbs_pos.2 (Rat.num_ne_zero.2 hq)
    have hlt := h.lt
    have hle := h.le
    rw [← natAbs_num_div_den] at hlt hle
    rw [bitsNear, nearestBits, if_neg (by simpa using hq),
      exponentOf_eq hnum q.den_pos h.ge hlt hle]
    rfl

end IsExponent

/-- The nearest number is not less for a greater fraction. -/
theorem bitsNear_mono (h : |p| ≤ |q|) : bitsNear p ≤ bitsNear q := by
  obtain ⟨e, he⟩ := exists_isExponent p
  obtain ⟨f, hf⟩ := exists_isExponent q
  rw [he.bitsNear_eq, hf.bitsNear_eq]
  refine min_le_min_right _ ?_
  rcases lt_trichotomy e f with hlt | rfl | hgt
  · have hp := he.significandNear_le
    have hq := hf.le_significandNear (by have := he.ge; omega)
    have := he.ge
    omega
  · exact Nat.add_le_add_left (significandNear_mono h e) _
  · have hpow : (2 : ℚ) ^ (e + 52) < 2 ^ (f + 53) :=
      calc (2 : ℚ) ^ (e + 52) ≤ |p| := he.le (by have := hf.ge; omega)
        _ ≤ |q| := h
        _ < 2 ^ (f + 53) := hf.lt
    have := lt_of_zpow_lt hpow
    omega

theorem bitsNear_congr (h : |p| = |q|) : bitsNear p = bitsNear q :=
  le_antisymm (bitsNear_mono h.le) (bitsNear_mono h.ge)

theorem bitsNear_le (q : ℚ) : bitsNear q ≤ infiniteBits := by
  obtain ⟨e, he⟩ := exists_isExponent q
  rw [he.bitsNear_eq]
  exact min_le_right _ _

/-! ### Exact values -/

/-- What the parts of a number stand for. -/
def value (b : Binary) : ℚ := (if b.negative then -1 else 1) * (b.significand * 2 ^ b.exponent)

variable {b c : Binary}

theorem abs_value (b : Binary) : |b.value| = b.significand * 2 ^ b.exponent := by
  have hpos : (0 : ℚ) ≤ b.significand * 2 ^ b.exponent := by positivity
  rw [value]
  split
  · rw [neg_one_mul, abs_neg, abs_of_nonneg hpos]
  · rw [one_mul, abs_of_nonneg hpos]

theorem abs_value_pos (h : b.significand ≠ 0) : 0 < |b.value| := by
  have hpos : (0 : ℚ) < b.significand := by exact_mod_cast Nat.pos_of_ne_zero h
  rw [abs_value]
  positivity

theorem value_eq_abs (b : Binary) :
    b.value = if b.negative then -|b.value| else |b.value| := by
  rw [abs_value, value]
  split
  · rw [neg_one_mul]
  · rw [one_mul]

theorem value_of_zero (h : b.significand = 0) : b.value = 0 := by
  rw [value, h, Nat.cast_zero, zero_mul, mul_zero]

namespace Legal

theorem isExponent (hb : b.Legal) : IsExponent b.value b.exponent where
  ge := hb.exponent_ge
  lt := by
    have hlt : (b.significand : ℚ) < 2 ^ 53 := by exact_mod_cast hb.significand_lt
    rw [abs_value, zpow_add₀ two_ne_zero, mul_comm]
    gcongr
    exact hlt
  le he := by
    have hle : (2 : ℚ) ^ 52 ≤ b.significand := by exact_mod_cast hb.normal he
    rw [abs_value, zpow_add₀ two_ne_zero, mul_comm]
    gcongr
    exact hle

/-- A number is nearest to itself. -/
theorem bitsNear_value (hb : b.Legal) : bitsNear b.value = b.bits := by
  have hsig : significandNear b.value b.exponent = b.significand := by
    have hscaled : ((b.significand : Nat) : ℚ) / (1 : Nat) = |b.value| * 2 ^ (-b.exponent) := by
      rw [abs_value, mul_assoc, ← zpow_add₀ two_ne_zero, add_neg_cancel, zpow_zero, mul_one,
        Nat.cast_one, div_one]
    rw [significandNear_eq Nat.one_pos hscaled]
    exact roundEven_eq Nat.one_pos (by omega) (by omega) (by omega)
  rw [hb.isExponent.bitsNear_eq, hsig]
  exact min_eq_left hb.bits_le

/-- Numbers are ordered as their bits are. -/
theorem abs_value_le (hb : b.Legal) (hc : c.Legal) (h : b.bits ≤ c.bits) :
    |b.value| ≤ |c.value| := by
  by_contra hlt
  have hge : c.bits ≤ b.bits := by
    rw [← hb.bitsNear_value, ← hc.bitsNear_value]
    exact bitsNear_mono (le_of_not_ge hlt)
  have heq := le_antisymm h hge
  rw [bits, bits] at heq
  obtain ⟨hbsig, hbexp, -, hbnormal, -⟩ := hb
  obtain ⟨hcsig, hcexp, -, hcnormal, -⟩ := hc
  have hexp : b.exponent = c.exponent := by omega
  have hsig : b.significand = c.significand := by
    rw [hexp] at heq
    omega
  rw [abs_value, abs_value, hexp, hsig] at hlt
  exact hlt le_rfl

theorem abs_value_lt_iff (hb : b.Legal) (hc : c.Legal) :
    |b.value| < |c.value| ↔ b.bits < c.bits := by
  constructor
  · intro h
    by_contra hle
    exact not_le.2 h (hc.abs_value_le hb (not_lt.1 hle))
  · intro h
    by_contra hle
    rw [← hb.bitsNear_value, ← hc.bitsNear_value] at h
    exact not_le.2 h (bitsNear_mono (not_lt.1 hle))

end Legal

theorem isFinite_iff_bits (x : Float) : x.isFinite = true ↔ (decode x).bits < infiniteBits := by
  have hfield : exponentField x < 2 ^ 11 := Nat.mod_lt _ (by decide)
  have hfraction : fractionField x < 2 ^ 52 := Nat.mod_lt _ (by decide)
  have hinf : infiniteBits = 2047 * 2 ^ 52 := rfl
  rw [isFinite_iff, bits_decode, hinf]
  omega

end Binary

/-! ### Whole numbers -/

/-- The whole number nearest to a fraction. Halves go away from zero. -/
def wholeNear (q : ℚ) : ℤ := if 0 ≤ q then ⌊q + 1 / 2⌋ else ⌈q - 1 / 2⌉

theorem wholeNear_neg {q : ℚ} (h : 0 ≤ q) : wholeNear (-q) = -⌊q + 1 / 2⌋ := by
  rcases h.eq_or_lt with rfl | hpos
  · rw [neg_zero, wholeNear, if_pos le_rfl]
    norm_num
  · rw [wholeNear, if_neg (by linarith), ← Int.ceil_neg]
    congr 1
    ring

/-- A number is rounded to the whole number nearest to its value. -/
theorem Binary.roundAway_eq (b : Binary) : b.roundAway = wholeNear b.value := by
  have hpos : 0 < (scale b.significand 1 b.exponent).2 := scale_pos Nat.one_pos _
  have heq := scale_eq b.significand 1 b.exponent
  rw [Nat.cast_one, div_one, ← abs_value] at heq
  rw [roundAway, value_eq_abs]
  generalize scale b.significand 1 b.exponent = scaled at hpos heq ⊢
  obtain ⟨n, d⟩ := scaled
  dsimp only at hpos heq ⊢
  have hfloor : (((2 * n + d) / (2 * d) : Nat) : ℤ) = ⌊|b.value| + 1 / 2⌋ := by
    have hd : (d : ℚ) ≠ 0 := by exact_mod_cast hpos.ne'
    have hhalf : |b.value| + 1 / 2 = ((2 * n + d : Nat) : ℚ) / (2 * d : Nat) := by
      rw [← heq]
      push_cast
      field_simp
    rw [hhalf, Rat.floor_natCast_div_natCast, Int.natCast_ediv]
  rw [hfloor]
  split
  · exact (wholeNear_neg (abs_nonneg _)).symm
  · exact (if_pos (abs_nonneg _)).symm

end WorkPriority.Decimal
