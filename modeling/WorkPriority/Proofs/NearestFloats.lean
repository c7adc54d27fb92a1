import WorkPriority.Proofs.FloatBits

/-!
# The fractions to which a number is nearest

A number is nearest to a fraction exactly when it lies within half the way to
the neighbours of the number, where a fraction in the middle goes to the number
whose significand is even. `Binary.Catches` says this of a fraction in terms of
the parts of the number, and what is nearest to such a fraction has the bits of
the number (`Binary.nearestBits_of_catches`).

The search for what is nearest goes from the fraction to an exponent and from
that to a significand. Each of the two steps is characterised by what it finds:
`exponentOf_eq` and `roundEven_scale`. The two fit together but for one case.
Just below a power of two the search takes the lower exponent, whose greatest
significand then rounds up to the power and carries into the exponent.
-/

namespace WorkPriority.Decimal

/-! ### Rounding -/

/-- Rounding gives the whole number that is nearest, and even if two are. -/
theorem roundEven_eq {n d s : Nat} (hd : 0 < d) (hlow : 2 * (s * d) ≤ 2 * n + d)
    (hhigh : 2 * n ≤ 2 * (s * d) + d)
    (heven : s % 2 = 1 → 2 * (s * d) < 2 * n + d ∧ 2 * n < 2 * (s * d) + d) :
    roundEven n d = s := by
  have hn := Nat.div_add_mod n d
  have hr := Nat.mod_lt n hd
  rw [Nat.mul_comm] at hn
  rw [roundEven]
  generalize n / d = q at *
  generalize n % d = r at *
  -- The candidates are the quotient and the number after it.
  have hge : q ≤ s := by
    by_contra h
    have := Nat.mul_le_mul_right d (show s + 1 ≤ q by omega)
    rw [Nat.add_mul] at this
    omega
  have hle : s ≤ q + 1 := by
    by_contra h
    have := Nat.mul_le_mul_right d (show q + 2 ≤ s by omega)
    rw [Nat.add_mul] at this
    omega
  obtain rfl | rfl : s = q ∨ s = q + 1 := by omega
  · split
    · rfl
    · split
      · omega
      · have : s % 2 ≠ 1 := fun h => by have := (heven h).2; omega
        omega
  · rw [Nat.add_mul] at hlow hhigh heven
    split
    · omega
    · split
      · rfl
      · have : (q + 1) % 2 ≠ 1 := fun h => by have := (heven h).1; omega
        omega

/-! ### Fractions and powers -/

/-- The power with an exponent that is not negative. -/
theorem cast_pow_toNat (base : Nat) {e : Int} (h : 0 ≤ e) :
    ((Nat.pow base e.toNat : Nat) : ℚ) = (base : ℚ) ^ e := by
  obtain ⟨k, rfl⟩ := Int.eq_ofNat_of_zero_le h
  rw [Int.toNat_natCast, zpow_natCast]
  exact Nat.cast_pow base k

/-- The power with a negative exponent. -/
theorem cast_pow_toNat_neg (base : Nat) {e : Int} (h : ¬0 ≤ e) :
    ((Nat.pow base (-e).toNat : Nat) : ℚ) = ((base : ℚ) ^ e)⁻¹ := by
  rw [cast_pow_toNat base (show 0 ≤ -e by omega), zpow_neg]

namespace Binary

theorem scale_pos {num den : Nat} (hden : 0 < den) (e : Int) : 0 < (scale num den e).2 := by
  rw [scale]
  split
  · exact hden
  · exact Nat.mul_pos hden (Nat.pow_pos (by decide))

/-- A scaled fraction is the fraction times the power of two. -/
theorem scale_eq (num den : Nat) (e : Int) :
    ((scale num den e).1 : ℚ) / (scale num den e).2 = num / den * 2 ^ e := by
  rw [scale]
  split
  · rename_i h
    rw [Nat.cast_mul, cast_pow_toNat 2 h, Nat.cast_ofNat, mul_div_right_comm]
  · rename_i h
    rw [Nat.cast_mul, cast_pow_toNat_neg 2 h, div_mul_eq_div_div, div_inv_eq_mul, Nat.cast_ofNat]

/-- The binary logarithm in fractions. -/
theorem zpow_log2_le {n : Nat} (hn : 0 < n) : (2 : ℚ) ^ (n.log2 : Int) ≤ n := by
  rw [zpow_natCast]
  exact_mod_cast Nat.log2_self_le hn.ne'

theorem lt_zpow_log2 (n : Nat) : (n : ℚ) < 2 ^ (n.log2 + 1 : Int) := by
  have h : n < 2 ^ (n.log2 + 1) := Nat.lt_log2_self
  have : (n : ℚ) < 2 ^ (n.log2 + 1) := by exact_mod_cast h
  exact_mod_cast this

/-- The binary logarithms of numerator and denominator give that of the fraction. -/
theorem log2_bounds {num den : Nat} (hnum : 0 < num) (hden : 0 < den) :
    (2 : ℚ) ^ ((num.log2 : Int) - den.log2 - 1) < num / den ∧
      (num : ℚ) / den < 2 ^ ((num.log2 : Int) - den.log2 + 1) := by
  have hd : (0 : ℚ) < den := by exact_mod_cast hden
  have hnl := zpow_log2_le hnum
  have hnu := lt_zpow_log2 num
  have hdl := zpow_log2_le hden
  have hdu := lt_zpow_log2 den
  constructor
  · rw [lt_div_iff₀ hd]
    calc (2 : ℚ) ^ ((num.log2 : Int) - den.log2 - 1) * den
        < 2 ^ ((num.log2 : Int) - den.log2 - 1) * 2 ^ (den.log2 + 1 : Int) := by gcongr
      _ = 2 ^ (num.log2 : Int) := by
        rw [← zpow_add₀ two_ne_zero]
        congr 1
        omega
      _ ≤ num := hnl
  · rw [div_lt_iff₀ hd]
    calc (num : ℚ) < 2 ^ (num.log2 + 1 : Int) := hnu
      _ = 2 ^ ((num.log2 : Int) - den.log2 + 1) * 2 ^ (den.log2 : Int) := by
        rw [← zpow_add₀ two_ne_zero]
        congr 1
        omega
      _ ≤ 2 ^ ((num.log2 : Int) - den.log2 + 1) * den := by gcongr

/-! ### The exponent -/

/-- A power of two that is below a power of two has a lower exponent. -/
theorem lt_of_zpow_lt {i j : Int} (h : (2 : ℚ) ^ i < 2 ^ j) : i < j :=
  (zpow_lt_zpow_iff_right₀ one_lt_two).1 h

/-- Without the least exponent there would be an exponent under which a fraction has a
    significand of 53 digits. -/
theorem exists_exponent {num den : Nat} (hnum : 0 < num) (hden : 0 < den) :
    ∃ k : Int, exponentOf num den = max k (-1074) ∧ (2 : ℚ) ^ (k + 52) ≤ num / den ∧
      (num : ℚ) / den < 2 ^ (k + 53) := by
  obtain ⟨hlow, hhigh⟩ := log2_bounds hnum hden
  let guess := (num.log2 : Int) - den.log2 - 52
  have hpos : (0 : ℚ) < (scale num den (-guess)).2 := by exact_mod_cast scale_pos hden _
  have htest : (scale num den (-guess)).1 < (scale num den (-guess)).2 * Nat.pow 2 52 ↔
      (num : ℚ) / den < 2 ^ (guess + 52) := by
    calc (scale num den (-guess)).1 < (scale num den (-guess)).2 * Nat.pow 2 52
        ↔ ((scale num den (-guess)).1 : ℚ) < (scale num den (-guess)).2 * 2 ^ 52 := by
          exact_mod_cast Iff.rfl
      _ ↔ ((scale num den (-guess)).1 : ℚ) / (scale num den (-guess)).2 < 2 ^ 52 := by
          rw [div_lt_iff₀ hpos, mul_comm]
      _ ↔ (num : ℚ) / den < 2 ^ (guess + 52) := by
          rw [scale_eq, zpow_neg, ← div_eq_mul_inv, div_lt_iff₀ (by positivity),
            zpow_add₀ two_ne_zero, mul_comm]
          rfl
  by_cases h : (scale num den (-guess)).1 < (scale num den (-guess)).2 * Nat.pow 2 52
  · refine ⟨guess - 1, ?_, ?_, ?_⟩
    · rw [exponentOf]
      exact congrArg (max · (-1074)) (if_pos h)
    · refine le_of_eq_of_le ?_ hlow.le
      congr 1
      omega
    · refine lt_of_lt_of_eq (htest.1 h) ?_
      congr 1
      omega
  · refine ⟨guess, ?_, not_lt.1 fun hlt => h (htest.2 hlt), ?_⟩
    · rw [exponentOf]
      exact congrArg (max · (-1074)) (if_neg h)
    · refine lt_of_lt_of_eq hhigh ?_
      congr 1
      omega

/-- The exponent of a fraction is the one under which it has a significand below `2 ^ 53`,
    but not below `2 ^ 52` unless it is the least exponent. -/
theorem exponentOf_eq {num den : Nat} (hnum : 0 < num) (hden : 0 < den) {e : Int}
    (hge : -1074 ≤ e) (hhigh : (num : ℚ) / den < 2 ^ (e + 53))
    (hlow : e ≠ -1074 → (2 : ℚ) ^ (e + 52) ≤ num / den) : exponentOf num den = e := by
  obtain ⟨k, hk, hkl, hkh⟩ := exists_exponent hnum hden
  have hle : k + 52 < e + 53 := lt_of_zpow_lt (hkl.trans_lt hhigh)
  rw [hk]
  by_cases he : e = -1074
  · omega
  · have hge' : e + 52 < k + 53 := lt_of_zpow_lt ((hlow he).trans_lt hkh)
    omega

/-! ### The range of a number -/

/-- How far below a number there is still its range, in units of its significand. -/
def reach (b : Binary) : ℚ := if b.narrow then 1 / 4 else 1 / 2

/-- A fraction lies within half the way from a number to its neighbours, or in the
    middle if the significand of the number is even. -/
structure Catches (b : Binary) (q : ℚ) : Prop where
  /-- It is not nearer to the neighbour below. -/
  low : (b.significand - b.reach) * 2 ^ b.exponent ≤ q
  /-- It is not nearer to the neighbour above. -/
  high : q ≤ (b.significand + 1 / 2) * 2 ^ b.exponent
  /-- An odd significand loses the middle to its neighbours. -/
  odd : b.significand % 2 = 1 → (b.significand - b.reach) * 2 ^ b.exponent < q ∧
    q < (b.significand + 1 / 2) * 2 ^ b.exponent

theorem reach_le (b : Binary) : b.reach ≤ 1 / 2 := by
  rw [reach]
  split <;> norm_num

theorem reach_pos (b : Binary) : 0 < b.reach := by
  rw [reach]
  split <;> norm_num

/-- A fraction strictly between the ends of the range is caught in any case. -/
theorem Catches.of_lt {b : Binary} {q : ℚ} (hlow : (b.significand - b.reach) * 2 ^ b.exponent < q)
    (hhigh : q < (b.significand + 1 / 2) * 2 ^ b.exponent) : b.Catches q :=
  ⟨hlow.le, hhigh.le, fun _ => ⟨hlow, hhigh⟩⟩

/-! ### The significand -/

/-- Rounding under an exponent gives the significand that is nearest. -/
theorem roundEven_scale {num den : Nat} (hden : 0 < den) {e : Int} {s : Nat}
    (hlow : (s - 1 / 2) * 2 ^ e ≤ (num : ℚ) / den) (hhigh : (num : ℚ) / den ≤ (s + 1 / 2) * 2 ^ e)
    (hodd : s % 2 = 1 →
      (s - 1 / 2) * 2 ^ e < (num : ℚ) / den ∧ (num : ℚ) / den < (s + 1 / 2) * 2 ^ e) :
    roundEven (scale num den (-e)).1 (scale num den (-e)).2 = s := by
  have hpos : 0 < (scale num den (-e)).2 := scale_pos hden _
  have heq := scale_eq num den (-e)
  generalize (scale num den (-e)).1 = n at *
  generalize (scale num den (-e)).2 = d at *
  have hd : (0 : ℚ) < d := by exact_mod_cast hpos
  have h2 : (0 : ℚ) < 2 ^ e := by positivity
  have hq : (num : ℚ) / den = n / d * 2 ^ e := by
    rw [heq, zpow_neg]
    field_simp
  rw [hq] at hlow hhigh hodd
  have hmul (x : ℚ) : x * 2 ^ e ≤ n / d * 2 ^ e ↔ x * d ≤ n := by
    rw [mul_le_mul_iff_left₀ h2, le_div_iff₀ hd]
  have hmul' (x : ℚ) : n / d * 2 ^ e ≤ x * 2 ^ e ↔ n ≤ x * d := by
    rw [mul_le_mul_iff_left₀ h2, div_le_iff₀ hd]
  rw [hmul] at hlow
  rw [hmul'] at hhigh
  rw [← not_le, ← not_le, hmul, hmul', not_le, not_le] at hodd
  refine roundEven_eq hpos ?_ ?_ fun h => ⟨?_, ?_⟩
  · have : 2 * ((s : ℚ) * d) ≤ 2 * n + d := by linarith
    exact_mod_cast this
  · have : 2 * (n : ℚ) ≤ 2 * (s * d) + d := by linarith
    exact_mod_cast this
  · have : 2 * ((s : ℚ) * d) < 2 * n + d := by linarith [(hodd h).1]
    exact_mod_cast this
  · have : 2 * (n : ℚ) < 2 * (s * d) + d := by linarith [(hodd h).2]
    exact_mod_cast this

variable {b : Binary} {num den : Nat}

theorem nearestBits_of_round (hnum : 0 < num) {e : Int} {s : Nat} (he : exponentOf num den = e)
    (hs : roundEven (scale num den (-e)).1 (scale num den (-e)).2 = s)
    (hle : (e + 1074).toNat * 2 ^ 52 + s ≤ infiniteBits) :
    nearestBits num den = (e + 1074).toNat * 2 ^ 52 + s := by
  have hzero : ¬(num == 0) = true := by simpa using hnum.ne'
  have hpow : Nat.pow 2 52 = 2 ^ 52 := rfl
  rw [nearestBits, if_neg hzero, he]
  dsimp only
  rw [hs, hpow]
  exact Nat.min_eq_left hle

/-! ### The number that is nearest -/

/-- Only a power of two catches fractions below the significands of its exponent. -/
theorem Catches.significand_eq {q : ℚ} (h : b.Catches q) (hb : b.Legal)
    (he : b.exponent ≠ -1074) (hq : q < 2 ^ (b.exponent + 52)) : b.significand = 2 ^ 52 := by
  have hge := hb.normal he
  have hlt : ((b.significand : ℚ) - 1 / 2) * 2 ^ b.exponent < 2 ^ 52 * 2 ^ b.exponent := by
    calc ((b.significand : ℚ) - 1 / 2) * 2 ^ b.exponent
        ≤ (b.significand - b.reach) * 2 ^ b.exponent := by
          gcongr
          exact b.reach_le
      _ ≤ q := h.low
      _ < 2 ^ (b.exponent + 52) := hq
      _ = 2 ^ 52 * 2 ^ b.exponent := by
        rw [zpow_add₀ two_ne_zero, mul_comm]
        rfl
  have hlt : (b.significand : ℚ) < 2 ^ 52 + 1 := by
    linarith [lt_of_mul_lt_mul_right hlt (by positivity)]
  have hlt : b.significand < 2 ^ 52 + 1 := by exact_mod_cast hlt
  omega

/-- Just below a power of two rounding carries into its exponent. -/
theorem nearestBits_of_carry (hb : b.Legal) (hnum : 0 < num) (hden : 0 < den)
    (hq : b.Catches (num / den)) (he : b.exponent ≠ -1074)
    (hbelow : (num : ℚ) / den < 2 ^ (b.exponent + 52)) (hle : b.bits ≤ infiniteBits) :
    nearestBits num den = b.bits := by
  have hge := hb.exponent_ge
  have hsig := hq.significand_eq hb he hbelow
  have hreach : b.reach = 1 / 4 := if_pos (hb.narrow.2 ⟨hsig, he⟩)
  have hdouble : (2 : ℚ) ^ b.exponent = 2 * 2 ^ (b.exponent - 1) := by
    rw [← zpow_one_add₀ two_ne_zero]
    congr 1
    omega
  have hpos : (0 : ℚ) < 2 ^ (b.exponent - 1) := by positivity
  -- In units of the lower exponent the fraction is at most half below `2 ^ 53`.
  have hlow : ((2 ^ 53 : Nat) - 1 / 2 : ℚ) * 2 ^ (b.exponent - 1) ≤ num / den := by
    refine le_of_eq_of_le ?_ hq.low
    rw [hsig, hreach, hdouble]
    push_cast
    ring
  have hhigh : (num : ℚ) / den < (2 ^ 53 : Nat) * 2 ^ (b.exponent - 1) := by
    refine lt_of_lt_of_eq hbelow ?_
    rw [zpow_add₀ two_ne_zero, hdouble]
    push_cast
    ring
  have hexp : exponentOf num den = b.exponent - 1 := by
    refine exponentOf_eq hnum hden (by omega) (lt_of_lt_of_eq hbelow ?_) fun _ => ?_
    · congr 1
      omega
    · refine le_trans ?_ hlow
      rw [zpow_add₀ two_ne_zero, mul_comm]
      gcongr
      norm_num
  have hround := roundEven_scale hden hlow (by push_cast at hhigh ⊢; linarith)
    (fun h => absurd h (by decide))
  have hbits : (b.exponent - 1 + 1074).toNat * 2 ^ 52 + 2 ^ 53 = b.bits := by
    have hnext : (b.exponent + 1074).toNat = (b.exponent - 1 + 1074).toNat + 1 := by omega
    rw [bits, hsig, hnext]
    omega
  rw [nearestBits_of_round hnum hexp hround (hbits.trans_le hle), hbits]

/-- No number has more bits than infinity. -/
theorem Legal.bits_le (hb : b.Legal) : b.bits ≤ infiniteBits := by
  have hlt := hb.significand_lt
  have hexp : (b.exponent + 1074).toNat ≤ 2045 := by
    have := hb.exponent_le
    omega
  have hinf : infiniteBits = 2047 * 2 ^ 52 := rfl
  rw [bits, hinf]
  omega

/-- What a number catches is positive if the number is. -/
theorem Catches.pos {q : ℚ} (h : b.Catches q) (hs : 0 < b.significand) : 0 < q := by
  have hs : (1 : ℚ) ≤ b.significand := by exact_mod_cast hs
  have hreach := b.reach_le
  refine lt_of_lt_of_le (mul_pos ?_ (by positivity)) h.low
  linarith

/-- What is nearest to a fraction that a number catches has the bits of the number. -/
theorem nearestBits_of_catches (hb : b.Legal) (hs : 0 < b.significand) (hden : 0 < den)
    (hq : b.Catches (num / den)) : nearestBits num den = b.bits := by
  have hnum : 0 < num := by
    refine Nat.pos_of_ne_zero fun h => ?_
    simpa [h] using hq.pos hs
  by_cases hcarry : b.exponent ≠ -1074 ∧ (num : ℚ) / den < 2 ^ (b.exponent + 52)
  · exact nearestBits_of_carry hb hnum hden hq hcarry.1 hcarry.2 hb.bits_le
  · have hexp : exponentOf num den = b.exponent := by
      refine exponentOf_eq hnum hden hb.exponent_ge ?_ fun h => ?_
      · have hlt : (b.significand : ℚ) + 1 ≤ 2 ^ 53 := by exact_mod_cast hb.significand_lt
        have hpow : (2 : ℚ) ^ (53 : Int) = 2 ^ 53 := rfl
        rw [zpow_add₀ two_ne_zero, mul_comm, hpow]
        refine hq.high.trans_lt ?_
        gcongr
        linarith
      · exact not_lt.1 fun hlt => hcarry ⟨h, hlt⟩
    refine nearestBits_of_round hnum hexp (roundEven_scale hden ?_ hq.high fun h => ?_) hb.bits_le
    · refine le_trans ?_ hq.low
      gcongr
      exact b.reach_le
    · -- An odd significand is no power of two.
      have hreach : b.reach = 1 / 2 := by
        rw [reach, if_neg]
        intro hn
        have := (hb.narrow.1 hn).1
        omega
      exact hreach ▸ hq.odd h

end Binary
end WorkPriority.Decimal
