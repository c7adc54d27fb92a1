import WorkPriority.Decimal.Shortest
import WorkPriority.Proofs.NearestFloats

/-!
# Seventeen digits are enough

The shortest decimal of a number is found by a search that could end without a
result. It never does: the decimal that is written always reads back as the
number (`Shortest.ofBinary_spec`).

The range of a number is just what the number catches (`Range.admits_iff`), so
there only has to be a decimal in the range. At the place of the seventeenth
digit the decimals are closer to each other than the ends of the range: the
number is at least `10 ^ 16` units of that place, and less than `2 ^ 53` units
of its own significand, about which the range extends.
-/

namespace WorkPriority.Decimal.Shortest

open Binary

variable {b : Binary} {r : Range}

/-! ### Ranges -/

theorem den_ofBinary (b : Binary) : 0 < (Range.ofBinary b).den :=
  scale_pos Nat.one_pos _

/-- The common denominator of a range is that of a quarter of the unit of the significand. -/
theorem quarter_eq (b : Binary) :
    ((scale 1 1 (b.exponent - 2)).1 : ℚ) / (scale 1 1 (b.exponent - 2)).2 = 2 ^ b.exponent / 4 := by
  rw [scale_eq, zpow_sub₀ two_ne_zero]
  norm_num

theorem value_ofBinary (b : Binary) : ((Range.ofBinary b).value : ℚ) / (Range.ofBinary b).den =
    b.significand * 2 ^ b.exponent := by
  have h : (Range.ofBinary b).value = 4 * b.significand * (scale 1 1 (b.exponent - 2)).1 := rfl
  have hd : (Range.ofBinary b).den = (scale 1 1 (b.exponent - 2)).2 := rfl
  rw [h, hd, Nat.cast_mul, mul_div_assoc, quarter_eq]
  push_cast
  ring

theorem high_ofBinary (b : Binary) : ((Range.ofBinary b).high : ℚ) / (Range.ofBinary b).den =
    (b.significand + 1 / 2) * 2 ^ b.exponent := by
  have h : (Range.ofBinary b).high = (4 * b.significand + 2) * (scale 1 1 (b.exponent - 2)).1 := rfl
  have hd : (Range.ofBinary b).den = (scale 1 1 (b.exponent - 2)).2 := rfl
  rw [h, hd, Nat.cast_mul, mul_div_assoc, quarter_eq]
  push_cast
  ring

theorem low_ofBinary (hs : 0 < b.significand) :
    ((Range.ofBinary b).low : ℚ) / (Range.ofBinary b).den =
      (b.significand - b.reach) * 2 ^ b.exponent := by
  have h : (Range.ofBinary b).low =
      (4 * b.significand - if b.narrow then 1 else 2) * (scale 1 1 (b.exponent - 2)).1 := rfl
  have hd : (Range.ofBinary b).den = (scale 1 1 (b.exponent - 2)).2 := rfl
  have hle : (if b.narrow then 1 else 2) ≤ 4 * b.significand := by
    split <;> omega
  rw [h, hd, Nat.cast_mul, mul_div_assoc, quarter_eq, Nat.cast_sub hle, reach]
  split
  · push_cast
    ring
  · push_cast
    ring

/-- A decimal as a fraction. -/
theorem decimal_eq (n : Nat) (place : Int) :
    let (x, d) := if 0 ≤ place then (n * Nat.pow 10 place.toNat, 1)
      else (n, Nat.pow 10 (-place).toNat)
    0 < d ∧ (x : ℚ) / d = n * 10 ^ place := by
  by_cases h : 0 ≤ place
  · rw [if_pos h]
    refine ⟨Nat.one_pos, ?_⟩
    rw [Nat.cast_mul, cast_pow_toNat 10 h, Nat.cast_one, div_one, Nat.cast_ofNat]
  · rw [if_neg h]
    refine ⟨Nat.pow_pos (by decide), ?_⟩
    rw [cast_pow_toNat_neg 10 h, div_inv_eq_mul, Nat.cast_ofNat]

theorem admits_iff_ends (hden : 0 < r.den) (n : Nat) (place : Int) : r.admits n place = true ↔
    if r.closed then (r.low : ℚ) / r.den ≤ n * 10 ^ place ∧ n * 10 ^ place ≤ (r.high : ℚ) / r.den
    else (r.low : ℚ) / r.den < n * 10 ^ place ∧ n * 10 ^ place < (r.high : ℚ) / r.den := by
  have hdec := decimal_eq n place
  rw [Range.admits]
  generalize (if 0 ≤ place then (n * Nat.pow 10 place.toNat, 1)
    else (n, Nat.pow 10 (-place).toNat)) = xd at *
  obtain ⟨x, d⟩ := xd
  obtain ⟨hd, heq⟩ := hdec
  have hd' : (0 : ℚ) < d := by exact_mod_cast hd
  have hden' : (0 : ℚ) < r.den := by exact_mod_cast hden
  rw [← heq, div_le_div_iff₀ hden' hd', div_le_div_iff₀ hd' hden', div_lt_div_iff₀ hden' hd',
    div_lt_div_iff₀ hd' hden']
  dsimp only
  split
  · rw [Bool.and_eq_true, decide_eq_true_eq, decide_eq_true_eq]
    exact_mod_cast Iff.rfl
  · rw [Bool.and_eq_true, decide_eq_true_eq, decide_eq_true_eq]
    exact_mod_cast Iff.rfl

/-- The range of a number admits the decimals that the number catches. -/
theorem admits_iff (hs : 0 < b.significand) (n : Nat) (place : Int) :
    (Range.ofBinary b).admits n place = true ↔ b.Catches (n * 10 ^ place) := by
  have hclosed : (Range.ofBinary b).closed = (b.significand % 2 == 0) := rfl
  rw [admits_iff_ends (den_ofBinary b), low_ofBinary hs, high_ofBinary, hclosed]
  rcases Nat.mod_two_eq_zero_or_one b.significand with h | h
  · rw [if_pos (by rw [h]; rfl)]
    exact ⟨fun ⟨hl, hh⟩ => ⟨hl, hh, fun h' => absurd (h.symm.trans h') Nat.zero_ne_one⟩,
      fun hc => ⟨hc.low, hc.high⟩⟩
  · rw [if_neg (by rw [h]; decide)]
    exact ⟨fun hlt => ⟨hlt.1.le, hlt.2.le, fun _ => hlt⟩, fun hc => hc.odd h⟩

/-! ### Decimals around a number -/

/-- What is found below a number at a place is the whole part of the number over the unit
    of the place. -/
theorem below_bounds (hden : 0 < r.den) (place : Int) :
    ((r.below place).1 : ℚ) * 10 ^ place ≤ r.value / r.den ∧
      (r.value : ℚ) / r.den < ((r.below place).1 + 1) * 10 ^ place := by
  obtain ⟨num, den, hd, heq, hbelow⟩ : ∃ num den : Nat, 0 < den ∧
      (num : ℚ) / den = r.value / r.den / 10 ^ place ∧ (r.below place).1 = num / den := by
    by_cases h : 0 ≤ place
    · refine ⟨r.value, r.den * Nat.pow 10 place.toNat, Nat.mul_pos hden (Nat.pow_pos (by decide)),
        ?_, by rw [Range.below, if_pos h]⟩
      rw [Nat.cast_mul, cast_pow_toNat 10 h, Nat.cast_ofNat, div_mul_eq_div_div]
    · refine ⟨r.value * Nat.pow 10 (-place).toNat, r.den, hden, ?_, by rw [Range.below, if_neg h]⟩
      rw [Nat.cast_mul, cast_pow_toNat_neg 10 h, Nat.cast_ofNat, mul_div_right_comm,
        div_eq_mul_inv _ (10 ^ place)]
  have hp : (0 : ℚ) < 10 ^ place := by positivity
  have hd' : (0 : ℚ) < den := by exact_mod_cast hd
  rw [hbelow, ← le_div_iff₀ hp, ← div_lt_iff₀ hp, ← heq]
  refine ⟨Nat.cast_div_le, ?_⟩
  rw [div_lt_iff₀ hd']
  exact_mod_cast Nat.lt_mul_of_div_lt (Nat.lt_succ_self _) hd

theorem admits_of_atPlace {n : Nat} {place : Int} (h : r.atPlace place = some n) :
    r.admits n place = true := by
  rw [Range.atPlace] at h
  dsimp only at h
  split at h
  · rename_i h0 h1
    cases h
    split
    · exact h0
    · exact h1
  · rename_i h0 _
    cases h
    exact h0
  · rename_i h1
    cases h
    exact h1
  · cases h

theorem atPlace_of_admits {place : Int} (h : r.admits (r.below place).1 place = true ∨
    r.admits ((r.below place).1 + 1) place = true) : ∃ n, r.atPlace place = some n := by
  rw [Range.atPlace]
  dsimp only
  split
  · exact ⟨_, rfl⟩
  · exact ⟨_, rfl⟩
  · exact ⟨_, rfl⟩
  · rename_i h0 h1
    rw [h0, h1] at h
    rcases h with h | h <;> cases h

/-- Where the unit of the place is below the extent of a range, it admits a decimal. -/
theorem exists_atPlace (hs : 0 < b.significand) {place : Int}
    (hp : (10 : ℚ) ^ place < (b.reach + 1 / 2) * 2 ^ b.exponent) :
    ∃ n, (Range.ofBinary b).atPlace place = some n := by
  obtain ⟨hle, hlt⟩ := below_bounds (den_ofBinary b) place
  rw [value_ofBinary] at hle hlt
  refine atPlace_of_admits ?_
  rw [admits_iff hs, admits_iff hs]
  generalize (Range.ofBinary b).below place = n at *
  have hpow : (0 : ℚ) < 2 ^ b.exponent := by positivity
  have hreach := b.reach_pos
  have hlow : (b.significand - b.reach) * 2 ^ b.exponent <
      (b.significand : ℚ) * 2 ^ b.exponent := by
    gcongr
    linarith
  have hhigh : (b.significand : ℚ) * 2 ^ b.exponent < (b.significand + 1 / 2) * 2 ^ b.exponent := by
    gcongr
    linarith
  by_cases h : (b.significand - b.reach) * 2 ^ b.exponent < (n.1 : ℚ) * 10 ^ place
  · exact .inl (.of_lt h (hle.trans_lt hhigh))
  · -- The decimal below is out of the range, so that the next cannot be beyond it.
    refine .inr (.of_lt ?_ ?_)
    · push_cast
      exact hlow.trans hlt
    · push_cast
      linarith

/-! ### The place of the first digit -/

/-- Powers are compared through equal multiples of their exponents. -/
theorem zpow_le_of_pow_le {x y : ℚ} (hx : 0 < x) (hy : 1 ≤ y) {m n : Nat} (hm : m ≠ 0)
    (h : x ^ m ≤ y ^ n) {k j : Int} (hk : 0 ≤ k) (hj : n * k ≤ j * m) : x ^ k ≤ y ^ j := by
  have hy' : 0 < y := one_pos.trans_le hy
  rw [← pow_le_pow_iff_left₀ (by positivity) (by positivity) hm]
  calc (x ^ k) ^ m = (x ^ m) ^ k := by rw [← zpow_natCast, ← zpow_natCast, zpow_comm]
    _ ≤ (y ^ n) ^ k := zpow_le_zpow_left₀ hk (by positivity) h
    _ = y ^ (n * k) := by rw [zpow_mul, zpow_natCast]
    _ ≤ y ^ (j * m) := zpow_le_zpow_right₀ hy hj
    _ = (y ^ j) ^ m := by rw [zpow_mul, zpow_natCast]

/-- The power of ten that belongs to a power of two is not above the next power of two. -/
theorem ten_zpow_le {l : Int} (hlow : -5000 ≤ l) (hhigh : l ≤ 5000) :
    (10 : ℚ) ^ (l * 30103 / 100000) ≤ 2 ^ (l + 1) := by
  have hle := Int.ediv_mul_le (l * 30103) (show (100000 : Int) ≠ 0 by decide)
  have hlt := Int.lt_ediv_add_one_mul_self (l * 30103) (show (0 : Int) < 100000 by decide)
  generalize l * 30103 / 100000 = g at *
  by_cases hg : 0 ≤ g
  · exact zpow_le_of_pow_le (m := 31) (n := 103) (by norm_num) one_le_two (by decide)
      (by norm_num) hg (by push_cast; omega)
  · have hinv : (2 : ℚ) ^ (-(l + 1)) ≤ 10 ^ (-g) :=
      zpow_le_of_pow_le (m := 93) (n := 28) (by norm_num) (by norm_num) (by decide)
        (by norm_num) (by omega) (by push_cast; omega)
    rw [zpow_neg, zpow_neg] at hinv
    exact (inv_le_inv₀ (by positivity) (by positivity)).1 hinv

theorem ten_zpow_le_of_below (hden : 0 < r.den) {place : Int} (h : (r.below place).1 ≠ 0) :
    (10 : ℚ) ^ place ≤ r.value / r.den := by
  refine le_trans ?_ (below_bounds hden place).1
  have h1 : (1 : ℚ) ≤ (r.below place).1 := by exact_mod_cast Nat.one_le_iff_ne_zero.2 h
  exact le_mul_of_one_le_left (by positivity) h1

/-- The first place is not beyond the first digit of the number. -/
theorem firstPlace_spec (hvalue : 0 < r.value) (hden : 0 < r.den)
    (hlow : -1074 ≤ (r.value.log2 : Int) - r.den.log2)
    (hhigh : (r.value.log2 : Int) - r.den.log2 ≤ 1024) :
    (10 : ℚ) ^ r.firstPlace ≤ r.value / r.den ∧ -325 ≤ r.firstPlace := by
  have hguess := ten_zpow_le (l := (r.value.log2 : Int) - r.den.log2) (by omega) (by omega)
  have hlog := (log2_bounds hvalue hden).1
  generalize hl : (r.value.log2 : Int) - r.den.log2 = l at *
  have hge : -324 ≤ l * 30103 / 100000 := by omega
  rw [Range.firstPlace, hl]
  split
  · rename_i h
    exact ⟨ten_zpow_le_of_below hden (bne_iff_ne.1 h), by omega⟩
  · split
    · rename_i h
      exact ⟨ten_zpow_le_of_below hden (bne_iff_ne.1 h), by omega⟩
    · refine ⟨?_, by omega⟩
      calc (10 : ℚ) ^ (l * 30103 / 100000 - 1) = 10 ^ (l * 30103 / 100000) / 10 :=
            zpow_sub_one₀ (by norm_num) _
        _ ≤ 2 ^ (l + 1) / 10 := by gcongr
        _ ≤ 2 ^ (l + 1) / 4 := by gcongr; norm_num
        _ = 2 ^ (l - 1) := by
          rw [zpow_add_one₀ two_ne_zero, zpow_sub_one₀ two_ne_zero]
          ring
        _ ≤ r.value / r.den := hlog.le

/-! ### The shortest decimal -/

theorem firstPlace_ofBinary (hb : b.Legal) (hs : 0 < b.significand) :
    (10 : ℚ) ^ (Range.ofBinary b).firstPlace ≤ b.significand * 2 ^ b.exponent ∧
      -325 ≤ (Range.ofBinary b).firstPlace := by
  have heq := value_ofBinary b
  have hden := den_ofBinary b
  have hs' : (1 : ℚ) ≤ b.significand := by exact_mod_cast hs
  have hlt : (b.significand : ℚ) < 2 ^ (53 : Int) := by
    exact_mod_cast hb.significand_lt
  have hpow : (0 : ℚ) < 2 ^ b.exponent := by positivity
  have hvalue : 0 < (Range.ofBinary b).value := by
    refine Nat.pos_of_ne_zero fun h => ?_
    rw [h, Nat.cast_zero, zero_div] at heq
    exact (mul_pos (one_pos.trans_le hs') hpow).ne heq
  obtain ⟨hlow, hhigh⟩ := log2_bounds hvalue hden
  rw [heq] at hlow hhigh
  rw [← heq]
  refine firstPlace_spec hvalue hden ?_ ?_
  · have h : (2 : ℚ) ^ b.exponent < 2 ^ (((Range.ofBinary b).value.log2 : Int) -
        (Range.ofBinary b).den.log2 + 1) :=
      (le_mul_of_one_le_left hpow.le hs').trans_lt hhigh
    have := lt_of_zpow_lt h
    have := hb.exponent_ge
    omega
  · have h : (2 : ℚ) ^ (((Range.ofBinary b).value.log2 : Int) -
        (Range.ofBinary b).den.log2 - 1) < 2 ^ (53 + b.exponent) := by
      rw [zpow_add₀ two_ne_zero]
      exact hlow.trans (mul_lt_mul_of_pos_right hlt hpow)
    have := lt_of_zpow_lt h
    have := hb.exponent_le
    omega

/-- The unit of the place of the seventeenth digit is below the extent of the range. -/
theorem seventeenth_place (hb : b.Legal) {first : Int}
    (h : (10 : ℚ) ^ first ≤ b.significand * 2 ^ b.exponent) :
    (10 : ℚ) ^ (first - 16) < (b.reach + 1 / 2) * 2 ^ b.exponent := by
  have hpow : (0 : ℚ) < 2 ^ b.exponent := by positivity
  have hunits : (b.significand : ℚ) < (b.reach + 1 / 2) * 10 ^ 16 := by
    rw [reach]
    split
    · rename_i hn
      rw [(hb.narrow.1 hn).1]
      norm_num
    · have hlt : (b.significand : ℚ) < 2 ^ 53 := by exact_mod_cast hb.significand_lt
      norm_num at hlt ⊢
      linarith
  calc (10 : ℚ) ^ (first - 16) = 10 ^ first / 10 ^ 16 := by
        rw [zpow_sub₀ (by norm_num)]
        rfl
    _ ≤ b.significand * 2 ^ b.exponent / 10 ^ 16 := by gcongr
    _ < (b.reach + 1 / 2) * 10 ^ 16 * 2 ^ b.exponent / 10 ^ 16 := by gcongr
    _ = (b.reach + 1 / 2) * 2 ^ b.exponent := by
      field_simp

/-- The decimal that is written for a positive number is one that the number catches. -/
theorem ofBinary_spec (hb : b.Legal) (hs : 0 < b.significand) :
    ∃ (n : Nat) (place : Int), b.Catches (n * 10 ^ place) ∧ -341 ≤ place ∧
      ofBinary b = ⟨dropZerosEnd (digitsOf n), (digitsOf n).length + place⟩ := by
  obtain ⟨hfirst, hge⟩ := firstPlace_ofBinary hb hs
  generalize hplace : (Range.ofBinary b).firstPlace = first at *
  obtain ⟨n, hn⟩ := exists_atPlace hs (seventeenth_place hb hfirst)
  unfold ofBinary
  dsimp only
  rw [hplace]
  cases hfind : ((List.range 17).map fun (i : Nat) => first - (i : Int)).findSome?
      fun p => ((Range.ofBinary b).atPlace p).map fun n => (n, p) with
  | none =>
    rw [List.findSome?_eq_none_iff] at hfind
    have hmem : first - 16 ∈ (List.range 17).map fun (i : Nat) => first - (i : Int) :=
      List.mem_map.2 ⟨16, by decide, rfl⟩
    have := hfind _ hmem
    rw [hn] at this
    cases this
  | some found =>
    obtain ⟨n, place⟩ := found
    obtain ⟨p, hp, hfound⟩ := List.exists_of_findSome?_eq_some hfind
    obtain ⟨m, hm, heq⟩ := Option.map_eq_some_iff.1 hfound
    cases heq
    obtain ⟨i, hi, rfl⟩ := List.mem_map.1 hp
    have hlt := List.mem_range.1 hi
    exact ⟨n, _, (admits_iff hs _ _).1 (admits_of_atPlace hm), by omega, rfl⟩

end WorkPriority.Decimal.Shortest
