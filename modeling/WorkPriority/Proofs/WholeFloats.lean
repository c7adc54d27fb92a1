import WorkPriority.Scalar
import WorkPriority.Proofs.FloatArithmetic

/-!
# Whole numbers as floating point numbers

A whole number below `2 ^ 53` has no more digits than a significand, so it is itself a
floating point number (`isWhole_ofNat`). Sums of such numbers need no rounding while
they stay below that bound (`ofNat_add`), however many there are (`sum_map_ofNat`).
Beyond it only every other whole number is a floating point number, and adding one to a
count may leave it as it is.
-/

namespace WorkPriority.Decimal

open Float.Model Float.Model.UnpackedFloat

namespace Binary

/-- A whole number can be shifted so far that it has as many digits as a significand. -/
theorem shifted_bounds {n : Nat} (hpos : 0 < n) (hn : n < 2 ^ 53) :
    2 ^ 52 ≤ n * 2 ^ (52 - n.log2) ∧ n * 2 ^ (52 - n.log2) < 2 ^ 53 := by
  obtain ⟨hlow, hhigh⟩ := (Nat.log2_eq_iff hpos.ne').1 rfl
  have hlog : n.log2 < 53 := (Nat.log2_lt hpos.ne').2 hn
  constructor
  · calc 2 ^ 52 = 2 ^ n.log2 * 2 ^ (52 - n.log2) := by rw [← pow_add]; congr 1; omega
      _ ≤ n * 2 ^ (52 - n.log2) := Nat.mul_le_mul_right _ hlow
  · calc n * 2 ^ (52 - n.log2) < 2 ^ (n.log2 + 1) * 2 ^ (52 - n.log2) :=
          Nat.mul_lt_mul_of_pos_right hhigh (Nat.two_pow_pos _)
      _ = 2 ^ 53 := by rw [← pow_add]; congr 1; omega

/-- A whole number without more digits than a significand is the value of some parts. -/
theorem exists_legal_natCast {n : Nat} (hn : n < 2 ^ 53) :
    ∃ c : Binary, c.Legal ∧ c.negative = false ∧ c.value = n := by
  rcases Nat.eq_zero_or_pos n with rfl | hpos
  · refine ⟨⟨false, 0, -1074, false⟩, ⟨by decide, by decide, by decide, by decide, by decide⟩,
      rfl, ?_⟩
    rw [value_of_zero rfl, Nat.cast_zero]
  obtain ⟨hlow, hhigh⟩ := shifted_bounds hpos hn
  have hlog : n.log2 < 53 := (Nat.log2_lt hpos.ne').2 hn
  refine ⟨⟨false, n * 2 ^ (52 - n.log2), n.log2 - 52, decide (n * 2 ^ (52 - n.log2) = 2 ^ 52)⟩,
    ⟨hhigh, by dsimp only; omega, by dsimp only; omega, fun _ => hlow, ?_⟩, rfl, ?_⟩
  · rw [decide_eq_true_iff, iff_self_and]
    intro _
    dsimp only
    omega
  · have hshift : (n.log2 - 52 : Int) = -((52 - n.log2 : Nat) : Int) := by omega
    rw [value]
    dsimp only
    rw [hshift, if_neg Bool.false_ne_true, one_mul, Nat.cast_mul, Nat.cast_pow, Nat.cast_ofNat,
      zpow_neg, zpow_natCast, mul_inv_cancel_right₀ (by positivity)]

/-- A number with the bits of some parts has their value. -/
theorem Legal.exactValue_of_toBits {c : Binary} (hc : c.Legal) (hneg : c.negative = false)
    {x : Float} (hx : x.toBits.toNat = bitsNear c.value) :
    x.isFinite = true ∧ (decode x).negative = false ∧ exactValue x = c.value := by
  rw [hc.bitsNear_value] at hx
  have hlt : c.bits < infiniteBits := by
    have hinf : infiniteBits = 2047 * 2 ^ 52 := rfl
    have := hc.significand_lt
    have := hc.exponent_le
    rw [bits]
    omega
  have hsigned : x.toBits.toNat = signBit .positive + c.bits :=
    hx.trans (Nat.zero_add _).symm
  obtain ⟨hbits, hsign⟩ := decode_of_toBits hsigned hlt.le
  have hpositive : (decode x).negative = false := signOf_injective hsign
  have hfinite : x.isFinite = true := (isFinite_iff_bits x).2 (hbits.trans_lt hlt)
  have habs : |exactValue x| = |c.value| :=
    le_antisymm ((legal_decode hfinite).abs_value_le hc hbits.le)
      (hc.abs_value_le (legal_decode hfinite) hbits.ge)
  refine ⟨hfinite, hpositive, ?_⟩
  have hvalue : exactValue x = _ := value_eq_abs (decode x)
  rw [hvalue, value_eq_abs c, hpositive, hneg]
  exact habs

end Binary

/-- The number that a whole number is. -/
structure IsWhole (x : Float) (n : Nat) : Prop where
  finite : x.isFinite = true
  positive : (Binary.decode x).negative = false
  exact : exactValue x = n

variable {m n : Nat}

theorem isWhole_of_toBits (hn : n < 2 ^ 53) {x : Float} (hx : x.toBits.toNat = Binary.bitsNear n) :
    IsWhole x n := by
  obtain ⟨c, hc, hneg, hvalue⟩ := Binary.exists_legal_natCast hn
  rw [← hvalue] at hx
  obtain ⟨hfinite, hpositive, hexact⟩ := hc.exactValue_of_toBits hneg hx
  exact ⟨hfinite, hpositive, hexact.trans hvalue⟩

theorem toNat_toBits_toFloat (n : UInt64) :
    n.toFloat.toBits.toNat = Binary.bitsNear n.toNat := by
  obtain ⟨s, hs, hsign⟩ := exists_toNat_pack_normalize n.toNat 0 .positive
  rw [hsign (Int.natCast_nonneg _) rfl, zpow_zero, mul_one, Int.cast_natCast] at hs
  exact hs.trans (Nat.zero_add _)

theorem toNat_toBits_ofNat (hn : n < 2 ^ 53) :
    (Float.ofNat n).toBits.toNat = Binary.bitsNear n := by
  have hword : n.toUInt64.toNat = n := Nat.mod_eq_of_lt (by omega)
  have hone : IsWhole (Float.ofNat 1) 1 :=
    ⟨by decide, by decide, exactValue_one.trans Nat.cast_one.symm⟩
  have hwhole : IsWhole n.toUInt64.toFloat n :=
    isWhole_of_toBits hn (by rw [toNat_toBits_toFloat, hword])
  have hproduct : Float.ofNat n = n.toUInt64.toFloat * Float.ofNat 1 :=
    (dif_pos ⟨hn, Nat.zero_le _⟩).trans rfl
  rw [hproduct, toNat_toBits_mul hwhole.finite hone.finite, hwhole.exact, hone.exact,
    hwhole.positive, hone.positive, Nat.cast_one, mul_one]
  exact Nat.zero_add _

theorem isWhole_ofNat (hn : n < 2 ^ 53) : IsWhole (Float.ofNat n) n :=
  isWhole_of_toBits hn (toNat_toBits_ofNat hn)

/-- The sum of whole numbers is the number that their sum is. -/
theorem ofNat_add (h : m + n < 2 ^ 53) :
    Float.ofNat m + Float.ofNat n = Float.ofNat (m + n) := by
  have hm := isWhole_ofNat (show m < 2 ^ 53 by omega)
  have hn := isWhole_ofNat (show n < 2 ^ 53 by omega)
  obtain ⟨s, hs, hsign⟩ := exists_toNat_toBits_add hm.finite hn.finite
  rw [hsign hm.positive hn.positive, hm.exact, hn.exact, ← Nat.cast_add] at hs
  refine Float.toBits_inj.1 (UInt64.toNat_inj.1 ?_)
  rw [hs, toNat_toBits_ofNat h]
  exact Nat.zero_add _

/-- However many whole numbers are added. -/
theorem sum_map_ofNat {ns : List Nat} (h : ns.sum < 2 ^ 53) :
    Scalar.sum (ns.map Scalar.ofNat) = (Scalar.ofNat ns.sum : Float) := by
  suffices hfold : ∀ (k : Nat), k + ns.sum < 2 ^ 53 →
      (ns.map Scalar.ofNat).foldl (· + ·) (Scalar.ofNat k) =
        (Scalar.ofNat (k + ns.sum) : Float) by
    have hzero := hfold 0 (by omega)
    rwa [Nat.zero_add] at hzero
  clear h
  induction ns with
  | nil => exact fun k _ => rfl
  | cons n ns ih =>
    intro k hk
    rw [List.sum_cons] at hk
    have hstep : (Scalar.ofNat k + Scalar.ofNat n : Float) = Scalar.ofNat (k + n) :=
      ofNat_add (by omega)
    rw [List.map_cons, List.foldl_cons, hstep, ih (k + n) (by omega), List.sum_cons, add_assoc]

end WorkPriority.Decimal
