import WorkPriority.Interval
import WorkPriority.Proofs.ExactScalars
import Mathlib.Order.Interval.Set.ProjIcc

/-!
# Interpolation

A validity whose bounds lie far enough apart (`Interval.HasSlope`) is mapped onto a score
interval along a straight line, from its lower bound to its upper, and cut off beyond them
(`IsClampedMap`). No value scores outside the score interval for this reason, and the scores
rise or fall throughout, as the score interval was written. The two directions that an interval
can be written in are told apart for the scores only.

Interpolation is how far along the validity a value lies (`Interval.share`), a fraction of one,
and then that fraction of the way from one score to the other (`Interval.along`).

These are laws of exact arithmetic. Which range of several a number falls in is decided by
comparing it with their bounds, where nothing is rounded; so numbers and their exact values
fall in the same ranges (`ScoreRange.find?_exact`).
-/

namespace WorkPriority

/-! ### Intervals over the fractions -/

section Fractions

variable {lo hi : ℚ}

theorem Scalar.min_rat (x y : ℚ) : Scalar.min x y = x ⊓ y := by
  have h : Scalar.min x y = if y < x then y else x := by simp [Scalar.min, Scalar.isNaN]
  rw [h]
  split_ifs with hlt
  · exact (inf_eq_right.2 hlt.le).symm
  · exact (inf_eq_left.2 (not_lt.1 hlt)).symm

theorem Scalar.max_rat (x y : ℚ) : Scalar.max x y = x ⊔ y := by
  have h : Scalar.max x y = if x < y then y else x := by simp [Scalar.max, Scalar.isNaN]
  rw [h]
  split_ifs with hlt
  · exact (sup_eq_right.2 hlt.le).symm
  · exact (sup_eq_left.2 (not_lt.1 hlt)).symm

/-- To clamp is to go to the nearest point of an interval. -/
theorem Scalar.clamp_eq_projIcc (h : lo ≤ hi) (x : ℚ) :
    Scalar.clamp lo hi x = Set.projIcc lo hi h x := by
  rw [Scalar.clamp, Set.coe_projIcc]
  split_ifs with hlow hhigh
  · rw [min_eq_right (hlow.le.trans h), max_eq_left hlow.le]
  · rw [min_eq_left hhigh.le, max_eq_right h]
  · rw [min_eq_right (not_lt.1 hhigh), max_eq_right (not_lt.1 hlow)]

end Fractions

namespace Interval

variable {validity score : Interval ℚ} {x t : ℚ}

theorem contains_iff {α : Type} [Scalar α] {i : Interval α} {x : α} :
    i.contains x = true ↔ i.min ≤ x ∧ x ≤ i.max := by
  rw [contains, Bool.and_eq_true, decide_eq_true_iff, decide_eq_true_iff]

theorem min_eq_pick {α : Type} [Scalar α] (i : Interval α) :
    i.min = pick (fun x y => x < y) i.lo i.hi := rfl

theorem max_eq_pick {α : Type} [Scalar α] (i : Interval α) :
    i.max = pick (fun x y => y < x) i.lo i.hi := rfl

/-- The bounds of an interval, in whichever order, lie far enough apart. -/
def HasSlope (i : Interval ℚ) : Prop := Scalar.epsilon ≤ |i.hi - i.lo|

theorem max_sub_min (i : Interval ℚ) : i.max - i.min = |i.hi - i.lo| := by
  rw [Interval.max, Interval.min, Scalar.max_rat, Scalar.min_rat, max_sub_min_eq_abs]

theorem HasSlope.min_lt_max (h : validity.HasSlope) : validity.min < validity.max := by
  have hepsilon : (0 : ℚ) < Scalar.epsilon := by
    change (0 : ℚ) < 1 / 2 ^ 52
    norm_num
  rw [← sub_pos, max_sub_min]
  exact hepsilon.trans_le h

theorem HasSlope.isDegenerate (h : validity.HasSlope) : validity.isDegenerate = false := by
  have hnear : Scalar.near validity.max validity.min = false := by
    rw [Bool.eq_false_iff, ne_eq, Scalar.near_rat, not_lt, max_sub_min, abs_abs]
    exact h
  rw [Interval.isDegenerate, hnear]
  rfl

/-! ### Along the validity -/

/-- How far along the ordered interval a value lies, as a fraction of one. -/
def share (i : Interval ℚ) (x : ℚ) : ℚ := Scalar.clamp 0 1 ((x - i.min) / (i.max - i.min))

theorem share_eq_projIcc (i : Interval ℚ) (x : ℚ) :
    i.share x = Set.projIcc 0 1 zero_le_one ((x - i.min) / (i.max - i.min)) :=
  Scalar.clamp_eq_projIcc zero_le_one _

theorem share_mem_Icc (i : Interval ℚ) (x : ℚ) : i.share x ∈ Set.Icc 0 1 := by
  rw [share_eq_projIcc]
  exact Subtype.coe_prop _

theorem HasSlope.share_of_le_min (h : validity.HasSlope) (hx : x ≤ validity.min) :
    validity.share x = 0 := by
  have hquotient : (x - validity.min) / (validity.max - validity.min) ≤ 0 :=
    div_nonpos_of_nonpos_of_nonneg (sub_nonpos.2 hx) (sub_nonneg.2 h.min_lt_max.le)
  rw [share_eq_projIcc, Set.projIcc_of_le_left _ hquotient]

theorem HasSlope.share_of_max_le (h : validity.HasSlope) (hx : validity.max ≤ x) :
    validity.share x = 1 := by
  have hquotient : 1 ≤ (x - validity.min) / (validity.max - validity.min) :=
    (one_le_div (sub_pos.2 h.min_lt_max)).2 (sub_le_sub_right hx _)
  rw [share_eq_projIcc, Set.projIcc_of_right_le _ hquotient]

theorem HasSlope.share_of_mem (h : validity.HasSlope) (hlow : validity.min ≤ x)
    (hhigh : x ≤ validity.max) :
    validity.share x * (validity.max - validity.min) = x - validity.min := by
  have hlength : 0 < validity.max - validity.min := sub_pos.2 h.min_lt_max
  have h0 : 0 ≤ (x - validity.min) / (validity.max - validity.min) :=
    div_nonneg (sub_nonneg.2 hlow) hlength.le
  have h1 : (x - validity.min) / (validity.max - validity.min) ≤ 1 :=
    (div_le_one hlength).2 (sub_le_sub_right hhigh _)
  rw [share, Scalar.clamp_rat h0 h1, div_mul_cancel₀ _ hlength.ne']

theorem HasSlope.monotone_share (h : validity.HasSlope) : Monotone validity.share := by
  intro x y hxy
  have hquotient : (x - validity.min) / (validity.max - validity.min) ≤
      (y - validity.min) / (validity.max - validity.min) :=
    div_le_div_of_nonneg_right (sub_le_sub_right hxy _) (sub_nonneg.2 h.min_lt_max.le)
  rw [share_eq_projIcc, share_eq_projIcc]
  exact Set.monotone_projIcc zero_le_one hquotient

/-! ### Along the scores -/

/-- The point that lies a fraction of the way from the first bound to the second. -/
def along (i : Interval ℚ) (t : ℚ) : ℚ := i.lo + t * (i.hi - i.lo)

@[simp] theorem along_zero (i : Interval ℚ) : i.along 0 = i.lo := by
  rw [along, zero_mul, add_zero]

@[simp] theorem along_one (i : Interval ℚ) : i.along 1 = i.hi := by
  rw [along, one_mul, add_sub_cancel]

theorem monotone_along (h : score.lo ≤ score.hi) : Monotone score.along := fun _ _ htu =>
  add_le_add_right (mul_le_mul_of_nonneg_right htu (sub_nonneg.2 h)) _

theorem antitone_along (h : score.hi ≤ score.lo) : Antitone score.along := fun _ _ htu =>
  add_le_add_right (mul_le_mul_of_nonpos_right htu (sub_nonpos.2 h)) _

theorem along_mem_uIcc (ht : t ∈ Set.Icc 0 1) : score.along t ∈ Set.uIcc score.lo score.hi := by
  obtain ⟨h0, h1⟩ := ht
  rw [← along_zero score, ← along_one score]
  rcases le_total score.lo score.hi with h | h
  · exact Set.mem_uIcc_of_le (monotone_along h h0) (monotone_along h h1)
  · exact Set.mem_uIcc_of_ge (antitone_along h h1) (antitone_along h h0)

end Interval

/-! ### Interpolation -/

section Interpolate

variable {validity score : Interval ℚ} {x : ℚ}

/-- A map leads a validity along a straight line onto scores, and what lies beyond the validity
    to the score of the bound nearer to it. -/
structure IsClampedMap (validity score : Interval ℚ) (f : ℚ → ℚ) : Prop where
  /-- No value is led beyond the scores. -/
  mem_uIcc (x : ℚ) : f x ∈ Set.uIcc score.lo score.hi
  /-- Up to the lower bound stands the score written first. -/
  eq_lo {x : ℚ} : x ≤ validity.min → f x = score.lo
  /-- From the upper bound on stands the score written second. -/
  eq_hi {x : ℚ} : validity.max ≤ x → f x = score.hi
  /-- In between, the scores change in proportion to the values. -/
  proportion {x : ℚ} : validity.min ≤ x → x ≤ validity.max →
    (f x - score.lo) * (validity.max - validity.min) = (x - validity.min) * (score.hi - score.lo)
  /-- Scores written upwards are in the order of the values. -/
  monotone : score.lo ≤ score.hi → Monotone f
  /-- Scores written downwards are in the opposite order. -/
  antitone : score.hi ≤ score.lo → Antitone f

theorem Interval.HasSlope.interpolate_eq (h : validity.HasSlope) (x : ℚ) :
    interpolate validity score x = score.along (validity.share x) := by
  have hcond : (validity.isDegenerate || Scalar.isNaN x) = false := by
    rw [h.isDegenerate]
    rfl
  simp only [interpolate, hcond, Scalar.zero_rat, Scalar.one_rat]
  rfl

theorem Interval.HasSlope.isClampedMap (h : validity.HasSlope) :
    IsClampedMap validity score (interpolate validity score) where
  mem_uIcc x := by
    rw [h.interpolate_eq]
    exact Interval.along_mem_uIcc (validity.share_mem_Icc x)
  eq_lo hx := by rw [h.interpolate_eq, h.share_of_le_min hx, Interval.along_zero]
  eq_hi hx := by rw [h.interpolate_eq, h.share_of_max_le hx, Interval.along_one]
  proportion hlow hhigh := by
    rw [h.interpolate_eq, Interval.along, add_sub_cancel_left, mul_right_comm,
      h.share_of_mem hlow hhigh]
  monotone hscore x y hxy := by
    rw [h.interpolate_eq, h.interpolate_eq]
    exact Interval.monotone_along hscore (h.monotone_share hxy)
  antitone hscore x y hxy := by
    rw [h.interpolate_eq, h.interpolate_eq]
    exact Interval.antitone_along hscore (h.monotone_share hxy)

/-- A value that a range is found for scores within the scores of the range. -/
theorem ScoreRange.scoreFor_mem_uIcc {ranges : List (ScoreRange ℚ)} {r : ScoreRange ℚ}
    (hslope : ∀ r ∈ ranges, r.validity.HasSlope) (hr : ScoreRange.find? ranges x = some r) :
    r.scoreFor x ∈ Set.uIcc r.score.lo r.score.hi :=
  (hslope r (List.mem_of_find?_eq_some hr)).isClampedMap.mem_uIcc x

end Interpolate

/-! ### Exact readings of intervals -/

namespace Decimal

open Float.Model

variable {x y a b : Float}

theorem le_iff_isLE_unpack : x ≤ y ↔
    (UnpackedFloat.compare x.toModel.unpack y.toModel.unpack).any (·.isLE) = true := by
  change decide _ = true ↔ _
  rw [decide_eq_true_iff]
  rfl

theorem le_iff_lt_or_beq : x ≤ y ↔ x < y ∨ (x == y) = true := by
  have hbeq : (x == y) = true ↔
      UnpackedFloat.compare x.toModel.unpack y.toModel.unpack = some .eq :=
    beq_iff_eq (α := Option Ordering)
  rw [le_iff_isLE_unpack, hbeq, lt_iff_lt_unpack]
  rcases UnpackedFloat.compare x.toModel.unpack y.toModel.unpack with _ | _ | _ | _ <;> simp

theorem le_iff_exactValue_le (hx : x.isFinite = true) (hy : y.isFinite = true) :
    x ≤ y ↔ exactValue x ≤ exactValue y := by
  rw [le_iff_lt_or_beq,
    LinearScalar.alongLine.beq_iff (isNaN_of_isFinite hx) (isNaN_of_isFinite hy),
    lt_iff_exactValue_lt hx hy, lt_iff_exactValue_lt hy hx, le_iff_lt_or_eq]
  exact or_congr_right ⟨fun h => le_antisymm (not_lt.1 h.2) (not_lt.1 h.1), fun h => by simp [h]⟩

/-- What lies between finite numbers is finite. -/
theorem isFinite_of_between (ha : a.isFinite = true) (hb : b.isFinite = true) (hax : a ≤ x)
    (hxb : x ≤ b) : x.isFinite = true := by
  rw [le_iff_isLE_unpack] at hax hxb
  change a.toModel.unpack.isFinite = true at ha
  change b.toModel.unpack.isFinite = true at hb
  change x.toModel.unpack.isFinite = true
  generalize a.toModel.unpack = u at ha hax
  generalize b.toModel.unpack = v at hb hxb
  generalize x.toModel.unpack = w at hax hxb ⊢
  cases w with
  | zero => rfl
  | finite => rfl
  | notANumber => cases u <;> simp [UnpackedFloat.compare] at hax
  | infinity s =>
    cases s with
    | negative => cases u <;> simp_all [UnpackedFloat.compare, UnpackedFloat.isFinite]
    | positive => cases v <;> simp_all [UnpackedFloat.compare, UnpackedFloat.isFinite]

end Decimal

open Decimal

namespace Interval

variable {i : Interval Float} {x : Float}

/-- The interval between the exact values of the bounds. -/
def exact (i : Interval Float) : Interval ℚ := ⟨exactValue i.lo, exactValue i.hi⟩

/-- Neither bound is open. -/
structure IsFinite (i : Interval Float) : Prop where
  lo : i.lo.isFinite = true
  hi : i.hi.isFinite = true

namespace IsFinite

variable (h : i.IsFinite)

include h

theorem isFinite_pick {before : Float → Float → Prop} [DecidableRel before] :
    (pick before i.lo i.hi).isFinite = true := by
  rw [pick]
  split_ifs
  · exact h.hi
  · exact h.lo

theorem isFinite_min : i.min.isFinite = true := by
  rw [min_eq_pick]
  exact h.isFinite_pick

theorem isFinite_max : i.max.isFinite = true := by
  rw [max_eq_pick]
  exact h.isFinite_pick

/-- If the order of the bounds is that of their exact values, the same one is taken. -/
theorem exactValue_pick {before : Float → Float → Prop} [DecidableRel before]
    {before' : ℚ → ℚ → Prop} [DecidableRel before']
    (hbefore : before i.hi i.lo ↔ before' i.exact.hi i.exact.lo) :
    exactValue (pick before i.lo i.hi) = pick before' i.exact.lo i.exact.hi := by
  have hnumber : Scalar.isNaN i.lo = Scalar.isNaN i.exact.lo := isNaN_of_isFinite h.lo
  rw [pick, pick, apply_ite exactValue, hnumber]
  simp only [hbefore]
  rfl

theorem exactValue_min : exactValue i.min = i.exact.min := by
  rw [min_eq_pick, min_eq_pick]
  exact h.exactValue_pick (lt_iff_exactValue_lt h.hi h.lo)

theorem exactValue_max : exactValue i.max = i.exact.max := by
  rw [max_eq_pick, max_eq_pick]
  exact h.exactValue_pick (lt_iff_exactValue_lt h.lo h.hi)

/-- Nothing but finite numbers lies between finite bounds. -/
theorem isFinite_of_contains (hx : i.contains x = true) : x.isFinite = true := by
  obtain ⟨hlow, hhigh⟩ := contains_iff.1 hx
  exact isFinite_of_between h.isFinite_min h.isFinite_max hlow hhigh

/-- A number lies in an interval just if its exact value does. -/
theorem contains_exact (hx : x.isFinite = true) :
    i.exact.contains (exactValue x) = i.contains x := by
  rw [Bool.eq_iff_iff, contains_iff, contains_iff, ← h.exactValue_min, ← h.exactValue_max,
    le_iff_exactValue_le h.isFinite_min hx, le_iff_exactValue_le hx h.isFinite_max]

end IsFinite
end Interval

namespace ScoreRange

/-- A range read without rounding. -/
def exact (r : ScoreRange Float) : ScoreRange ℚ := ⟨r.validity.exact, r.score.exact, r.description⟩

variable {ranges : List (ScoreRange Float)} {r : ScoreRange Float} {x : Float}

/-- The range that a number is found in is the one that its exact value is found in. -/
theorem find?_exact (hfinite : ∀ r ∈ ranges, r.validity.IsFinite) (hr : find? ranges x = some r) :
    find? (ranges.map exact) (exactValue x) = some r.exact := by
  have hfound : r.validity.contains x = true :=
    List.find?_some (p := fun r : ScoreRange Float => r.validity.contains x) hr
  have hx : x.isFinite = true :=
    (hfinite r (List.mem_of_find?_eq_some hr)).isFinite_of_contains hfound
  have hcontains : ∀ r ∈ ranges, r.exact.validity.contains (exactValue x) = r.validity.contains x :=
    fun r hr => (hfinite r hr).contains_exact hx
  calc find? (ranges.map exact) (exactValue x)
      = (ranges.find? fun r => r.exact.validity.contains (exactValue x)).map exact :=
        List.find?_map ..
    _ = (find? ranges x).map exact := by rw [List.find?_congr hcontains, find?]
    _ = some r.exact := by rw [hr, Option.map_some]

end ScoreRange

/-- Interpolation over a validity with a slope is a clamped map onto the scores. A value that
    one of several such ranges is found for therefore scores within the scores of that range;
    and this goes for the numbers that ranges are looked up with, read without rounding. -/
theorem interpolation_clamped :
    (∀ validity score : Interval ℚ, validity.HasSlope →
      IsClampedMap validity score (interpolate validity score)) ∧
    (∀ ranges : List (ScoreRange ℚ), (∀ r ∈ ranges, r.validity.HasSlope) →
      ∀ x r, ScoreRange.find? ranges x = some r →
        r.scoreFor x ∈ Set.uIcc r.score.lo r.score.hi) ∧
    ∀ ranges : List (ScoreRange Float),
      (∀ r ∈ ranges, r.validity.IsFinite ∧ r.validity.exact.HasSlope) →
      ∀ x r, ScoreRange.find? ranges x = some r →
        ScoreRange.find? (ranges.map .exact) (exactValue x) = some r.exact ∧
        r.exact.scoreFor (exactValue x) ∈ Set.uIcc r.exact.score.lo r.exact.score.hi := by
  refine ⟨fun _ _ h => h.isClampedMap, fun _ hslope _ _ => ScoreRange.scoreFor_mem_uIcc hslope, ?_⟩
  intro ranges hranges x r hr
  have hfind : ScoreRange.find? (ranges.map .exact) (exactValue x) = some r.exact :=
    ScoreRange.find?_exact (fun r hr => (hranges r hr).1) hr
  have hslope : ∀ r ∈ ranges.map ScoreRange.exact, r.validity.HasSlope := by
    intro e he
    obtain ⟨r, hr, rfl⟩ := List.mem_map.1 he
    exact (hranges r hr).2
  exact ⟨hfind, ScoreRange.scoreFor_mem_uIcc hslope hfind⟩

namespace Comfort

/-- Warmth, written downwards, with scores that fall as it rises. -/
def warmth : Interval ℚ := ⟨30, 20⟩

/-- The scores of warmth. -/
def scores : Interval ℚ := ⟨8, 5⟩

/-- Light, from none to full, counts for the more the less there is. -/
def light : ScoreRange Float := ⟨⟨Float.ofNat 1, Float.ofNat 0⟩, ⟨9.0, 2.5⟩, "dark"⟩

/-- Neither that warmth is written downwards nor that scores fall is an obstacle: of a
    warmth of 22, the range of the warm is found, and its score lies between 8 and 5. So
    it is with the range of light at its brighter end. -/
theorem interpolation_clamped_comfort :
    warmth.HasSlope ∧ IsClampedMap warmth scores (interpolate warmth scores) ∧
    (ScoreRange.find? [⟨⟨0, 1⟩, scores, "cold"⟩, ⟨warmth, scores, "warm"⟩] 22 =
        some ⟨warmth, scores, "warm"⟩ ∧
      interpolate warmth scores 22 ∈ Set.uIcc 8 5) ∧
    light.validity.IsFinite ∧ light.validity.exact.HasSlope ∧
    ScoreRange.find? [light] (Float.ofNat 1) = some light ∧
    ScoreRange.find? [light.exact] (exactValue (Float.ofNat 1)) = some light.exact ∧
    light.exact.scoreFor (exactValue (Float.ofNat 1)) ∈
      Set.uIcc light.exact.score.lo light.exact.score.hi := by
  obtain ⟨hmap, hranges, hnumbers⟩ := interpolation_clamped
  have hepsilon : (Scalar.epsilon : ℚ) = 1 / 2 ^ 52 := rfl
  have hwarmth : warmth.HasSlope := by
    rw [Interval.HasSlope, hepsilon, warmth]
    norm_num
  have hcold : Interval.HasSlope ⟨0, 1⟩ := by
    rw [Interval.HasSlope, hepsilon]
    norm_num
  have hfinite : light.validity.IsFinite := ⟨rfl, rfl⟩
  have hlight : light.validity.exact.HasSlope := by
    rw [Interval.HasSlope, hepsilon, Interval.exact, light, exactValue_zero, exactValue_one]
    norm_num
  have hfound : ScoreRange.find? [⟨⟨0, 1⟩, scores, "cold"⟩, ⟨warmth, scores, "warm"⟩] 22 =
      some ⟨warmth, scores, "warm"⟩ := by rfl
  have hshines : ScoreRange.find? [light] (Float.ofNat 1) = some light := by rfl
  have hboth := hranges _ (by simp [hcold, hwarmth]) _ _ hfound
  have hexact := hnumbers [light] (by simp [hfinite, hlight]) _ _ hshines
  exact ⟨hwarmth, hmap _ _ hwarmth, ⟨hfound, hboth⟩, hfinite, hlight, hshines, hexact⟩

end Comfort
end WorkPriority
