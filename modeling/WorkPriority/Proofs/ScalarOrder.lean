import WorkPriority.Signal.Aggregation
import WorkPriority.Proofs.FloatArithmetic

/-!
# Scalars in order

The least and the greatest of some scalars are found by going through them and keeping
the better one each time. What this comes to is said here without the going through: of
numbers, it finds one that none of the others lies before (`IsFirst`), in the one
direction or in the other. Any two such numbers are equal, so neither the order of the
scalars matters nor whether they are compared in groups (`IsFirst.of_parts`).

All of this holds wherever numbers are compared as the points of a line
(`LinearScalar`), as floating point numbers are: by their signs, and those of one sign by
exponents and then significands, with the infinite ones at the ends.
-/

namespace WorkPriority

open Scalar

variable {α : Type} [Scalar α]

/-- A relation compares numbers as the points of a line, in one of its directions. -/
structure AlongLine (before : α → α → Prop) : Prop where
  /-- Of two scalars only one lies before the other. -/
  asymm {x y : α} : before x y → ¬before y x
  /-- Where one scalar lies before another, no number is neither behind the one nor
      before the other. -/
  cotrans {x y z : α} : isNaN y = false → before x z → before x y ∨ before y z
  /-- Equal are those numbers of which none lies before the other. -/
  beq_iff {x y : α} : isNaN x = false → isNaN y = false →
    ((x == y) = true ↔ ¬before x y ∧ ¬before y x)

/-- A line has two directions. -/
theorem AlongLine.flip {before : α → α → Prop} (h : AlongLine before) :
    AlongLine fun x y => before y x where
  asymm := h.asymm
  cotrans hy hxz := (h.cotrans hy hxz).symm
  beq_iff hx hy := (h.beq_iff hx hy).trans and_comm

/-- Scalars whose numbers are compared as the points of a line. -/
class LinearScalar (α : Type) [Scalar α] : Prop where
  /-- By which is the lesser. -/
  alongLine : AlongLine fun x y : α => x < y

/-- The record of a missing measurement is not that of a measurement. -/
theorem isMeasured_missingValue [LinearScalar α] : isMeasured (missingValue : α) = false := by
  rw [isMeasured]
  cases hn : isNaN (missingValue : α) with
  | true => exact Bool.and_false _
  | false =>
    have hirrefl : ¬(missingValue : α) < missingValue :=
      fun h => LinearScalar.alongLine.asymm h h
    rw [(LinearScalar.alongLine.beq_iff hn hn).2 ⟨hirrefl, hirrefl⟩]
    rfl

/-! ### First in one direction -/

/-- A scalar is one of a list, and none of the list lies before it. -/
structure IsFirst (before : α → α → Prop) (xs : List α) (m : α) : Prop where
  mem : m ∈ xs
  not_before : ∀ x ∈ xs, ¬before x m

namespace IsFirst

variable {before : α → α → Prop} {xs ys : List α} {m n : α}

omit [Scalar α] in
/-- It does not matter in which order the scalars stand, nor how often each does. -/
theorem of_mem_iff (h : IsFirst before xs m) (hmem : ∀ x, x ∈ xs ↔ x ∈ ys) :
    IsFirst before ys m :=
  ⟨(hmem m).1 h.mem, fun x hx => h.not_before x ((hmem x).2 hx)⟩

/-- The first of a list are all equal. -/
theorem beq (hline : AlongLine before) (hnum : ∀ x ∈ xs, isNaN x = false)
    (h : IsFirst before xs m) (h' : IsFirst before xs n) : (m == n) = true :=
  (hline.beq_iff (hnum m h.mem) (hnum n h'.mem)).2
    ⟨h'.not_before m h.mem, h.not_before n h'.mem⟩

/-- What is first among the first of several parts is first among all. -/
theorem of_parts (hline : AlongLine before) {κ : Type} {keys : List κ} {part : κ → List α}
    {first : κ → α} (hfirst : ∀ k ∈ keys, IsFirst before (part k) (first k))
    (hnum : ∀ x ∈ keys.flatMap part, isNaN x = false) (h : IsFirst before (keys.map first) m) :
    IsFirst before (keys.flatMap part) m := by
  have hpart {k : κ} (hk : k ∈ keys) : first k ∈ keys.flatMap part :=
    List.mem_flatMap.2 ⟨k, hk, (hfirst k hk).mem⟩
  constructor
  · obtain ⟨k, hk, rfl⟩ := List.mem_map.1 h.mem
    exact hpart hk
  · intro x hx hbefore
    obtain ⟨k, hk, hxk⟩ := List.mem_flatMap.1 hx
    -- The first of the part of `x` would lie behind `x` or before `m`.
    rcases hline.cotrans (hnum _ (hpart hk)) hbefore with hlt | hlt
    · exact (hfirst k hk).not_before x hxk hlt
    · exact h.not_before _ (List.mem_map_of_mem hk) hlt

end IsFirst

/-! ### Going through a list -/

section Pick

variable (before : α → α → Prop) [DecidableRel before]

/-- Takes the latter of two scalars if it lies before the former, or if that is no number. -/
def pick (x y : α) : α := if isNaN x || decide (before y x) then y else x

variable {before}

theorem pick_cases {x y : α} (hx : isNaN x = false) :
    pick before x y = y ∧ before y x ∨ pick before x y = x ∧ ¬before y x := by
  rw [pick, hx, Bool.false_or]
  by_cases h : before y x
  · exact .inl ⟨if_pos (decide_eq_true h), h⟩
  · exact .inr ⟨if_neg (by simpa using h), h⟩

/-- Taking the better one each time ends at the first of all. -/
theorem isFirst_foldl_pick (hline : AlongLine before) {x : α} {xs : List α}
    (hnum : ∀ y ∈ x :: xs, isNaN y = false) :
    IsFirst before (x :: xs) (xs.foldl (pick before) x) := by
  induction xs generalizing x with
  | nil =>
    refine ⟨List.mem_cons_self, fun y hy h => ?_⟩
    rw [List.foldl_nil, List.mem_singleton.1 hy] at h
    exact hline.asymm h h
  | cons y ys ih =>
    rw [List.foldl_cons]
    have hcases : pick before x y = y ∧ before y x ∨ pick before x y = x ∧ ¬before y x :=
      pick_cases (hnum x List.mem_cons_self)
    rcases hcases with ⟨hpick, hyx⟩ | ⟨hpick, hyx⟩
    · have hys : ∀ z ∈ y :: ys, isNaN z = false := fun z hz => hnum z (List.mem_cons_of_mem _ hz)
      obtain ⟨hmem, hfirst⟩ := ih hys
      rw [hpick]
      refine ⟨List.mem_cons_of_mem _ hmem, List.forall_mem_cons.2 ⟨fun h => ?_, hfirst⟩⟩
      -- Then `y`, which lies before `x`, would lie before the result too.
      rcases hline.cotrans (hys _ hmem) hyx with hlt | hlt
      · exact hfirst y List.mem_cons_self hlt
      · exact hline.asymm h hlt
    · have hsub : ∀ z ∈ x :: ys, z ∈ x :: y :: ys := by grind
      obtain ⟨hmem, hfirst⟩ := ih fun z hz => hnum z (hsub z hz)
      rw [hpick]
      refine ⟨hsub _ hmem, fun z hz h => ?_⟩
      rcases List.mem_cons.1 hz with rfl | hz
      · exact hfirst z List.mem_cons_self h
      rcases List.mem_cons.1 hz with rfl | hz
      · -- Then `x` would lie before the result too, for `y` does not lie before `x`.
        rcases hline.cotrans (hnum x List.mem_cons_self) h with hlt | hlt
        · exact hyx hlt
        · exact hfirst x List.mem_cons_self hlt
      · exact hfirst z (List.mem_cons_of_mem _ hz) h

end Pick

/-! ### The least and the greatest -/

section Extremes

variable [LinearScalar α] {xs : List α}

/-- No number of a list is less than the least. -/
theorem isFirst_least (hne : xs ≠ []) (hnum : ∀ x ∈ xs, isNaN x = false) :
    IsFirst (fun x y => x < y) xs (least xs) := by
  cases xs with
  | nil => exact absurd rfl hne
  | cons x xs =>
    have h := isFirst_foldl_pick LinearScalar.alongLine hnum
    have hleast : least (x :: xs) = xs.foldl (pick fun x y => x < y) x :=
      if_neg (Bool.eq_false_iff.1 (hnum _ h.mem))
    exact hleast ▸ h

/-- No number of a list is greater than the greatest. -/
theorem isFirst_greatest (hne : xs ≠ []) (hnum : ∀ x ∈ xs, isNaN x = false) :
    IsFirst (fun x y => y < x) xs (greatest xs) := by
  cases xs with
  | nil => exact absurd rfl hne
  | cons x xs =>
    have h := isFirst_foldl_pick LinearScalar.alongLine.flip hnum
    have hgreatest : greatest (x :: xs) = xs.foldl (pick fun x y => y < x) x :=
      if_neg (Bool.eq_false_iff.1 (hnum _ h.mem))
    exact hgreatest ▸ h

end Extremes

/-! ### Floating point numbers -/

namespace Decimal

open Float.Model Float.Model.UnpackedFloat

/-- Where a number lies among the others: by its sign and size, and a finite one by its
    exponent and then its significand. -/
def place : UnpackedFloat → ℤ ×ₗ ℤ ×ₗ ℤ
  | .infinity .negative => toLex (-2, toLex (0, 0))
  | .finite .negative m e _ => toLex (-1, toLex (-e, -m))
  | .zero _ | .notANumber => toLex (0, toLex (0, 0))
  | .finite .positive m e _ => toLex (1, toLex (e, m))
  | .infinity .positive => toLex (2, toLex (0, 0))

section Compare

variable {u v : UnpackedFloat} (hu : u.isNaN = false) (hv : v.isNaN = false)

include hu hv

theorem compare_eq_lt_iff : UnpackedFloat.compare u v = some .lt ↔ place u < place v := by
  rcases u with (_ | _) | _ | _ | ⟨_ | _, m, e, hm⟩ <;>
    rcases v with (_ | _) | _ | _ | ⟨_ | _, n, f, hn⟩ <;>
      simp_all [UnpackedFloat.isNaN, UnpackedFloat.compare, place, Prod.Lex.lt_iff,
        Ordering.then_eq_lt, Ordering.then_eq_gt, Int.compare_eq_lt, Int.compare_eq_gt,
        Nat.compare_eq_lt, Nat.compare_eq_gt]
  -- The infinite numbers compare by their signs.
  rfl

theorem compare_eq_eq_iff : UnpackedFloat.compare u v = some .eq ↔ place u = place v := by
  rcases u with (_ | _) | _ | _ | ⟨_ | _, m, e, hm⟩ <;>
    rcases v with (_ | _) | _ | _ | ⟨_ | _, n, f, hn⟩ <;>
      simp_all [UnpackedFloat.isNaN, UnpackedFloat.compare, place, Ordering.then_eq_eq]
  all_goals rfl

end Compare

variable {x y : Float}

theorem lt_iff_place_lt (hx : x.isNaN = false) (hy : y.isNaN = false) :
    x < y ↔ place x.toModel.unpack < place y.toModel.unpack :=
  lt_iff_lt_unpack.trans (compare_eq_lt_iff hx hy)

theorem beq_iff_place_eq (hx : x.isNaN = false) (hy : y.isNaN = false) :
    (x == y) = true ↔ place x.toModel.unpack = place y.toModel.unpack := by
  rw [← compare_eq_eq_iff hx hy]
  exact beq_iff_eq (α := Option Ordering)

end Decimal

open Decimal in
instance : LinearScalar Float where
  alongLine :=
    { asymm := fun hxy hyx => by
        obtain ⟨hx, hy⟩ := isNaN_of_lt hxy
        exact lt_asymm ((lt_iff_place_lt hx hy).1 hxy) ((lt_iff_place_lt hy hx).1 hyx)
      cotrans := fun hy hxz => by
        obtain ⟨hx, hz⟩ := isNaN_of_lt hxz
        rw [lt_iff_place_lt hx hz] at hxz
        rw [lt_iff_place_lt hx hy, lt_iff_place_lt hy hz]
        exact (lt_or_ge _ _).imp_right fun hle => hle.trans_lt hxz
      beq_iff := fun hx hy => by
        rw [beq_iff_place_eq hx hy, lt_iff_place_lt hx hy, lt_iff_place_lt hy hx, not_lt, not_lt,
          and_comm]
        exact le_antisymm_iff }

end WorkPriority
