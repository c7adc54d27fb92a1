import WorkPriority.Proofs.ScalarOrder

/-!
# Aggregations and statistics

What the aggregations and the statistics of some measurements are, without the case that there
are none. A sum or a count needs no such case; a mean is defined, and a greatest and a least
measurement exist, where there are measurements at all (`Aggregation.isFirst_apply_max`,
`Aggregation.isFirst_apply_min`).

Statistics are taken of the valid ones among some records, if there are any
(`Statistics.ofRecords?_eq_none_iff`, `Statistics.areOf_of_ofRecords?`).
-/

namespace WorkPriority

variable {α : Type} [Scalar α]

/-! ### Aggregations -/

namespace Aggregation

variable {xs : List α}

theorem apply_sum (xs : List α) : sum.apply xs = Scalar.sum xs := by
  cases xs with
  | nil => rfl
  | cons x xs => rfl

theorem apply_average (hne : xs ≠ []) :
    average.apply xs = Scalar.sum xs / Scalar.ofNat xs.length := by
  cases xs with
  | nil => exact absurd rfl hne
  | cons x xs => rfl

theorem apply_count (xs : List α) : count.apply xs = Scalar.ofNat xs.length := by
  cases xs with
  | nil => rfl
  | cons x xs => rfl

variable [LinearScalar α] (hne : xs ≠ []) (hnum : ∀ x ∈ xs, Scalar.isNaN x = false)

include hne hnum

theorem isFirst_apply_max : IsFirst (fun x y => y < x) xs (max.apply xs) := by
  cases xs with
  | nil => exact absurd rfl hne
  | cons x xs => exact isFirst_greatest hne hnum

theorem isFirst_apply_min : IsFirst (fun x y => x < y) xs (min.apply xs) := by
  cases xs with
  | nil => exact absurd rfl hne
  | cons x xs => exact isFirst_least hne hnum

end Aggregation

/-! ### Statistics -/

namespace Statistics

/-- The statistics are those of some measurements. -/
structure AreOf (st : Statistics α) (xs : List α) : Prop where
  ne_nil : xs ≠ []
  mean : st.mean = Scalar.sum xs / Scalar.ofNat xs.length
  min : st.min = Scalar.least xs
  max : st.max = Scalar.greatest xs
  count : st.count = xs.length

namespace AreOf

variable [LinearScalar α] {st : Statistics α} {xs : List α} (h : st.AreOf xs)
  (hnum : ∀ x ∈ xs, Scalar.isNaN x = false)

include h hnum

theorem isFirst_min : IsFirst (fun x y => x < y) xs st.min :=
  h.min ▸ isFirst_least h.ne_nil hnum

theorem isFirst_max : IsFirst (fun x y => y < x) xs st.max :=
  h.max ▸ isFirst_greatest h.ne_nil hnum

end AreOf

variable {records : List α}

theorem ofRecords?_eq_none_iff : ofRecords? records = none ↔ records.filter isMeasured = [] := by
  rw [ofRecords?]
  cases records.filter isMeasured with
  | nil => exact iff_of_true rfl rfl
  | cons x xs => exact iff_of_false (Option.some_ne_none _) (List.cons_ne_nil x xs)

/-- The statistics of records are those of the valid ones. -/
theorem areOf_of_ofRecords? {st : Statistics α} (h : ofRecords? records = some st) :
    st.AreOf (records.filter isMeasured) := by
  rw [ofRecords?] at h
  cases hvalid : records.filter isMeasured with
  | nil =>
    rw [hvalid] at h
    exact absurd h.symm (Option.some_ne_none st)
  | cons x xs =>
    rw [hvalid] at h
    obtain rfl := Option.some.inj h
    exact ⟨List.cons_ne_nil x xs, rfl, rfl, rfl, rfl⟩

end Statistics
end WorkPriority
