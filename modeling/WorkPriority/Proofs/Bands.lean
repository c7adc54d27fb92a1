import WorkPriority.Proofs.RankOrder
import Mathlib

/-!
# Ranks and bands

How many totals have a level, and what becomes of the levels if one total is raised.

The levels of some totals are those of the ranks (`Level.assign_perm`), and a band of
ranks ends at a cut (`Level.cut`): above the `k`-th of five cuts there are as many ranks
as a `k`-th part of five, rounded up. So the bands of one mode are known exactly, and so
is how they lie to those of the other (`Level.bands_of_assign`).

The rank of a place is how many places are ranked before it (`Level.idxOf_order_eq_countP`).
A greater total at a place can only take places away from those before it, and add itself
to those before another. So raising a total helps its own place and no other
(`Level.raise_total`).
-/

namespace WorkPriority.Level

variable {totals : List Int} {rank i : Nat}

/-! ### Levels of ranks -/

theorem length_assign (mode : LevelMode) : (assign mode totals).length = totals.length := by
  rw [assign, List.length_map, List.length_range]

theorem getElem?_assign_of_lt (mode : LevelMode) (h : i < totals.length) :
    (assign mode totals)[i]? = some (atRank mode ((order totals).idxOf i) totals.length) := by
  rw [assign, List.getElem?_map, List.getElem?_range h]
  rfl

/-- The levels of totals are those of the ranks, each once. -/
theorem assign_perm (mode : LevelMode) (totals : List Int) : (assign mode totals).Perm
    ((List.range totals.length).map fun rank => atRank mode rank totals.length) := by
  have hranks : (order totals).map (fun i => (order totals).idxOf i) =
      List.range totals.length := by
    refine List.ext_getElem (by simp [(order_perm totals).length_eq]) fun rank _ _ => ?_
    rw [List.getElem_map, List.getElem_range, (nodup_order totals).idxOf_getElem]
  rw [← hranks, List.map_map]
  exact ((order_perm totals).map _).symm

/-! ### Bands of ranks -/

section Bands

variable {n k : Nat} (hn : 0 < n)

include hn

theorem atRank_five_eq_degree_iff :
    atRank .five rank n = degree k ↔ rank * 5 / n + 1 = k ∧ k ≤ 4 := by
  rw [atRank, if_neg hn.ne']
  dsimp only
  split
  · rw [degree.injEq]
    omega
  · refine iff_of_false (by simp) ?_
    omega

theorem atRank_five_eq_disabled_iff :
    atRank .five rank n = disabled ↔ ¬rank * 5 / n < 4 := by
  rw [atRank, if_neg hn.ne']
  dsimp only
  split
  · rename_i hband
    exact iff_of_false (by simp) (not_not.2 hband)
  · rename_i hband
    exact iff_of_true rfl hband

theorem atRank_two_eq_enabled_iff : atRank .two rank n = enabled ↔ rank * 5 / n < 3 := by
  rw [Nat.div_lt_iff_lt_mul hn, Nat.mul_comm 3, atRank, if_neg hn.ne']
  split
  · rename_i hband
    exact iff_of_true rfl hband
  · rename_i hband
    exact iff_of_false (by simp) hband

/-- What is enabled are the first three of the five bands. -/
theorem atRank_two_eq_enabled_iff_five : atRank .two rank n = enabled ↔
    ∃ k, 1 ≤ k ∧ k ≤ 3 ∧ atRank .five rank n = degree k := by
  simp only [atRank_two_eq_enabled_iff hn, atRank_five_eq_degree_iff hn]
  generalize rank * 5 / n = band
  constructor
  · intro h
    exact ⟨band + 1, by omega, by omega, rfl, by omega⟩
  · rintro ⟨k, -, hk, rfl, -⟩
    omega

/-- The ranks of the bands before the `k`-th of five are as many as its cut says. -/
theorem band_lt_iff : rank * 5 / n < k ↔ rank < k * n ⌈/⌉ 5 := by
  rw [Nat.div_lt_iff_lt_mul hn, ← not_le, ← not_le, ceilDiv_le_iff_le_mul (by decide),
    Nat.mul_comm rank]

end Bands

/-! ### The sizes of the bands -/

theorem countP_range_between (lo hi n : Nat) :
    (List.range n).countP (fun rank => decide (lo ≤ rank ∧ rank < hi)) + min n lo =
      min n (max lo hi) := by
  induction n with
  | zero => simp
  | succ n ih =>
    rw [List.range_succ, List.countP_append, List.countP_singleton]
    split
    · rename_i h
      have h := of_decide_eq_true h
      omega
    · rename_i h
      have h := mt decide_eq_true h
      omega

/-- If the ranks of a level lie between two bounds, so many totals have it. -/
theorem count_assign {mode : LevelMode} {l : Level} {lo hi : Nat} (hle : lo ≤ hi)
    (hhi : hi ≤ totals.length)
    (h : ∀ rank < totals.length, atRank mode rank totals.length = l ↔ lo ≤ rank ∧ rank < hi) :
    (assign mode totals).count l + lo = hi := by
  have hcount : (assign mode totals).count l =
      (List.range totals.length).countP fun rank => decide (lo ≤ rank ∧ rank < hi) := by
    rw [(assign_perm mode totals).count_eq, List.count, List.countP_map]
    refine List.countP_congr fun rank hrank => ?_
    rw [Function.comp_apply, beq_iff_eq, h rank (List.mem_range.1 hrank), decide_eq_true_iff]
  have hbetween := countP_range_between lo hi totals.length
  omega

/-- In an order of `n` totals, as many have a degree as there are ranks between its two
    cuts: so many fifths of `n`, rounded up, lie before each. The last fifth, rounded down,
    is disabled. Where there are no degrees, three fifths are enabled, rounded up, and these
    are just the totals that would have one of the first three degrees. -/
theorem bands_of_assign (totals : List Int) :
    (∀ k : Fin 4, (assign .five totals).count (degree (k + 1)) + k * totals.length ⌈/⌉ 5 =
      (k + 1) * totals.length ⌈/⌉ 5) ∧
    (assign .five totals).count disabled = totals.length / 5 ∧
    (assign .two totals).count enabled = 3 * totals.length ⌈/⌉ 5 ∧
    ∀ i : Nat, (assign .two totals)[i]? = some enabled ↔
      ∃ k, 1 ≤ k ∧ k ≤ 3 ∧ (assign .five totals)[i]? = some (degree k) := by
  have hcut {k : Nat} (hk : k ≤ 5) : k * totals.length ⌈/⌉ 5 ≤ totals.length := by
    rw [ceilDiv_le_iff_le_mul (by decide)]
    exact Nat.mul_le_mul_right _ hk
  refine ⟨fun k => ?_, ?_, ?_, fun i => ?_⟩
  · have hk := k.isLt
    have hle : k * totals.length ⌈/⌉ 5 ≤ (k + 1) * totals.length ⌈/⌉ 5 :=
      (gc_mul_ceilDiv (by decide)).monotone_l (Nat.mul_le_mul_right _ (Nat.le_succ k))
    refine count_assign hle (hcut (by omega)) fun rank hrank => ?_
    have hn := Nat.zero_lt_of_lt hrank
    rw [atRank_five_eq_degree_iff hn, ← not_lt (a := rank), ← band_lt_iff hn, ← band_lt_iff hn]
    generalize rank * 5 / totals.length = band
    omega
  · have hcount : (assign .five totals).count disabled + 4 * totals.length ⌈/⌉ 5 =
        totals.length := by
      refine count_assign (hcut (by omega)) le_rfl fun rank hrank => ?_
      have hn := Nat.zero_lt_of_lt hrank
      rw [atRank_five_eq_disabled_iff hn, band_lt_iff hn, not_lt]
      exact (and_iff_left hrank).symm
    rw [Nat.ceilDiv_eq_add_pred_div] at hcount
    omega
  · have hcount : (assign .two totals).count enabled + 0 = 3 * totals.length ⌈/⌉ 5 := by
      refine count_assign (Nat.zero_le _) (hcut (by omega)) fun rank hrank => ?_
      have hn := Nat.zero_lt_of_lt hrank
      rw [atRank_two_eq_enabled_iff hn, band_lt_iff hn]
      exact (and_iff_right (Nat.zero_le _)).symm
    exact hcount
  · by_cases hi : i < totals.length
    · have hn := Nat.zero_lt_of_lt hi
      simp only [getElem?_assign_of_lt _ hi, Option.some.injEq]
      exact atRank_two_eq_enabled_iff_five hn
    · have hnone (mode : LevelMode) : (assign mode totals)[i]? = none :=
        List.getElem?_eq_none (by rw [length_assign]; exact not_lt.1 hi)
      simp only [hnone, reduceCtorEq, and_false, exists_false]

/-- Seven totals do not make five equal bands. -/
example : (List.range 7).map (fun rank => atRank .five rank 7) =
    [degree 1, degree 1, degree 2, degree 3, degree 3, degree 4, disabled] := by
  decide

/-! ### Raising a total -/

/-- The place of an element in a list in order is how many elements come before it. -/
theorem idxOf_eq_countP {l : List Nat} {before : Nat → Nat → Prop} [DecidableRel before]
    (hl : l.Pairwise before) (hasymm : ∀ i j, before i j → ¬before j i) (h : i ∈ l) :
    l.idxOf i = l.countP fun j => decide (before j i) := by
  induction l with
  | nil => exact absurd h List.not_mem_nil
  | cons j l ih =>
    obtain ⟨hj, hl⟩ := List.pairwise_cons.1 hl
    by_cases hij : j = i
    · subst hij
      have hnone : (j :: l).countP (fun k => decide (before k j)) = 0 := by
        rw [List.countP_eq_zero]
        intro k hk hbefore
        have hbefore := of_decide_eq_true hbefore
        rcases List.mem_cons.1 hk with rfl | hk
        · exact hasymm k k hbefore hbefore
        · exact hasymm j k (hj k hk) hbefore
      rw [hnone, List.idxOf_cons_self]
    · have h := (List.mem_cons.1 h).resolve_left (Ne.symm hij)
      have hbefore : decide (before j i) = true := decide_eq_true (hj i h)
      rw [List.idxOf_cons_ne l hij, ih hl h, List.countP_cons, if_pos hbefore]

instance : DecidableRel (Before totals) := fun i j =>
  decidable_of_iff (∃ s ∈ totals[i]?, ∃ t ∈ totals[j]?, t < s ∨ s = t ∧ i < j)
    (by simp [Before])

theorem Before.asymm {j : Nat} (h : Before totals i j) : ¬Before totals j i := by
  rintro ⟨t, s, ht, hs, hji⟩
  obtain ⟨s', t', hs', ht', hij⟩ := h
  rw [hs, Option.some.injEq] at hs'
  rw [ht, Option.some.injEq] at ht'
  omega

/-- The rank of a place is how many places are ranked before it. -/
theorem idxOf_order_eq_countP (h : i < totals.length) : (order totals).idxOf i =
    (List.range totals.length).countP fun j => decide (Before totals j i) := by
  have hmem : i ∈ order totals := (order_perm totals).mem_iff.2 (List.mem_range.2 h)
  rw [idxOf_eq_countP (pairwise_order totals) (fun _ _ => Before.asymm) hmem,
    (order_perm totals).countP_eq]

section Raise

variable {old new : Int} (hold : totals[i]? = some old) (hnew : old < new)

include hold hnew

/-- A place whose total is raised gets no places before it. -/
theorem before_of_before_set_self {j : Nat} (h : Before (totals.set i new) j i) :
    Before totals j i := by
  obtain ⟨s, t, hs, ht, hji⟩ := h
  obtain ⟨hi, -⟩ := List.getElem?_eq_some_iff.1 hold
  rw [List.getElem?_set_self hi, Option.some.injEq] at ht
  by_cases hj : j = i
  · subst hj
    rw [List.getElem?_set_self hi, Option.some.injEq] at hs
    omega
  · rw [List.getElem?_set_ne (Ne.symm hj)] at hs
    exact ⟨s, old, hs, hold, by omega⟩

/-- Any other place keeps the places before it. -/
theorem before_set_of_before {j k : Nat} (hj : j ≠ i) (h : Before totals k j) :
    Before (totals.set i new) k j := by
  obtain ⟨s, t, hs, ht, hkj⟩ := h
  have ht' : (totals.set i new)[j]? = some t := by rwa [List.getElem?_set_ne (Ne.symm hj)]
  by_cases hk : k = i
  · subst hk
    obtain ⟨hi, -⟩ := List.getElem?_eq_some_iff.1 hold
    rw [hold, Option.some.injEq] at hs
    exact ⟨new, t, List.getElem?_set_self hi, ht', by omega⟩
  · exact ⟨s, t, by rwa [List.getElem?_set_ne (Ne.symm hk)], ht', hkj⟩

theorem idxOf_order_set_self_le : (order (totals.set i new)).idxOf i ≤ (order totals).idxOf i := by
  obtain ⟨hi, -⟩ := List.getElem?_eq_some_iff.1 hold
  have hlength : (totals.set i new).length = totals.length := List.length_set
  rw [idxOf_order_eq_countP hi, idxOf_order_eq_countP (hlength ▸ hi), hlength]
  refine List.countP_mono_left fun j _ h => ?_
  exact decide_eq_true (before_of_before_set_self hold hnew (of_decide_eq_true h))

theorem idxOf_order_le_set {j : Nat} (hj : j < totals.length) (hne : j ≠ i) :
    (order totals).idxOf j ≤ (order (totals.set i new)).idxOf j := by
  have hlength : (totals.set i new).length = totals.length := List.length_set
  rw [idxOf_order_eq_countP hj, idxOf_order_eq_countP (hlength ▸ hj), hlength]
  refine List.countP_mono_left fun k _ h => ?_
  exact decide_eq_true (before_set_of_before hold hnew hne (of_decide_eq_true h))

end Raise

/-- Of two lists of as many totals, what is not ranked later has no less urgent a level. -/
theorem exists_atLeast (mode : LevelMode) {s t : List Int} (hlength : s.length = t.length)
    {j : Nat} (hi : i < s.length) (hj : j < t.length)
    (hrank : (order s).idxOf i ≤ (order t).idxOf j) :
    ∃ l m, (assign mode s)[i]? = some l ∧ (assign mode t)[j]? = some m ∧ l.AtLeast m := by
  refine ⟨_, _, getElem?_assign_of_lt mode hi, getElem?_assign_of_lt mode hj, ?_⟩
  rw [hlength]
  exact atLeast_atRank mode hrank _

/-- Raising a total is no harm to its own place and no help to any other. The rank of the
    place does not grow, and its level does not become less urgent; the rank of another
    place does not shrink, and its level does not become more urgent. -/
theorem raise_total {totals : List Int} {i : Nat} {old new : Int}
    (hold : totals[i]? = some old) (hnew : old < new) :
    ((order (totals.set i new)).idxOf i ≤ (order totals).idxOf i ∧
      ∀ mode, ∃ l m, (assign mode totals)[i]? = some l ∧
        (assign mode (totals.set i new))[i]? = some m ∧ m.AtLeast l) ∧
    ∀ j < totals.length, j ≠ i →
      (order totals).idxOf j ≤ (order (totals.set i new)).idxOf j ∧
        ∀ mode, ∃ l m, (assign mode totals)[j]? = some l ∧
          (assign mode (totals.set i new))[j]? = some m ∧ l.AtLeast m := by
  have hlength : (totals.set i new).length = totals.length := List.length_set
  obtain ⟨hi, -⟩ := List.getElem?_eq_some_iff.1 hold
  refine ⟨⟨idxOf_order_set_self_le hold hnew, fun mode => ?_⟩, fun j hj hne =>
    ⟨idxOf_order_le_set hold hnew hj hne, fun mode => ?_⟩⟩
  · have hrank := idxOf_order_set_self_le hold hnew
    obtain ⟨m, l, hm, hl, hle⟩ := exists_atLeast mode hlength (hlength ▸ hi) hi hrank
    exact ⟨l, m, hl, hm, hle⟩
  · have hrank := idxOf_order_le_set hold hnew hj hne
    exact exists_atLeast mode hlength.symm hj (hlength ▸ hj) hrank

/-- The last of three totals passes the first, that it was equal to. -/
theorem raise_total_three :
    order [3, 7, 3] = [1, 0, 2] ∧ order ([3, 7, 3].set 2 5) = [1, 2, 0] ∧
      (order ([3, 7, 3].set 2 5)).idxOf 2 ≤ (order [3, 7, 3]).idxOf 2 ∧
      (order [3, 7, 3]).idxOf 0 ≤ (order ([3, 7, 3].set 2 5)).idxOf 0 ∧
      ∃ l m, (assign .five [3, 7, 3])[0]? = some l ∧
        (assign .five ([3, 7, 3].set 2 5))[0]? = some m ∧ l.AtLeast m := by
  have hold : ([3, 7, 3] : List Int)[2]? = some 3 := rfl
  obtain ⟨⟨hself, -⟩, hothers⟩ := raise_total hold (by decide : (3 : Int) < 5)
  obtain ⟨hother, hlevels⟩ := hothers 0 (by decide) (by decide)
  exact ⟨by cbv, by cbv, hself, hother, hlevels .five⟩

end WorkPriority.Level
