import WorkPriority.Ranking.Breakdown
import Mathlib.Data.List.Nodup

/-!
# The order of the ranks

An agent's categories are sorted by their totals, and where a category comes to stand
settles its level. `Level.assign` says the same of totals alone: it sorts positions, and
looks each of them up. That the two agree is a matter of sorting once and reading the
result twice (`placed`): sorted are items with their places, of which the items are the
sorted items, and the places the order.

The order takes every place once, greater totals first, and equal totals in the order of
their places (`Level.order_perm`, `Level.pairwise_order`). So no category is lost or
doubled, and each has the level that its total is assigned
(`AgentBreakdown.ofPlans_ranked`).
-/

namespace WorkPriority

/-! ### Sorting items with their places -/

section Placed

variable {α : Type} (total : α → Int) (xs : List α)

/-- Items with their places, from the greatest total to the least. -/
def placed : List (α × Nat) := xs.zipIdx.mergeSort fun x y => total y.1 ≤ total x.1

theorem placed_perm : (placed total xs).Perm xs.zipIdx := List.mergeSort_perm ..

theorem getElem?_of_mem_placed {x : α × Nat} (h : x ∈ placed total xs) : xs[x.2]? = some x.1 :=
  List.mem_zipIdx_iff_getElem?.1 ((placed_perm total xs).mem_iff.1 h)

theorem map_fst_placed :
    (placed total xs).map Prod.fst = xs.mergeSort fun a b => total b ≤ total a := by
  rw [placed, List.map_mergeSort (s := fun a b => decide (total b ≤ total a)) fun _ _ _ _ => rfl,
    List.zipIdx_map_fst]

theorem map_snd_placed : (placed total xs).map Prod.snd = Level.order (xs.map total) := by
  rw [Level.order, List.zipIdx_map, ← List.map_mergeSort
    (r := fun x y => decide (total y.1 ≤ total x.1)) fun _ _ _ _ => rfl, List.map_map]
  rfl

theorem nodup_map_snd_placed : ((placed total xs).map Prod.snd).Nodup := by
  have hperm := (placed_perm total xs).map Prod.snd
  rw [List.zipIdx_map_snd] at hperm
  exact hperm.nodup_iff.2 (List.nodup_range' _)

/-- Of equal totals, the one whose place is first stays first. -/
theorem pairwise_placed : (placed total xs).Pairwise fun x y =>
    total y.1 < total x.1 ∨ total x.1 = total y.1 ∧ x.2 < y.2 := by
  let le (x y : α × Nat) : Bool := total y.1 ≤ total x.1
  -- A stable sort is one that compares places as well: here, each place once more.
  have hsorted : (xs.zipIdx.zipIdx.mergeSort (List.zipIdxLE le)).Pairwise
      (fun x y => List.zipIdxLE le x y = true) :=
    List.pairwise_mergeSort (List.zipIdxLE_trans fun x y z hxy hyz => by grind)
      (List.zipIdxLE_total fun x y => by grind) _
  have hplace {x : (α × Nat) × Nat} (hx : x ∈ xs.zipIdx.zipIdx.mergeSort (List.zipIdxLE le)) :
      x.1.2 = x.2 := by
    have hget := List.mem_zipIdx_iff_getElem?.1 (List.mem_mergeSort.1 hx)
    rw [List.getElem?_zipIdx, Option.map_eq_some_iff] at hget
    obtain ⟨_, -, hx⟩ := hget
    rw [← hx, Nat.zero_add]
  have hweak : (placed total xs).Pairwise fun x y =>
      total y.1 < total x.1 ∨ total x.1 = total y.1 ∧ x.2 ≤ y.2 := by
    rw [placed, ← List.mergeSort_zipIdx, List.pairwise_map]
    refine hsorted.imp_of_mem fun {x y} hx hy hle => ?_
    rw [hplace hx, hplace hy]
    simp only [List.zipIdxLE, le] at hle
    grind
  refine (hweak.and (List.pairwise_map.1 (nodup_map_snd_placed total xs))).imp fun {x y} h => ?_
  obtain ⟨hlt | ⟨heq, hle⟩, hne⟩ := h
  · exact .inl hlt
  · exact .inr ⟨heq, Nat.lt_of_le_of_ne hle hne⟩

end Placed

/-! ### Orders of totals -/

namespace Level

/-- One place of some totals is ranked before another: its total is greater, or as great
    and it comes first. -/
def Before (totals : List Int) (i j : Nat) : Prop :=
  ∃ s t, totals[i]? = some s ∧ totals[j]? = some t ∧ (t < s ∨ s = t ∧ i < j)

variable (totals : List Int)

theorem order_eq_map_snd_placed : order totals = (placed id totals).map Prod.snd := by
  rw [map_snd_placed, List.map_id]

/-- The order takes every place once. -/
theorem order_perm : (order totals).Perm (List.range totals.length) := by
  rw [order_eq_map_snd_placed, List.range_eq_range', ← List.zipIdx_map_snd 0 totals]
  exact (placed_perm id totals).map Prod.snd

theorem nodup_order : (order totals).Nodup :=
  (order_perm totals).nodup_iff.2 List.nodup_range

theorem pairwise_order : (order totals).Pairwise (Before totals) := by
  rw [order_eq_map_snd_placed, List.pairwise_map]
  refine (pairwise_placed id totals).imp_of_mem fun {x y} hx hy h => ?_
  exact ⟨x.1, y.1, getElem?_of_mem_placed id totals hx, getElem?_of_mem_placed id totals hy, h⟩

example : order [3, 7, 3] = [1, 0, 2] := by cbv

variable {totals} {i rank : Nat}

theorem lt_length_of_order (h : (order totals)[rank]? = some i) : i < totals.length :=
  List.mem_range.1 ((order_perm totals).mem_iff.1 (List.mem_of_getElem? h))

theorem idxOf_order (h : (order totals)[rank]? = some i) : (order totals).idxOf i = rank := by
  obtain ⟨hlt, rfl⟩ := List.getElem?_eq_some_iff.1 h
  exact (nodup_order totals).idxOf_getElem rank hlt

/-- The total at a place is assigned the level of its rank. -/
theorem getElem?_assign (mode : LevelMode) (h : (order totals)[rank]? = some i) :
    (assign mode totals)[i]? = some (atRank mode rank totals.length) := by
  rw [assign, List.getElem?_map, List.getElem?_range (lt_length_of_order h), Option.map_some,
    idxOf_order h]

/-! ### Levels along an order -/

/-- A level is at least as urgent as another one of its mode. -/
def AtLeast : Level → Level → Prop
  | _, disabled => True
  | enabled, enabled => True
  | degree m, degree n => m ≤ n
  | _, _ => False

theorem atLeast_disabled (l : Level) : l.AtLeast disabled := by
  cases l with
  | disabled => trivial
  | enabled => trivial
  | degree n => trivial

/-- What is ranked first is not less urgent. -/
theorem atLeast_atRank (mode : LevelMode) {rank later : Nat} (h : rank ≤ later) (count : Nat) :
    (atRank mode rank count).AtLeast (atRank mode later count) := by
  unfold atRank
  by_cases hcount : count = 0
  · rw [if_pos hcount, if_pos hcount]
    exact atLeast_disabled _
  rw [if_neg hcount, if_neg hcount]
  cases mode with
  | five =>
    have hband : rank * 5 / count ≤ later * 5 / count :=
      Nat.div_le_div_right (Nat.mul_le_mul_right 5 h)
    by_cases hlater : later * 5 / count < 4
    · simp only [if_pos (Nat.lt_of_le_of_lt hband hlater), if_pos hlater]
      exact Nat.succ_le_succ hband
    · simp only [if_neg hlater]
      exact atLeast_disabled _
  | two =>
    by_cases hlater : later * 5 < count * 3
    · simp only [if_pos (Nat.lt_of_le_of_lt (Nat.mul_le_mul_right 5 h) hlater), if_pos hlater]
      trivial
    · simp only [if_neg hlater]
      exact atLeast_disabled _

end Level

/-! ### Breakdowns in the order of the ranks -/

theorem getElem?_withRanks (mode : LevelMode) (bs : List CategoryBreakdown) (rank : Nat) :
    (withRanks mode bs)[rank]? = bs[rank]?.map fun b =>
      { b with rank, level := Level.atRank mode rank bs.length } := by
  rw [withRanks, List.getElem?_map, List.getElem?_zipIdx, Option.map_map, Nat.zero_add]
  rfl

variable (mode : LevelMode) (bs : List CategoryBreakdown)

theorem length_rankBreakdowns : (rankBreakdowns mode bs).length = bs.length := by
  rw [rankBreakdowns, withRanks, List.length_map, List.length_zipIdx, List.length_mergeSort]

/-- At a rank stands the breakdown whose place the order has there, with its level. -/
theorem getElem?_rankBreakdowns {rank i : Nat}
    (h : (Level.order (bs.map (·.total)))[rank]? = some i) :
    ∃ b level, bs[i]? = some b ∧ (Level.assign mode (bs.map (·.total)))[i]? = some level ∧
      (rankBreakdowns mode bs)[rank]? = some { b with rank, level } := by
  have hassign := Level.getElem?_assign mode h
  rw [← map_snd_placed, List.getElem?_map, Option.map_eq_some_iff] at h
  obtain ⟨x, hx, rfl⟩ := h
  have hget := getElem?_of_mem_placed _ bs (List.mem_of_getElem? hx)
  refine ⟨x.1, _, hget, hassign, ?_⟩
  rw [rankBreakdowns, getElem?_withRanks, ← map_fst_placed, List.getElem?_map, hx, List.length_map,
    (placed_perm _ bs).length_eq, List.length_zipIdx, List.length_map]
  rfl

theorem pairwise_withRanks {bs : List CategoryBreakdown}
    (h : bs.Pairwise fun b c => c.total ≤ b.total) :
    (withRanks mode bs).Pairwise fun b c => c.total ≤ b.total ∧ b.level.AtLeast c.level := by
  have hplaces : bs.zipIdx.Pairwise fun x y => x.2 < y.2 := by
    rw [← List.pairwise_map (f := Prod.snd) (R := (· < ·)), List.zipIdx_map_snd]
    exact List.pairwise_lt_range'
  rw [← List.zipIdx_map_fst 0 bs, List.pairwise_map] at h
  rw [withRanks, List.pairwise_map]
  exact (h.and hplaces).imp fun ⟨htotal, hplace⟩ =>
    ⟨htotal, Level.atLeast_atRank mode (Nat.le_of_lt hplace) _⟩

/-- Along the ranks, totals do not grow and levels do not become more urgent. -/
theorem pairwise_rankBreakdowns : (rankBreakdowns mode bs).Pairwise fun b c =>
    c.total ≤ b.total ∧ b.level.AtLeast c.level := by
  refine pairwise_withRanks mode ?_
  rw [← map_fst_placed, List.pairwise_map]
  refine (pairwise_placed _ bs).imp fun {x y} h => ?_
  obtain hlt | ⟨heq, -⟩ := h
  · exact Int.le_of_lt hlt
  · exact Int.le_of_eq heq.symm

/-- A greater total never has a less urgent level. -/
theorem atLeast_of_total_lt {b c : CategoryBreakdown} (hb : b ∈ rankBreakdowns mode bs)
    (hc : c ∈ rankBreakdowns mode bs) (h : c.total < b.total) : b.level.AtLeast c.level := by
  have hpairwise := pairwise_rankBreakdowns mode bs
  obtain ⟨i, hi, rfl⟩ := List.getElem_of_mem hb
  obtain ⟨j, hj, rfl⟩ := List.getElem_of_mem hc
  rw [List.pairwise_iff_getElem] at hpairwise
  rcases Nat.lt_trichotomy i j with hij | rfl | hji
  · exact (hpairwise i j hi hj hij).2
  · exact absurd h (Int.lt_irrefl _)
  · exact absurd h (Int.not_lt.2 (hpairwise j i hj hi hji).1)

/-- The categories of an agent are those that are open to it, each once, in the order of
    their totals: greater totals first, and equal ones in the order of the plans. The
    category at a rank is the one that the order has there, with this rank and with the
    level that its total is assigned among the totals. Along the list, levels do not become
    more urgent, and a greater total never has a less urgent level. -/
theorem AgentBreakdown.ofPlans_ranked (mode : LevelMode) (plans : List Plan)
    (bonuses : List AffinityBonus) (tick : Nat) (a : Agent) (scores : ScoreRow) :
    let scored := (plans.filter fun p => p.isOpenTo a).map fun p => p.breakdown bonuses a scores
    let totals := scored.map (·.total)
    let categories := (ofPlans mode plans bonuses tick a scores).categories
    (Level.order totals).Perm (List.range scored.length) ∧
    (Level.order totals).Pairwise (Level.Before totals) ∧
    categories.length = scored.length ∧
    (∀ rank i, (Level.order totals)[rank]? = some i →
      ∃ (b : CategoryBreakdown) (level : Level), scored[i]? = some b ∧
        (Level.assign mode totals)[i]? = some level ∧
        categories[rank]? = some { b with rank, level }) ∧
    categories.Pairwise (fun b c => c.total ≤ b.total ∧ b.level.AtLeast c.level) ∧
    ∀ b ∈ categories, ∀ c ∈ categories, c.total < b.total → b.level.AtLeast c.level := by
  intro scored totals categories
  have hperm : (Level.order totals).Perm (List.range scored.length) := by
    have h := Level.order_perm totals
    rwa [List.length_map] at h
  exact ⟨hperm, Level.pairwise_order totals, length_rankBreakdowns mode scored,
    fun _ _ => getElem?_rankBreakdowns mode scored, pairwise_rankBreakdowns mode scored,
    fun _ hb _ hc => atLeast_of_total_lt mode scored hb hc⟩

end WorkPriority
