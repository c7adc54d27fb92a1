import WorkPriority.Proofs.Breakdowns
import WorkPriority.Proofs.ExactScalars
import WorkPriority.Proofs.WholeFloats

/-!
# A population by zones

The breakdown by zone takes a population apart (`ZonePartition`): its keys are those of the
valid members, under each is the aggregation of what was measured there, and the parts make
up the whole. So the values of the zones account for the value of the world
(`SignalValue.zones_partition`).

* A count is the sum of those of the zones. This is so with floating point numbers as well,
  as long as they are exact on counts, which they are below `2 ^ 53`.
* A sum is the sum of those of the zones in exact arithmetic. With floating point numbers
  it is not: adding in another order rounds otherwise.
* The greatest and the least measurement is the greatest or least of those of the zones. Of
  numbers that are equal, as the two zeros are, it need not be the same one.
-/

namespace WorkPriority

variable {α : Type} [Scalar α]

/-- A table is the breakdown by zone of a population, and accounts for its value. -/
structure ZonePartition (w : World) (s : Signal) (ms : List (Member α)) (t : Keyed ZoneKey α) :
    Prop where
  /-- The keys are those of the valid members. -/
  mem_keys (k : ZoneKey) :
    k ∈ t.keys ↔ ∃ m ∈ ms, m.isValid = true ∧ ZoneKey.resolve w m.zone = k
  /-- They are listed once each, and in order. -/
  ascending : t.keys.Pairwise fun j k => j.order < k.order
  /-- Under a key is the value of what was measured there. -/
  get? : ∀ k ∈ t.keys, t.get? k = some (s.aggregation.apply (SignalValue.valuesAt w ms k))
  /-- Every measurement is under one key. -/
  perm : (t.keys.flatMap (SignalValue.valuesAt w ms)).Perm (SignalValue.validValues ms)
  /-- The counts of the zones add up to that of the world. -/
  count : s.aggregation = .count →
    let counts := t.keys.map fun k => (SignalValue.valuesAt w ms k).length
    t.entries.map Prod.snd = counts.map Scalar.ofNat ∧
      (SignalValue.ofMembers w s ms).total = Scalar.ofNat counts.sum
  /-- The greatest value of a zone is that of the world. -/
  max : s.aggregation = .max → (∃ m ∈ ms, m.isValid = true) →
    ∃ x, IsFirst (fun x y => y < x) (t.entries.map Prod.snd) x ∧
      (x == (SignalValue.ofMembers w s ms).total) = true
  /-- The least value of a zone is that of the world. -/
  min : s.aggregation = .min → (∃ m ∈ ms, m.isValid = true) →
    ∃ x, IsFirst (fun x y => x < y) (t.entries.map Prod.snd) x ∧
      (x == (SignalValue.ofMembers w s ms).total) = true

namespace SignalValue

variable {w : World} {a : Aggregation} {ms : List (Member α)}

/-! ### Greatest and least values -/

/-- Where an aggregation finds the first of some numbers, the first among the zones is that
    of the world. -/
theorem exists_isFirst_zones {before : α → α → Prop} (hline : AlongLine before)
    (hfirst : ∀ {xs : List α}, xs ≠ [] → (∀ x ∈ xs, Scalar.isNaN x = false) →
      IsFirst before xs (a.apply xs)) (hvalid : ∃ m ∈ ms, m.isValid = true) :
    ∃ x, IsFirst before ((zonesOf w a ms).entries.map Prod.snd) x ∧
      (x == a.apply (validValues ms)) = true := by
  obtain ⟨m, hm, hmvalid⟩ := hvalid
  have hk : ZoneKey.resolve w m.zone ∈ zoneKeys w ms := mem_zoneKeys.2 ⟨m, hm, hmvalid, rfl⟩
  have hparts : ∀ k ∈ zoneKeys w ms, IsFirst before (valuesAt w ms k) (a.apply (valuesAt w ms k)) :=
    fun k hk => hfirst (valuesAt_ne_nil_iff.2 hk) fun _ => isNaN_of_mem_validValues
  have hflat : ∀ x ∈ (zoneKeys w ms).flatMap (valuesAt w ms), Scalar.isNaN x = false :=
    fun x hx => isNaN_of_mem_validValues ((perm_flatMap_valuesAt w ms).mem_iff.1 hx)
  have hnum : ∀ x ∈ (zoneKeys w ms).map fun k => a.apply (valuesAt w ms k),
      Scalar.isNaN x = false :=
    List.forall_mem_map.2 fun k hk => isNaN_of_mem_validValues (hparts k hk).mem
  have hzones := hfirst (List.ne_nil_of_mem (List.mem_map_of_mem hk)) hnum
  have hvalues : validValues ms ≠ [] := fun hnil =>
    Bool.false_ne_true ((validValues_eq_nil_iff.1 hnil m hm).symm.trans hmvalid)
  -- The first among the zones is first of all measurements, as the value of the world is.
  have hworld := (IsFirst.of_parts hline hparts hflat hzones).of_mem_iff fun _ =>
    (perm_flatMap_valuesAt w ms).mem_iff
  rw [values_zonesOf]
  exact ⟨_, hzones, hworld.beq hline (fun _ => isNaN_of_mem_validValues)
    (hfirst hvalues fun _ => isNaN_of_mem_validValues)⟩

/-! ### Counts and sums -/

/-- How many members were measured at each zone. -/
def countsByZone (w : World) (ms : List (Member α)) : List Nat :=
  (zoneKeys w ms).map fun k => (valuesAt w ms k).length

theorem sum_countsByZone (w : World) (ms : List (Member α)) :
    (countsByZone w ms).sum = (validValues ms).length := by
  rw [countsByZone, ← List.length_flatMap, (perm_flatMap_valuesAt w ms).length_eq]

theorem values_zonesOf_count (w : World) (ms : List (Member α)) :
    (zonesOf w .count ms).entries.map Prod.snd = (countsByZone w ms).map Scalar.ofNat := by
  simp only [values_zonesOf, Aggregation.apply_count, countsByZone, List.map_map,
    Function.comp_def]

/-- In exact arithmetic it does not matter that a sum is taken zone by zone. -/
theorem sum_values_zonesOf_sum (w : World) (ms : List (Member ℚ)) :
    ((zonesOf w .sum ms).entries.map Prod.snd).sum = (validValues ms).sum := by
  simp only [values_zonesOf, Aggregation.apply_sum, Scalar.sum_rat]
  rw [← (perm_flatMap_valuesAt w ms).sum_eq, List.flatMap_def, List.sum_flatten, List.map_map]
  rfl

theorem zonePartition_zonesOf [LinearScalar α] (w : World) (s : Signal) (ms : List (Member α)) :
    ZonePartition w s ms (zonesOf w s.aggregation ms) where
  mem_keys k := by rw [keys_zonesOf, mem_zoneKeys]
  ascending := by
    rw [keys_zonesOf]
    exact Sorted.pairwise_ofList ZoneKey.injective_order _
  get? k hk := by
    rw [keys_zonesOf] at hk
    rw [get?_zonesOf, if_pos hk]
  perm := by
    rw [keys_zonesOf]
    exact perm_flatMap_valuesAt w ms
  count ha := by
    rw [keys_zonesOf, ofMembers, ha, Aggregation.apply_count, ← sum_countsByZone w ms]
    exact ⟨values_zonesOf_count w ms, rfl⟩
  max ha hvalid := by
    rw [ofMembers, ha]
    exact exists_isFirst_zones LinearScalar.alongLine.flip Aggregation.isFirst_apply_max hvalid
  min ha hvalid := by
    rw [ofMembers, ha]
    exact exists_isFirst_zones LinearScalar.alongLine Aggregation.isFirst_apply_min hvalid

/-! ### The breakdown by zone -/

variable {s : Signal}

/-- The breakdown by zone takes any population apart, and its values account for that of the
    world. Counts add up, also when floating point numbers are added, and sums do in exact
    arithmetic; the greatest or least value is that of the world. -/
theorem zones_partition (hs : s.hasZones = true) (w : World) :
    (∀ ms : List (Member Float), ∃ t, (ofMembers w s ms).zones = some t ∧
      ZonePartition w s ms t ∧
      (s.aggregation = .count → (validValues ms).length < 2 ^ 53 →
        Scalar.sum (t.entries.map Prod.snd) = (ofMembers w s ms).total)) ∧
    ∀ ms : List (Member ℚ), ∃ t, (ofMembers w s ms).zones = some t ∧
      ZonePartition w s ms t ∧
      (s.aggregation = .count ∨ s.aggregation = .sum →
        Scalar.sum (t.entries.map Prod.snd) = (ofMembers w s ms).total) := by
  refine ⟨fun ms => ⟨_, if_pos hs, zonePartition_zonesOf w s ms, fun ha hlt => ?_⟩,
    fun ms => ⟨_, if_pos hs, zonePartition_zonesOf w s ms, fun ha => ?_⟩⟩
  · rw [← sum_countsByZone w ms] at hlt
    rw [ofMembers, ha, Aggregation.apply_count, values_zonesOf_count, ← sum_countsByZone w ms]
    exact Decimal.sum_map_ofNat hlt
  · rw [ofMembers, Scalar.sum_rat]
    rcases ha with ha | ha
    · rw [ha, Aggregation.apply_count, values_zonesOf_count, ← sum_countsByZone w ms]
      exact (Nat.cast_list_sum _).symm
    · rw [ha, Aggregation.apply_sum, Scalar.sum_rat, sum_values_zonesOf_sum]

end SignalValue

namespace Yard

/-- A shed on a meadow. -/
def world : World where
  zones := [⟨⟨1⟩, "shed", .storage⟩, ⟨⟨2⟩, "meadow", .outdoors⟩]

/-- How many piles of logs there are. -/
def piles : Signal :=
  { name := "piles", source := .objectCount ["log"] true, aggregation := .count,
    locatable := true }

/-- Two piles in the shed, one on the meadow, one nowhere in particular, and one that could not
    be measured. -/
def logs : List (Member Float) :=
  [⟨20.0, some ⟨1⟩, none⟩, ⟨5.0, some ⟨2⟩, none⟩, ⟨7.5, some ⟨1⟩, none⟩, ⟨3.0, none, none⟩,
    ⟨missingValue, some ⟨1⟩, none⟩]

end Yard

namespace SignalValue

/-- There are two piles outdoors and two in the shed, which makes four. -/
theorem zones_partition_yard : Yard.piles.hasZones = true ∧
    ∃ t, (ofMembers Yard.world Yard.piles Yard.logs).zones = some t ∧
      t.keys = [.unscoped, .zone ⟨1⟩] ∧ t.entries.map Prod.snd = [Float.ofNat 2, Float.ofNat 2] ∧
      Scalar.sum (t.entries.map Prod.snd) = Float.ofNat 4 := by
  have hs : Yard.piles.hasZones = true := rfl
  obtain ⟨hfloat, -⟩ := zones_partition hs Yard.world
  obtain ⟨t, ht, hpartition, hsum⟩ := hfloat Yard.logs
  obtain rfl : zonesOf Yard.world .count Yard.logs = t := Option.some.inj ht
  have hkeys : (zonesOf Yard.world .count Yard.logs).keys = [.unscoped, .zone ⟨1⟩] := by
    decide +kernel
  have hcounts : (zonesOf Yard.world .count Yard.logs).keys.map
      (fun k => (valuesAt Yard.world Yard.logs k).length) = [2, 2] := by
    decide +kernel
  obtain ⟨hvalues, htotal⟩ := hpartition.count rfl
  refine ⟨hs, _, ht, hkeys, ?_, ?_⟩
  · rw [hvalues, hcounts]
    rfl
  · rw [hsum rfl (by decide +kernel), htotal, hcounts]
    rfl

end SignalValue
end WorkPriority
