import Mathlib.Data.List.Sort
import WorkPriority.Proofs.Readings

/-!
# Breakdowns

What the breakdowns of a value hold, said of the members of the population.

* By zone there is a value under every key of a valid member: that of the measurements
  under the key (`valuesAt`), in the order of the population. These parts make up the
  measurements of all members, with none lost and none counted twice
  (`perm_flatMap_valuesAt`). A part of the keys has the breakdown of the members under
  them (`zonesOf_filter`).
* By agent there is a record under every agent of the population. If the members are
  different agents, the valid ones among the records are the measurements of the members,
  in another order (`perm_records`).

The keys of both are listed in order, once each (`Sorted.pairwise_ofList`).
-/

namespace WorkPriority

/-! ### Lists in order -/

namespace Sorted

variable {κ : Type} [DecidableEq κ] {order : κ → Nat} (hinj : Function.Injective order)

include hinj

theorem pairwise_insert {as : List κ} (h : as.Pairwise fun a b => order a < order b) (a : κ) :
    (insert order a as).Pairwise fun a b => order a < order b := by
  induction as with
  | nil => exact List.pairwise_singleton _ a
  | cons b bs ih =>
    obtain ⟨hb, hbs⟩ := List.pairwise_cons.1 h
    rw [insert]
    split
    · exact h
    rename_i hne
    split
    · rename_i hle
      have hab : order a < order b := lt_of_le_of_ne hle (hinj.ne hne)
      exact List.pairwise_cons.2
        ⟨List.forall_mem_cons.2 ⟨hab, fun c hc => hab.trans (hb c hc)⟩, h⟩
    · rename_i hlt
      refine List.pairwise_cons.2 ⟨fun c hc => ?_, ih hbs⟩
      rcases (mem_insert order a c bs).1 hc with rfl | hc
      · exact not_le.1 hlt
      · exact hb c hc

/-- A list that was put in order ascends. -/
theorem pairwise_ofList (as : List κ) :
    (ofList order as).Pairwise fun a b => order a < order b := by
  induction as with
  | nil => exact List.Pairwise.nil
  | cons a as ih => exact pairwise_insert hinj ih a

theorem nodup_ofList (as : List κ) : (ofList order as).Nodup :=
  (pairwise_ofList hinj as).imp fun h heq => (heq ▸ h).false

/-- It does not matter whether some elements are left out before or after. -/
theorem filter_ofList (p : κ → Bool) (as : List κ) :
    (ofList order as).filter p = ofList order (as.filter p) := by
  have hirrefl : Std.Irrefl fun a b : κ => order a < order b := ⟨fun a => lt_irrefl (order a)⟩
  have hantisymm : Std.Antisymm fun a b : κ => order a < order b :=
    ⟨fun a b hab hba => absurd hba hab.asymm⟩
  refine ((pairwise_ofList hinj as).filter p).eq_of_mem_iff (pairwise_ofList hinj _) fun a => ?_
  rw [List.mem_filter, mem_ofList, mem_ofList, List.mem_filter]

end Sorted

/-! ### Tables -/

namespace Keyed

variable {κ β : Type} (f : κ → β) (ks : List κ)

theorem keys_map_key : (mk (ks.map fun k => (k, f k))).keys = ks := by
  rw [keys, List.map_map]
  exact List.map_id ks

theorem values_map_key : (mk (ks.map fun k => (k, f k))).entries.map Prod.snd = ks.map f :=
  List.map_map

end Keyed

theorem ZoneKey.injective_order : Function.Injective ZoneKey.order :=
  fun _ _ => order_injective

theorem AgentId.injective_number : Function.Injective AgentId.number :=
  fun ⟨_⟩ ⟨_⟩ h => congrArg AgentId.mk h

/-! ### Parts of a list -/

/-- What is put under keys makes up the whole, if every key is listed, and once only. -/
theorem perm_flatMap_filter {κ β : Type} [DecidableEq κ] (key : β → κ) {ks : List κ}
    (hks : ks.Nodup) {xs : List β} (hkey : ∀ x ∈ xs, key x ∈ ks) :
    (ks.flatMap fun k => xs.filter fun x => key x == k).Perm xs := by
  induction ks generalizing xs with
  | nil =>
    cases xs with
    | nil => exact .nil
    | cons x xs => exact absurd (hkey x List.mem_cons_self) List.not_mem_nil
  | cons k ks ih =>
    obtain ⟨hk, hks⟩ := List.nodup_cons.1 hks
    -- What is under later keys is the same without what is under the first.
    have hrest : (ks.flatMap fun j => xs.filter fun x => key x == j) =
        ks.flatMap fun j => (xs.filter fun x => !(key x == k)).filter fun x => key x == j := by
      refine List.flatMap_congr fun j hj => ?_
      rw [List.filter_filter]
      refine List.filter_congr fun x _ => ?_
      have hjk : j ≠ k := fun h => hk (h ▸ hj)
      cases hx : key x == j with
      | false => rfl
      | true =>
        rw [beq_iff_eq.1 hx, beq_eq_false_iff_ne.2 hjk]
        rfl
    have hcover : ∀ x ∈ xs.filter (fun x => !(key x == k)), key x ∈ ks := by
      intro x hx
      obtain ⟨hx, hne⟩ := List.mem_filter.1 hx
      exact (List.mem_cons.1 (hkey x hx)).resolve_left (by simpa using hne)
    rw [List.flatMap_cons, hrest]
    exact ((ih hks hcover).append_left _).trans (List.filter_append_perm _ xs)

variable {α : Type} [Scalar α]

/-! ### Measurements -/

namespace Member

omit [Scalar α] in
/-- If the members are some agents, in the order of these, they are the agents of the
    population. -/
theorem agents_of_map {ms : List (Member α)} {ids : List AgentId}
    (h : ms.map (·.agent) = ids.map some) : agents ms = ids := by
  have hmap : agents ms = (ms.map (·.agent)).filterMap id := by
    rw [List.filterMap_map]
    rfl
  rw [hmap, h, List.filterMap_map]
  exact List.filterMap_some

variable {m : Member α}

theorem record_of_isValid (h : m.isValid = true) : m.record = m.value := if_pos h

theorem isNaN_of_isValid (h : m.isValid = true) : Scalar.isNaN m.value = false :=
  Bool.not_eq_true' _ ▸ (Bool.and_eq_true_iff.1 h).2

end Member

namespace SignalValue

variable {w : World} {a : Aggregation} {ms : List (Member α)}

/-- A measurement of a member is a number. -/
theorem isNaN_of_mem_validValues {x : α} (hx : x ∈ validValues ms) : Scalar.isNaN x = false := by
  obtain ⟨m, hm, rfl⟩ := List.mem_map.1 hx
  exact Member.isNaN_of_isValid (List.mem_filter.1 hm).2

theorem validValues_eq_nil_iff : validValues ms = [] ↔ ∀ m ∈ ms, m.isValid = false := by
  rw [validValues, List.map_eq_nil_iff, List.filter_eq_nil_iff]
  exact forall₂_congr fun m _ => Bool.not_eq_true _ ▸ Iff.rfl

/-! ### By zone -/

/-- The measurements under a key of the breakdown by zone, in the order of the population. -/
def valuesAt (w : World) (ms : List (Member α)) (k : ZoneKey) : List α :=
  validValues (ms.filter fun m => ZoneKey.resolve w m.zone == k)

/-- The keys of the breakdown by zone: those of the valid members. -/
def zoneKeys (w : World) (ms : List (Member α)) : List ZoneKey :=
  Sorted.ofList ZoneKey.order ((ms.filter (·.isValid)).map fun m => ZoneKey.resolve w m.zone)

theorem valuesAt_eq (w : World) (ms : List (Member α)) (k : ZoneKey) : valuesAt w ms k =
    ((ms.filter (·.isValid)).filter fun m => ZoneKey.resolve w m.zone == k).map (·.value) := by
  rw [valuesAt, validValues, List.filter_comm]

theorem zonesOf_eq (w : World) (a : Aggregation) (ms : List (Member α)) : zonesOf w a ms =
    ⟨(zoneKeys w ms).map fun k => (k, a.apply (valuesAt w ms k))⟩ := by
  simp only [valuesAt_eq]
  rfl

theorem keys_zonesOf (w : World) (a : Aggregation) (ms : List (Member α)) :
    (zonesOf w a ms).keys = zoneKeys w ms :=
  Keyed.keys_map_key ..

theorem values_zonesOf (w : World) (a : Aggregation) (ms : List (Member α)) :
    (zonesOf w a ms).entries.map Prod.snd =
      (zoneKeys w ms).map fun k => a.apply (valuesAt w ms k) := by
  rw [zonesOf_eq, Keyed.values_map_key]

theorem mem_zoneKeys {k : ZoneKey} :
    k ∈ zoneKeys w ms ↔ ∃ m ∈ ms, m.isValid = true ∧ ZoneKey.resolve w m.zone = k := by
  rw [zoneKeys, Sorted.mem_ofList, List.mem_map]
  simp only [List.mem_filter, and_assoc]

theorem valuesAt_ne_nil_iff {k : ZoneKey} : valuesAt w ms k ≠ [] ↔ k ∈ zoneKeys w ms := by
  rw [valuesAt, ne_eq, validValues_eq_nil_iff, mem_zoneKeys]
  push Not
  simp only [List.mem_filter, beq_iff_eq, Bool.not_eq_false, and_assoc]
  exact exists_congr fun m => and_congr_right fun _ => and_comm

theorem get?_zonesOf (k : ZoneKey) : (zonesOf w a ms).get? k =
    if k ∈ zoneKeys w ms then some (a.apply (valuesAt w ms k)) else none := by
  rw [zonesOf_eq]
  exact Keyed.lookup_map_key ..

/-- No measurement is lost between the zones, and none is counted twice. -/
theorem perm_flatMap_valuesAt (w : World) (ms : List (Member α)) :
    ((zoneKeys w ms).flatMap (valuesAt w ms)).Perm (validValues ms) := by
  have hkey : ∀ m ∈ ms.filter (·.isValid), ZoneKey.resolve w m.zone ∈ zoneKeys w ms :=
    fun m hm => mem_zoneKeys.2 ⟨m, (List.mem_filter.1 hm).1, (List.mem_filter.1 hm).2, rfl⟩
  have hperm := perm_flatMap_filter (fun m : Member α => ZoneKey.resolve w m.zone)
    (Sorted.nodup_ofList ZoneKey.injective_order _) hkey
  have hvalues : valuesAt w ms = _ := funext (valuesAt_eq w ms)
  rw [hvalues, ← List.map_flatMap]
  exact hperm.map (·.value)

/-- The value at any zone, with members or without. -/
theorem zone?_ofMembers {s : Signal} (hs : s.hasZones = true) (ms : List (Member α))
    (k : ZoneKey) :
    (ofMembers w s ms).zone? k = some (s.aggregation.apply (valuesAt w ms k)) := by
  simp only [zone?, ofMembers, hs, if_true, Option.map_some, get?_zonesOf]
  split
  · rfl
  · rename_i hk
    rw [not_not.1 (mt valuesAt_ne_nil_iff.1 hk)]
    rfl

/-- The members under some of the keys have the breakdown of all under these keys. -/
theorem zonesOf_filter (w : World) (a : Aggregation) (ms : List (Member α))
    (p : ZoneKey → Bool) :
    zonesOf w a (ms.filter fun m => p (ZoneKey.resolve w m.zone)) =
      (zonesOf w a ms).filter fun k _ => p k := by
  have hkeys : zoneKeys w (ms.filter fun m => p (ZoneKey.resolve w m.zone)) =
      (zoneKeys w ms).filter p := by
    rw [zoneKeys, zoneKeys, Sorted.filter_ofList ZoneKey.injective_order,
      List.filter_map, List.filter_comm]
    rfl
  have hvalues (k : ZoneKey) (hk : p k = true) :
      valuesAt w (ms.filter fun m => p (ZoneKey.resolve w m.zone)) k = valuesAt w ms k := by
    rw [valuesAt, valuesAt, List.filter_filter]
    refine congrArg validValues (List.filter_congr fun m _ => ?_)
    cases hm : ZoneKey.resolve w m.zone == k with
    | false => rfl
    | true =>
      rw [beq_iff_eq.1 hm, hk]
      rfl
  rw [zonesOf_eq, zonesOf_eq, hkeys, Keyed.filter, List.filter_map]
  refine congrArg Keyed.mk (List.map_congr_left fun k hk => ?_)
  rw [hvalues k (List.mem_filter.1 hk).2]

/-! ### By agent -/

/-- The keys of the breakdown by agent: those who are in the population. -/
theorem keys_agentsOf (ms : List (Member α)) :
    (agentsOf ms).keys = Sorted.ofList AgentId.number (Member.agents ms) :=
  Keyed.keys_map_key ..

theorem records_agentsOf (ms : List (Member α)) : (agentsOf ms).entries.map Prod.snd =
    (agentsOf ms).keys.map (recordOf ms) := by
  rw [keys_agentsOf]
  exact Keyed.values_map_key ..

theorem nodup_keys_agentsOf (ms : List (Member α)) : (agentsOf ms).keys.Nodup := by
  rw [keys_agentsOf]
  exact Sorted.nodup_ofList AgentId.injective_number _

theorem mem_keys_agentsOf {id : AgentId} : id ∈ (agentsOf ms).keys ↔ id ∈ Member.agents ms := by
  rw [keys_agentsOf, Sorted.mem_ofList]

/-- Where no agent is twice, the keys are the agents of the population in another order. -/
theorem perm_keys_agentsOf (hd : (Member.agents ms).Nodup) :
    (agentsOf ms).keys.Perm (Member.agents ms) :=
  (List.perm_ext_iff_of_nodup (nodup_keys_agentsOf ms) hd).2 fun _ => mem_keys_agentsOf

/-- The measurements of members are the valid ones of their records. -/
theorem filter_map_record [LinearScalar α] (ms : List (Member α)) :
    (ms.map Member.record).filter isMeasured = validValues ms := by
  have hvalid : isMeasured ∘ Member.record = (Member.isValid : Member α → Bool) :=
    funext Member.isMeasured_record
  rw [List.filter_map, hvalid, validValues]
  exact List.map_congr_left fun m hm => Member.record_of_isValid (List.mem_filter.1 hm).2

/-- Where the members are different agents, what is recorded of these is what was measured of
    the members, in another order. -/
theorem perm_records [LinearScalar α] {ids : List AgentId} (hids : ids.Nodup)
    (hagents : ms.map (·.agent) = ids.map some) :
    (((agentsOf ms).entries.map Prod.snd).filter isMeasured).Perm (validValues ms) := by
  have heq : Member.agents ms = ids := Member.agents_of_map hagents
  have hd : (Member.agents ms).Nodup := heq ▸ hids
  have hrecord : ∀ m ∈ ms, m.agent.map (recordOf ms) = some m.record := by
    intro m hm
    have hm' : m.agent ∈ ids.map some := hagents ▸ List.mem_map_of_mem hm
    obtain ⟨id, -, hid⟩ := List.mem_map.1 hm'
    rw [← hid, Option.map_some, recordOf_of_mem hd hm hid.symm]
  have hrecords : (Member.agents ms).map (recordOf ms) = ms.map Member.record := by
    rw [Member.agents, List.map_filterMap, ← List.filterMap_eq_map]
    exact List.filterMap_congr hrecord
  rw [records_agentsOf, ← filter_map_record, ← hrecords]
  exact ((perm_keys_agentsOf hd).map _).filter _

end SignalValue
end WorkPriority
