import WorkPriority.Proofs.PopulationStatistics

/-!
# Records of agents

Of an agent there may be a number on record under the name of an attribute or a need. A signal
with such a source measures the agents that its filter admits by their records: an agent is
read as the number on record of it, and the value for the world, those of the zones and the
statistics are made of just the numbers that are read (`RecordsAccount`).

There is one number for which this is not so. Minus one stands for a measurement that is
missing, so an agent with minus one on record is taken for an agent without a record
(`Evaluators.not_always_read`). With any other number it is so, whatever the signal and
whatever the world (`Evaluators.records_account`).
-/

namespace WorkPriority

open SignalValue

/-- A source measures agents by what is on record of them, as an attribute or as a need. -/
inductive Source.Reads : Source → (Agent → Option Float) → Prop
  /-- An attribute. -/
  | attr (name : String) : Reads (.agentAttribute name) fun a => a.attributes.get? name
  /-- A need. -/
  | need (name : String) : Reads (.agentNeed name) fun a => a.needs.get? name

/-- The agents that a signal is about. -/
def Signal.admitted (s : Signal) (w : World) : List Agent :=
  w.agents.filter fun a => s.filter.admits w (.agent a)

/-- What is read of some agents, in their order. -/
def SignalValue.readings (v : SignalValue Float) (as : List Agent) : List Float :=
  as.filterMap fun a => v.agent? a.id

/-- A value accounts for what is on record of agents. -/
structure RecordsAccount (w : World) (s : Signal) (record : Agent → Option Float)
    (v : SignalValue Float) : Prop where
  /-- An agent is read as the number on record of it, unless that is minus one. -/
  agent?_iff {a : Agent} {x : Float} : a ∈ s.admitted w →
    (v.agent? a.id = some x ↔ record a = some x ∧ x.isNaN = false ∧ (x == -1.0) = false)
  /-- The value for the world is made of all that is read. -/
  total : v.total = s.aggregation.apply (v.readings (s.admitted w))
  /-- The value of a zone is made of what is read of those who are there. -/
  zone? : s.hasZones = true → ∀ k, v.zone? k = some (s.aggregation.apply
    (v.readings ((s.admitted w).filter fun a => ZoneKey.resolve w a.zone == k)))
  /-- There are no statistics just if nothing is read. -/
  statistics_eq_none_iff : v.statistics = none ↔ v.readings (s.admitted w) = []
  /-- The statistics are those of all that is read, in some order. -/
  statistics {st : Statistics Float} : v.statistics = some st →
    ∃ xs, xs.Perm (v.readings (s.admitted w)) ∧ st.AreOf xs

/-! ### Records and measurements -/

theorem missingValue_eq : (missingValue : Float) = -1.0 := by rfl

/-- A missing record is one of a missing measurement. -/
theorem filter_getD_missingValue {α : Type} [Scalar α] [LinearScalar α] (x? : Option α) :
    (some (x?.getD missingValue)).filter isMeasured = x?.filter isMeasured := by
  cases x? with
  | none => rw [Option.getD_none, Option.filter_some, isMeasured_missingValue]; rfl
  | some x => rfl

theorem filter_isMeasured_eq_some_iff {x? : Option Float} {x : Float} :
    x?.filter isMeasured = some x ↔ x? = some x ∧ x.isNaN = false ∧ (x == -1.0) = false := by
  rw [Option.filter_eq_some_iff, isMeasured, missingValue_eq, Bool.and_eq_true, Bool.not_eq_true',
    Bool.not_eq_true', and_comm (a := (x == -1.0) = false)]
  rfl

theorem validValues_eq_filterMap {α : Type} [Scalar α] (ms : List (Member α)) :
    validValues ms = ms.filterMap fun m => (some m.value).filter isMeasured := by
  rw [validValues, ← List.filterMap_eq_filter, List.map_filterMap]
  refine List.filterMap_congr fun m _ => ?_
  rw [Option.filter_some, Option.guard]
  split
  · rename_i h
    exact (if_pos h).symm
  · rename_i h
    exact (if_neg h).symm

/-! ### Populations of agents -/

/-- An agent as the member of a population that is measured by records. -/
def Agent.member (record : Agent → Option Float) (a : Agent) : Member Float :=
  { value := (record a).getD missingValue, zone := a.zone, agent := some a.id }

section Populations

variable {w : World} {s : Signal} {record : Agent → Option Float}

theorem Source.Reads.isOfAgents {source : Source} (h : source.Reads record) :
    source.kind.isOfAgents = true := by
  cases h with
  | attr name => rfl
  | need name => rfl

/-- The population is made of the agents that are admitted. -/
theorem exists_population_of_reads (w : World) (h : s.source.Reads record) :
    ∃ p, Evaluators.standard.population w s = .ok p ∧
      p.members = (s.admitted w).map (Agent.member record) := by
  have hmembers : (agentPopulation w s (fun a => (record a).getD missingValue)
      fun _ => true).members = (s.admitted w).map (Agent.member record) :=
    List.filter_eq_self.2 fun _ _ => rfl
  obtain ⟨name, source⟩ := s
  cases h with
  | attr name => exact ⟨_, rfl, hmembers⟩
  | need name => exact ⟨_, rfl, hmembers⟩

theorem validValues_map_member (record : Agent → Option Float) (as : List Agent) :
    validValues (as.map (Agent.member record)) =
      as.filterMap fun a => (record a).filter isMeasured := by
  rw [validValues_eq_filterMap, List.filterMap_map]
  exact List.filterMap_congr fun a _ => filter_getD_missingValue (record a)

theorem valuesAt_map_member (w : World) (record : Agent → Option Float) (as : List Agent)
    (k : ZoneKey) : valuesAt w (as.map (Agent.member record)) k =
      validValues ((as.filter fun a => ZoneKey.resolve w a.zone == k).map
        (Agent.member record)) := by
  rw [valuesAt, List.filter_map]
  rfl

theorem nodup_map_id_admitted (hw : w.DistinctAgents) (s : Signal) :
    ((s.admitted w).map (·.id)).Nodup :=
  hw.sublist (List.filter_sublist.map _)

theorem agents_map_member (record : Agent → Option Float) (as : List Agent) :
    (as.map (Agent.member record)).map (·.agent) = (as.map (·.id)).map some := by
  rw [List.map_map, List.map_map]
  rfl

/-- An agent is read as what is on record of it, if that is a measurement. -/
theorem agent?_map_member (hw : w.DistinctAgents) (hs : s.hasAgents = true) {a : Agent}
    (ha : a ∈ s.admitted w) :
    (ofMembers w s ((s.admitted w).map (Agent.member record))).agent? a.id =
      (record a).filter isMeasured := by
  have hagents := agents_map_member record (s.admitted w)
  have hd : (Member.agents ((s.admitted w).map (Agent.member record))).Nodup := by
    rw [Member.agents_of_map hagents]
    exact nodup_map_id_admitted hw s
  rw [agent?_of_mem hs hd (List.mem_map_of_mem ha) rfl, ← filter_getD_missingValue,
    Option.filter_some]
  have hvalid : (Agent.member record a).isValid = isMeasured ((record a).getD missingValue) := rfl
  rw [hvalid]
  split
  · rename_i h
    rw [Member.record_of_isValid (hvalid.trans h)]
    rfl
  · rfl

theorem readings_eq (hw : w.DistinctAgents) (hs : s.hasAgents = true) {as : List Agent}
    (has : as ⊆ s.admitted w) :
    (ofMembers w s ((s.admitted w).map (Agent.member record))).readings as =
      validValues (as.map (Agent.member record)) := by
  rw [validValues_map_member]
  exact List.filterMap_congr fun a ha => agent?_map_member hw hs (has ha)

theorem recordsAccount (hw : w.DistinctAgents) (hs : s.hasAgents = true) :
    RecordsAccount w s record (ofMembers w s ((s.admitted w).map (Agent.member record))) where
  agent?_iff ha := by rw [agent?_map_member hw hs ha, filter_isMeasured_eq_some_iff]
  total := by
    rw [readings_eq hw hs (List.Subset.refl _)]
    rfl
  zone? hzones k := by
    rw [zone?_ofMembers hzones, valuesAt_map_member, readings_eq hw hs (List.filter_subset_self _)]
  statistics_eq_none_iff := by
    rw [readings_eq hw hs (List.Subset.refl _)]
    exact WorkPriority.statistics_eq_none_iff hs (nodup_map_id_admitted hw s)
      (agents_map_member record _)
  statistics hst := by
    obtain ⟨xs, hxs, hperm, -⟩ :=
      exists_areOf hs (nodup_map_id_admitted hw s) (agents_map_member record _) hst
    rw [readings_eq hw hs (List.Subset.refl _)]
    exact ⟨xs, hperm, hxs⟩

end Populations

namespace Evaluators

/-- Where no two agents share an id, a signal that reads records is measured, and accounts for
    what is on record of the agents that it is about. -/
theorem records_account {w : World} (hw : w.DistinctAgents) {s : Signal}
    {record : Agent → Option Float} (hs : s.individualizable = true)
    (hreads : s.source.Reads record) :
    ∃ v, standard.value w s = .ok v ∧ RecordsAccount w s record v := by
  have hagents : s.hasAgents = true := Bool.and_eq_true_iff.2 ⟨hs, hreads.isOfAgents⟩
  obtain ⟨p, hp, hmembers⟩ := exists_population_of_reads w hreads
  exact ⟨_, value_of_population hp, hmembers ▸ recordsAccount hw hagents⟩

end Evaluators

namespace Tavern

/-- Somebody in a bad mood. -/
def ada : Agent := { id := ⟨1⟩, name := "Ada", attributes := .ofList [("mood", -2.5)] }

/-- Somebody in a slightly better mood. -/
def ben : Agent := { id := ⟨2⟩, name := "Ben", attributes := .ofList [("mood", -1.0)] }

/-- Three are sitting in the tavern, and nobody knows what mood the third is in. -/
def world : World where
  agents := [ada, ben, { id := ⟨3⟩, name := "Cal" }]

/-- What mood everyone is in. -/
def mood : Signal :=
  { name := "mood", source := .agentAttribute "mood", aggregation := .min
    individualizable := true }

end Tavern

namespace Evaluators

open Tavern

/-- The mood of one is read, and that of the other taken for unknown. -/
theorem records_account_tavern :
    world.DistinctAgents ∧ mood.individualizable = true ∧
      mood.source.Reads (fun a => a.attributes.get? "mood") ∧
      ∃ v, standard.value world mood = .ok v ∧ v.agent? ada.id = some (-2.5) ∧
        v.agent? ben.id = Option.none ∧
        v.total = Aggregation.min.apply (v.readings world.agents) := by
  have hw : world.DistinctAgents := (by decide : [(⟨1⟩ : AgentId), ⟨2⟩, ⟨3⟩].Nodup)
  have hreads : mood.source.Reads (fun a => a.attributes.get? "mood") := .attr "mood"
  obtain ⟨v, hv, haccount⟩ := records_account hw rfl hreads
  have hadmitted : mood.admitted world = world.agents := List.filter_eq_self.2 fun _ _ => rfl
  have hada : ada ∈ mood.admitted world := hadmitted ▸ List.mem_cons_self
  have hben : ben ∈ mood.admitted world :=
    hadmitted ▸ List.mem_cons_of_mem _ List.mem_cons_self
  refine ⟨hw, rfl, hreads, v, hv, ?_, ?_, ?_⟩
  · exact (haccount.agent?_iff hada).2 ⟨rfl, by decide +kernel, by decide +kernel⟩
  · refine Option.eq_none_iff_forall_ne_some.2 fun x hx => ?_
    obtain ⟨hrecord, -, hne⟩ := (haccount.agent?_iff hben).1 hx
    obtain rfl : (-1.0 : Float) = x := Option.some.inj hrecord
    exact absurd hne (by decide +kernel)
  · rw [← hadmitted]
    exact haccount.total

/-- Not every number on record is read. -/
theorem not_always_read : ¬∀ (w : World) (s : Signal) (record : Agent → Option Float)
    (v : SignalValue Float) (a : Agent) (x : Float), w.DistinctAgents → s.individualizable = true →
    s.source.Reads record → standard.value w s = .ok v → a ∈ s.admitted w → record a = some x →
    x.isNaN = false → v.agent? a.id = some x := by
  intro h
  have hread := h world mood _ _ ben (-1.0) (by decide : [(⟨1⟩ : AgentId), ⟨2⟩, ⟨3⟩].Nodup) rfl
    (.attr "mood") rfl (List.mem_filter.2 ⟨List.mem_cons_of_mem _ List.mem_cons_self, rfl⟩) rfl
    (by decide +kernel)
  have hsome := congrArg Option.isSome hread
  revert hsome
  decide +kernel

end Evaluators
end WorkPriority
