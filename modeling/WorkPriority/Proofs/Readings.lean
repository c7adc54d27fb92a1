import WorkPriority.Proofs.Scores
import WorkPriority.Proofs.Aggregations
import WorkPriority.Signal.Evaluation

/-!
# Readings of values

What can be read of the value that a population was measured as. The value for
the whole world is always there, and so is that of a zone if there is a
breakdown by zone. A reading about an agent is missing if the agent is not a
member of the population or its measurement is not valid (`Member.IsMissing`), and
for no other reason (`SignalValue.agent?_eq_none_iff`): an agent with a valid
measurement sees to it that there are statistics to compare it with. So it is in floating
point arithmetic and wherever else numbers are compared as the points of a line.

The standard evaluators measure every signal in every world
(`Evaluators.standard_measures`), and in a population of theirs no agent is twice.
-/

namespace WorkPriority

/-! ### Agents of a population -/

theorem Keyed.lookup_map_key {κ α : Type} [DecidableEq κ] (f : κ → α) (ks : List κ) (k : κ) :
    lookup k (ks.map fun j => (j, f j)) = if k ∈ ks then some (f k) else none := by
  induction ks with
  | nil => rfl
  | cons j ks ih =>
    rw [List.map_cons, lookup, ih]
    by_cases hj : j = k
    · simp [hj]
    · simp [hj, Ne.symm hj]

variable {α : Type}

namespace Member

/-- The agents that are members of a population. -/
def agents (ms : List (Member α)) : List AgentId := ms.filterMap (·.agent)

theorem mem_agents {ms : List (Member α)} {id : AgentId} :
    id ∈ agents ms ↔ ∃ m ∈ ms, m.agent = some id :=
  List.mem_filterMap

/-- An agent was not measured: it is not in the population, or what it has there is no
    measurement. -/
def IsMissing (ms : List (Member Float)) (id : AgentId) : Prop :=
  (∀ m ∈ ms, m.agent ≠ some id) ∨ ∃ m ∈ ms, m.agent = some id ∧ m.isValid = false

/-- Where no agent is twice, only one member is a given agent. -/
theorem eq_of_agent {ms : List (Member α)} (hd : (agents ms).Nodup) {m m' : Member α}
    (hm : m ∈ ms) (hm' : m' ∈ ms) {id : AgentId} (h : m.agent = some id)
    (h' : m'.agent = some id) : m = m' := by
  obtain ⟨i, hi, rfl⟩ := List.getElem_of_mem hm
  obtain ⟨j, hj, rfl⟩ := List.getElem_of_mem hm'
  have hpairs := List.pairwise_iff_getElem.1 (List.pairwise_filterMap.1 hd)
  rcases Nat.lt_trichotomy i j with hij | rfl | hij
  · exact absurd rfl (hpairs i j hi hj hij id h id h')
  · rfl
  · exact absurd rfl (hpairs j i hj hi hij id h' id h)

theorem isMeasured_record [Scalar α] [LinearScalar α] (m : Member α) :
    isMeasured m.record = m.isValid := by
  cases h : m.isValid with
  | true =>
    rw [record, if_pos h]
    exact h
  | false =>
    rw [record, h, if_neg Bool.false_ne_true]
    exact isMeasured_missingValue

end Member

namespace SignalValue

variable [Scalar α] {ms : List (Member α)} {id : AgentId}

theorem recordOf_of_mem (hd : (Member.agents ms).Nodup) {m : Member α} (hm : m ∈ ms)
    (h : m.agent = some id) : recordOf ms id = m.record := by
  cases hf : ms.reverse.find? fun m => m.agent == some id with
  | none =>
    have hne := List.find?_eq_none.1 hf m (List.mem_reverse.2 hm)
    exact absurd (beq_iff_eq.2 h) hne
  | some m' =>
    have hm' : m' ∈ ms := List.mem_reverse.1 (List.mem_of_find?_eq_some hf)
    have h' : m'.agent = some id := by simpa using List.find?_some hf
    rw [recordOf, hf, Member.eq_of_agent hd hm hm' h h']
    rfl

theorem get?_agentsOf (ms : List (Member α)) (id : AgentId) : (agentsOf ms).get? id =
    if id ∈ Member.agents ms then some (recordOf ms id) else none :=
  (Keyed.lookup_map_key ..).trans (if_congr (Sorted.mem_ofList ..) rfl rfl)

/-! ### Breakdowns -/

theorem zones_isSome_ofMembers (w : World) (t : Signal) (ms : List (Member α)) :
    (ofMembers w t ms).zones.isSome = t.hasZones := by
  rw [ofMembers]
  cases t.hasZones <;> rfl

theorem agents_isSome_ofMembers (w : World) (t : Signal) (ms : List (Member α)) :
    (ofMembers w t ms).agents.isSome = t.hasAgents := by
  rw [ofMembers]
  cases t.hasAgents <;> rfl

/-! ### Readings about agents -/

variable {w : World} {t : Signal} (ht : t.hasAgents = true)

include ht

theorem agent?_ofMembers (ms : List (Member α)) (id : AgentId) :
    (ofMembers w t ms).agent? id = ((agentsOf ms).get? id).filter isMeasured := by
  simp only [agent?, ofMembers, ht, if_true, Option.bind_some]

theorem statistics_ofMembers (ms : List (Member α)) : (ofMembers w t ms).statistics =
    Statistics.ofRecords? ((agentsOf ms).entries.map Prod.snd) := by
  simp only [ofMembers, ht, if_true, Option.bind_some]

/-- Who is not in the population has no reading. -/
theorem agent?_of_absent (h : ∀ m ∈ ms, m.agent ≠ some id) :
    (ofMembers w t ms).agent? id = none := by
  have hid : id ∉ Member.agents ms := fun hmem =>
    (Member.mem_agents.1 hmem).elim fun m hm => h m hm.1 hm.2
  rw [agent?_ofMembers ht, get?_agentsOf, if_neg hid, Option.filter_none]

/-- Who is in the population has its measurement, if that is valid. -/
theorem agent?_of_mem [LinearScalar α] (hd : (Member.agents ms).Nodup) {m : Member α} (hm : m ∈ ms)
    (h : m.agent = some id) :
    (ofMembers w t ms).agent? id = if m.isValid then some m.record else none := by
  have hid : id ∈ Member.agents ms := Member.mem_agents.2 ⟨m, hm, h⟩
  rw [agent?_ofMembers ht, get?_agentsOf, if_pos hid, recordOf_of_mem hd hm h, Option.filter_some,
    Member.isMeasured_record]

theorem agent?_eq_none_iff {ms : List (Member Float)} (hd : (Member.agents ms).Nodup) :
    (ofMembers w t ms).agent? id = none ↔ Member.IsMissing ms id := by
  by_cases hmem : ∃ m ∈ ms, m.agent = some id
  · obtain ⟨m, hm, h⟩ := hmem
    rw [agent?_of_mem ht hd hm h]
    constructor
    · intro hnone
      exact .inr ⟨m, hm, h, by simpa using hnone⟩
    · rintro (habsent | ⟨m', hm', h', hv⟩)
      · exact absurd h (habsent m hm)
      · rw [Member.eq_of_agent hd hm hm' h h', hv]
        rfl
  · have habsent : ∀ m ∈ ms, m.agent ≠ some id := fun m hm h => hmem ⟨m, hm, h⟩
    exact iff_of_true (agent?_of_absent ht habsent) (.inl habsent)

/-- Where an agent has a reading there are statistics. -/
theorem exists_statistics {x : α} (h : (ofMembers w t ms).agent? id = some x) :
    ∃ s, (ofMembers w t ms).statistics = some s := by
  rw [agent?_ofMembers ht] at h
  obtain ⟨hget, hx⟩ := Option.filter_eq_some_iff.1 h
  have hmem : x ∈ ((agentsOf ms).entries.map Prod.snd).filter isMeasured :=
    List.mem_filter.2 ⟨List.mem_map_of_mem (Keyed.mem_of_lookup hget), hx⟩
  rw [statistics_ofMembers ht]
  refine Option.ne_none_iff_exists'.1 fun hnone => ?_
  exact List.ne_nil_of_mem hmem (Statistics.ofRecords?_eq_none_iff.1 hnone)

/-- An agent can be compared with the others just if it has a reading. -/
theorem distance?_eq_none_iff :
    (ofMembers w t ms).distance? id = none ↔ (ofMembers w t ms).agent? id = none := by
  rw [distance?]
  cases h : (ofMembers w t ms).agent? id with
  | none => exact iff_of_true rfl rfl
  | some x =>
    obtain ⟨s, hs⟩ := exists_statistics ht h
    simp [hs]

theorem normalizedRank?_eq_none_iff :
    (ofMembers w t ms).normalizedRank? id = none ↔ (ofMembers w t ms).agent? id = none := by
  rw [normalizedRank?]
  cases h : (ofMembers w t ms).agent? id with
  | none => exact iff_of_true rfl rfl
  | some x =>
    obtain ⟨s, hs⟩ := exists_statistics ht h
    simp [hs]

end SignalValue

/-! ### Look-ups -/

namespace Context

variable {c : Context} {t : Signal} {w : World} {ms : List (Member Float)} {mode : RequestMode}
  (hvalue : c.signals.value? t.name = some (.ofMembers w t ms))
  (hcapability : ∀ k, mode.capability? = some k → k.isOf t = true)

include hvalue hcapability

/-- What is asked about the world or a zone is always there. -/
theorem resolve?_isSome (hmode : mode = .total ∨ mode = .zoneOfAgent) (a : Agent) :
    (c.resolve? t.name mode a).isSome = true := by
  rw [resolve?, hvalue]
  rcases hmode with rfl | rfl
  · rfl
  · have hzones : t.hasZones = true := hcapability .locatable rfl
    simp [SignalValue.zone?, SignalValue.ofMembers, hzones]

/-- What is asked about an agent is missing just if the agent was not measured. -/
theorem resolve?_eq_none_iff (hd : (Member.agents ms).Nodup)
    (hmode : mode = .agent ∨ mode = .distance ∨ mode = .normalizedRank) (a : Agent) :
    c.resolve? t.name mode a = none ↔ Member.IsMissing ms a.id := by
  rw [resolve?, hvalue]
  rcases hmode with rfl | rfl | rfl
  all_goals
    have ht : t.hasAgents = true := hcapability .individualizable rfl
    rw [← SignalValue.agent?_eq_none_iff ht hd]
  · rfl
  · exact SignalValue.distance?_eq_none_iff ht
  · exact SignalValue.normalizedRank?_eq_none_iff ht

end Context

/-! ### Standard evaluators -/

theorem agents_objectPopulation (w : World) (s : Signal) (objects : List (WorldObject × Float)) :
    Member.agents (objectPopulation w s objects).members = [] := by
  simp [Member.agents, objectPopulation]

theorem nodup_agents_agentPopulation {w : World} (hw : w.DistinctAgents) (s : Signal)
    (measure : Agent → Float) (takesPart : Float → Bool) :
    (Member.agents (agentPopulation w s measure takesPart).members).Nodup := by
  have hsub : (Member.agents (agentPopulation w s measure takesPart).members).Sublist
      w.agentIds := by
    have hids : w.agentIds = Member.agents (w.agents.map fun a =>
        { value := measure a, zone := a.zone, agent := some a.id }) := by
      simp [Member.agents, World.agentIds, List.filterMap_map]
    rw [hids]
    exact (List.filter_sublist.trans (List.filter_sublist.map _)).filterMap _
  exact hw.sublist hsub

namespace Evaluators

/-- The standard evaluators measure every signal in every world. -/
theorem standard_measures (w : World) (t : Signal) : ∃ p, standard.population w t = .ok p := by
  obtain ⟨name, source⟩ := t
  cases source <;> exact ⟨_, rfl⟩

theorem standard_complete (kind : SourceKind) : ∃ f, standard kind = some f := by
  cases kind <;> exact ⟨_, rfl⟩

/-- So none of them fails on a signal of its kind. -/
theorem standard_ok {kind : SourceKind} {f : Evaluator} (hf : standard kind = some f) (w : World)
    {t : Signal} (ht : t.source.kind = kind) : ∃ p, f w t = .ok p := by
  obtain ⟨p, hp⟩ := standard_measures w t
  rw [population, ht, hf] at hp
  exact ⟨p, hp⟩

theorem nodup_agents_standard {w : World} (hw : w.DistinctAgents) {t : Signal} {p : Population}
    (hp : standard.population w t = .ok p) : (Member.agents p.members).Nodup := by
  obtain ⟨name, source⟩ := t
  cases source
  all_goals obtain rfl : _ = p := Except.ok.inj hp
  case objectCount | constructionProgress =>
    rw [agents_objectPopulation]
    exact List.nodup_nil
  case environmentCondition | weather => exact List.nodup_nil
  all_goals exact nodup_agents_agentPopulation hw ..

/-- What is measured is the value of a population. -/
theorem value_of_population {es : Evaluators} {w : World} {t : Signal} {p : Population}
    (hp : es.population w t = .ok p) : es.value w t = .ok (.ofMembers w t p.members) := by
  rw [value, hp]
  rfl

/-- The value that the standard evaluators give is that of a population. -/
theorem valueOrZero_standard {w : World} {t : Signal} {p : Population}
    (hp : standard.population w t = .ok p) :
    standard.valueOrZero w t = .ofMembers w t p.members := by
  rw [valueOrZero, value_of_population hp]

end Evaluators
end WorkPriority
