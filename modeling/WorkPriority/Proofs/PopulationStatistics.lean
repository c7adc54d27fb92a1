import WorkPriority.Proofs.Breakdowns
import WorkPriority.Proofs.ExactScalars

/-!
# Statistics of populations

The statistics of a population are taken from the records of its agents, in the order of
these, while the value for the whole world is taken from the measurements of its members, in
the order of the world. Both are made of the same numbers (`SignalValue.perm_records`), so
they agree: the count, the least and the greatest are what the signal would be under the
aggregations of that name (`StatisticsAgree`), and in exact arithmetic so are the mean and,
times the count, the sum (`Evaluators.statistics_agree`). Where there are no statistics
nobody was measured, and every aggregation gives zero.

A mean of floating point numbers depends on their order, for every addition rounds.
-/

namespace WorkPriority

open SignalValue

/-- The signal under another aggregation. -/
def Signal.aggregatedBy (s : Signal) (a : Aggregation) : Signal := { s with aggregation := a }

variable {α : Type} [Scalar α]

/-- The statistics of a population agree with what the aggregations give for the world. -/
structure StatisticsAgree (w : World) (s : Signal) (ms : List (Member α)) : Prop where
  /-- There are none just if nobody was measured. -/
  eq_none_iff : (ofMembers w s ms).statistics = none ↔ ∀ m ∈ ms, m.isValid = false
  /-- Then all aggregations give zero. -/
  zero : (ofMembers w s ms).statistics = none →
    ∀ a, (ofMembers w (s.aggregatedBy a) ms).total = Scalar.zero
  /-- The number of measurements is counted. -/
  count {st : Statistics α} : (ofMembers w s ms).statistics = some st →
    Scalar.ofNat st.count = (ofMembers w (s.aggregatedBy .count) ms).total
  /-- The least is found. -/
  min {st : Statistics α} : (ofMembers w s ms).statistics = some st →
    (st.min == (ofMembers w (s.aggregatedBy .min) ms).total) = true
  /-- The greatest is found. -/
  max {st : Statistics α} : (ofMembers w s ms).statistics = some st →
    (st.max == (ofMembers w (s.aggregatedBy .max) ms).total) = true

/-- Where somebody was measured there are statistics. -/
theorem StatisticsAgree.exists_statistics {w : World} {s : Signal} {ms : List (Member α)}
    (h : StatisticsAgree w s ms) {m : Member α} (hm : m ∈ ms) (hvalid : m.isValid = true) :
    ∃ st, (ofMembers w s ms).statistics = some st :=
  Option.ne_none_iff_exists'.1 fun hnone =>
    Bool.false_ne_true ((h.eq_none_iff.1 hnone m hm).symm.trans hvalid)

theorem total_count (w : World) (s : Signal) (ms : List (Member α)) :
    (ofMembers w (s.aggregatedBy .count) ms).total = Scalar.ofNat (validValues ms).length :=
  Aggregation.apply_count _

/-! ### Members that are agents -/

section Members

variable {w : World} {s : Signal} {ms : List (Member α)} {ids : List AgentId}
  [LinearScalar α] (hs : s.hasAgents = true) (hids : ids.Nodup)
  (hagents : ms.map (·.agent) = ids.map some)

include hs hids hagents

theorem statistics_eq_none_iff : (ofMembers w s ms).statistics = none ↔ validValues ms = [] := by
  rw [statistics_ofMembers hs, Statistics.ofRecords?_eq_none_iff]
  have hperm := perm_records hids hagents
  exact ⟨fun h => (h ▸ hperm).symm.eq_nil, fun h => (h ▸ hperm).eq_nil⟩

/-- The statistics are those of the measurements of all members, in some order. -/
theorem exists_areOf {st : Statistics α} (hst : (ofMembers w s ms).statistics = some st) :
    ∃ xs, st.AreOf xs ∧ xs.Perm (validValues ms) ∧ validValues ms ≠ [] := by
  rw [statistics_ofMembers hs] at hst
  have hxs := Statistics.areOf_of_ofRecords? hst
  have hperm := perm_records hids hagents
  exact ⟨_, hxs, hperm, fun hnil => hxs.ne_nil (hnil ▸ hperm).eq_nil⟩

theorem statisticsAgree : StatisticsAgree w s ms where
  eq_none_iff := by
    rw [statistics_eq_none_iff hs hids hagents, validValues_eq_nil_iff]
  zero hnone a := by
    rw [statistics_eq_none_iff hs hids hagents] at hnone
    rw [ofMembers, hnone]
    rfl
  count hst := by
    obtain ⟨xs, hxs, hperm, -⟩ := exists_areOf hs hids hagents hst
    rw [hxs.count, hperm.length_eq, total_count]
  min hst := by
    obtain ⟨xs, hxs, hperm, hne⟩ := exists_areOf hs hids hagents hst
    have hfirst := hxs.isFirst_min fun x hx => isNaN_of_mem_validValues (hperm.mem_iff.1 hx)
    exact (hfirst.of_mem_iff fun _ => hperm.mem_iff).beq LinearScalar.alongLine
      (fun _ => isNaN_of_mem_validValues)
      (Aggregation.isFirst_apply_min hne fun _ => isNaN_of_mem_validValues)
  max hst := by
    obtain ⟨xs, hxs, hperm, hne⟩ := exists_areOf hs hids hagents hst
    have hfirst := hxs.isFirst_max fun x hx => isNaN_of_mem_validValues (hperm.mem_iff.1 hx)
    exact (hfirst.of_mem_iff fun _ => hperm.mem_iff).beq LinearScalar.alongLine.flip
      (fun _ => isNaN_of_mem_validValues)
      (Aggregation.isFirst_apply_max hne fun _ => isNaN_of_mem_validValues)

end Members

/-! ### Exact means -/

section Exact

variable {w : World} {s : Signal} {ms : List (Member ℚ)} {ids : List AgentId}
  (hs : s.hasAgents = true) (hids : ids.Nodup) (hagents : ms.map (·.agent) = ids.map some)
  {st : Statistics ℚ} (hst : (ofMembers w s ms).statistics = some st)

include hs hids hagents hst

/-- In exact arithmetic a mean does not depend on the order. -/
theorem mean_eq_average : st.mean = (ofMembers w (s.aggregatedBy .average) ms).total := by
  obtain ⟨xs, hxs, hperm, hne⟩ := exists_areOf hs hids hagents hst
  have haverage : (ofMembers w (s.aggregatedBy .average) ms).total = _ :=
    Aggregation.apply_average hne
  rw [haverage, hxs.mean, Scalar.sum_rat, Scalar.sum_rat, hperm.sum_eq, hperm.length_eq]

theorem mean_mul_count_eq_sum :
    st.mean * st.count = (ofMembers w (s.aggregatedBy .sum) ms).total := by
  obtain ⟨xs, hxs, hperm, -⟩ := exists_areOf hs hids hagents hst
  have hsum : (ofMembers w (s.aggregatedBy .sum) ms).total = _ := Aggregation.apply_sum _
  have hlength : (xs.length : ℚ) ≠ 0 := by
    exact_mod_cast (List.length_pos_iff.2 hxs.ne_nil).ne'
  rw [hsum, hxs.mean, hxs.count, Scalar.ofNat_rat, div_mul_cancel₀ _ hlength, Scalar.sum_rat,
    Scalar.sum_rat, hperm.sum_eq]

end Exact

/-! ### Measured populations -/

namespace Evaluators

/-- How the measurements become one value has no part in measuring. -/
theorem population_aggregatedBy (w : World) (s : Signal) (a : Aggregation) :
    standard.population w (s.aggregatedBy a) = standard.population w s := by
  obtain ⟨name, source⟩ := s
  cases source <;> rfl

/-- The members of a population that was taken from agents are agents. -/
theorem map_agent_standard {w : World} {s : Signal} (hs : s.source.kind.isOfAgents = true)
    {p : Population} (hp : standard.population w s = .ok p) :
    p.members.map (·.agent) = (Member.agents p.members).map some := by
  have hagents (measure : Agent → Float) (takesPart : Float → Bool) :
      (agentPopulation w s measure takesPart).members.map (·.agent) =
        (Member.agents (agentPopulation w s measure takesPart).members).map some := by
    simp [agentPopulation, Member.agents, List.filter_map, List.filterMap_map, Function.comp_def]
  obtain ⟨name, source⟩ := s
  cases source
  case objectCount | constructionProgress | environmentCondition | weather =>
    exact absurd hs Bool.false_ne_true
  all_goals
    obtain rfl : _ = p := Except.ok.inj hp
    exact hagents _ _

/-- Where no two agents share an id, the statistics of a signal with a breakdown by agent are
    those of its population: of the agents that were measured, all of them and nobody else. -/
theorem statistics_agree {w : World} (hw : w.DistinctAgents) {s : Signal}
    (hs : s.hasAgents = true) :
    ∃ p ids t, standard.population w s = .ok p ∧ p.members.map (·.agent) = ids.map some ∧
      (∀ a, standard.value w (s.aggregatedBy a) =
        .ok (ofMembers w (s.aggregatedBy a) p.members)) ∧
      (ofMembers w s p.members).agents = some t ∧ t.keys.Perm ids ∧
      StatisticsAgree w s p.members ∧
      ∀ ms : List (Member ℚ), ms.map (·.agent) = ids.map some →
        StatisticsAgree w s ms ∧ ∀ st, (ofMembers w s ms).statistics = some st →
          st.mean = (ofMembers w (s.aggregatedBy .average) ms).total ∧
          st.mean * st.count = (ofMembers w (s.aggregatedBy .sum) ms).total := by
  obtain ⟨p, hp⟩ := standard_measures w s
  have hkind : s.source.kind.isOfAgents = true := (Bool.and_eq_true_iff.1 hs).2
  have hids : (Member.agents p.members).Nodup := nodup_agents_standard hw hp
  have hagents := map_agent_standard hkind hp
  refine ⟨p, _, _, hp, hagents, fun a => ?_, if_pos hs, perm_keys_agentsOf hids,
    statisticsAgree hs hids hagents, fun ms hms => ⟨statisticsAgree hs hids hms, fun st hst => ?_⟩⟩
  · exact value_of_population ((population_aggregatedBy w s a).trans hp)
  · exact ⟨mean_eq_average hs hids hms hst, mean_mul_count_eq_sum hs hids hms hst⟩

end Evaluators

namespace Quarry

/-- Two who know how strong they are, and one who does not. -/
def world : World where
  agents := [{ id := ⟨2⟩, name := "Ada", attributes := .ofList [("strength", 8.0)] },
    { id := ⟨1⟩, name := "Ben", attributes := .ofList [("strength", 3.0)] },
    { id := ⟨3⟩, name := "Cal" }]

/-- How strong everyone is. -/
def strength : Signal :=
  { name := "strength", source := .agentAttribute "strength", individualizable := true }

/-- The same in exact arithmetic. -/
def exactStrengths : List (Member ℚ) :=
  [⟨8, none, some ⟨2⟩⟩, ⟨3, none, some ⟨1⟩⟩, ⟨missingValue, none, some ⟨3⟩⟩]

end Quarry

namespace Evaluators

/-- Two were measured of three, and in exact arithmetic their mean is between them. -/
theorem statistics_agree_quarry :
    Quarry.world.DistinctAgents ∧ Quarry.strength.hasAgents = true ∧
      ∃ p t, standard.population Quarry.world Quarry.strength = .ok p ∧
        (ofMembers Quarry.world Quarry.strength p.members).agents = some t ∧
        t.keys.Perm [⟨2⟩, ⟨1⟩, ⟨3⟩] ∧
        (∃ st, (ofMembers Quarry.world Quarry.strength p.members).statistics = some st ∧
          Scalar.ofNat st.count = Float.ofNat 2) ∧
        ∃ st, (ofMembers Quarry.world Quarry.strength Quarry.exactStrengths).statistics = some st ∧
          st.mean = 11 / 2 ∧ st.mean * st.count = 11 := by
  have hw : Quarry.world.DistinctAgents := (by decide : [(⟨2⟩ : AgentId), ⟨1⟩, ⟨3⟩].Nodup)
  have hs : Quarry.strength.hasAgents = true := rfl
  obtain ⟨p, ids, t, hp, hagents, -, ht, hkeys, hagree, hexact⟩ := statistics_agree hw hs
  obtain rfl : _ = p := Except.ok.inj hp
  obtain rfl : [⟨2⟩, ⟨1⟩, ⟨3⟩] = ids := List.map_injective_iff.2 (Option.some_injective _) hagents
  refine ⟨hw, hs, _, t, hp, ht, hkeys, ?_, ?_⟩
  · obtain ⟨st, hst⟩ := hagree.exists_statistics List.mem_cons_self (by decide +kernel)
    refine ⟨st, hst, (hagree.count hst).trans ?_⟩
    rw [total_count]
    exact congrArg Float.ofNat (by decide +kernel)
  · obtain ⟨hagree, hmean⟩ := hexact Quarry.exactStrengths rfl
    obtain ⟨st, hst⟩ := hagree.exists_statistics List.mem_cons_self (by decide +kernel)
    exact ⟨st, hst, (hmean st hst).1.trans (by decide +kernel),
      (hmean st hst).2.trans (by decide +kernel)⟩

end Evaluators
end WorkPriority
