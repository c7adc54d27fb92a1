import WorkPriority.Proofs.Runs

/-!
# Normal cycles forget

What a normal cycle publishes does not depend on what an engine did before
(`Engine.normalCycle_forgets`). Snapshot and scores are made anew, but out of
values that may come from the cache, where earlier cycles and questions on
demand left theirs. A cycle takes from it what has the tick of its own world
alone. So all that is needed is that the cache is *faithful* to the world: what
it has of that tick was measured in that world (`Engine.Faithful`). It is, if
nobody showed the engine another world of the same tick.

Only paused agents carry history: they have the breakdown that they had.
-/

namespace WorkPriority.Engine

variable {e f : Engine} {w : World}

/-- What the cache has of the tick of a world is what is measured in that world. -/
structure Faithful (e : Engine) (w : World) : Prop where
  distinct : e.cache.slots.Distinct
  measured : ∀ name v, e.cache.slots.get? name = some (w.tick, v) →
    ∃ s, e.registry.signal? name = some s ∧ v = e.setup.evaluators.valueOrZero w s

/-! ### The cache of a run is faithful -/

/-- Of a faithful cache, a cycle gets what it would measure itself. -/
theorem Faithful.refresh_fst (he : e.Faithful w) {s : Signal}
    (hs : e.registry.signal? s.name = some s) : (e.refresh w s).1 =
      if e.registry.isValidSignal s.name then e.setup.evaluators.valueOrZero w s else .zero := by
  rw [Engine.refresh_fst]
  cases h : e.cache.stored? s.name w.tick with
  | none => rfl
  | some v =>
    obtain ⟨t, ht, hv⟩ := he.measured s.name v (Cache.stored?_eq_some_iff.1 h)
    rw [hs, Option.some.injEq] at ht
    rw [hv, ← ht]
    rfl

theorem Faithful.refresh (he : e.Faithful w) (hr : e.registry.Distinct) {w' : World}
    (hw : w'.tick = w.tick → w' = w) {s : Signal} (hs : s ∈ e.registry.signals) :
    (e.refresh w' s).2.Faithful w := by
  have hfound := hr.signal?_of_mem hs
  refine ⟨distinct_refresh w' he.distinct s, fun n v h => ?_⟩
  rw [registry, setup_refresh]
  rw [slot_refresh] at h
  split at h
  · -- The slot was written in a world of the tick of `w`, which is `w`.
    rename_i hn
    obtain ⟨ht, hv⟩ := Prod.mk.inj (Option.some.inj h)
    rw [hw ht, he.refresh_fst hfound, if_pos hn.2] at hv
    exact ⟨s, hn.1 ▸ hfound, hv.symm⟩
  · exact he.measured n v h

theorem Faithful.refreshAll (he : e.Faithful w) (hr : e.registry.Distinct) {w' : World}
    (hw : w'.tick = w.tick → w' = w) {ss : List Signal} (hs : ss ⊆ e.registry.signals) :
    (e.refreshAll w' ss).2.Faithful w := by
  let P (f : Engine) : Prop := f.registry = e.registry ∧ f.Faithful w
  have hP : ∀ f, ∀ s ∈ ss, P f → P (f.refresh w' s).2 := by
    rintro f s h ⟨hf, hfaith⟩
    refine ⟨?_, hfaith.refresh (hf ▸ hr) hw (hf ▸ hs h)⟩
    rw [registry, setup_refresh]
    exact hf
  exact (refreshAll_induct w' hP ⟨rfl, he⟩).2

theorem Faithful.evaluate (he : e.Faithful w) {w' : World} (hw : w'.tick = w.tick → w' = w)
    (name : String) : (e.evaluate w' name).2.Faithful w := by
  refine ⟨distinct_evaluate w' he.distinct name, fun n v h => ?_⟩
  have hsetup : (e.evaluate w' name).2.setup = e.setup := e.setup_after (.evaluate w' name)
  rw [registry, hsetup]
  rw [slot_evaluate] at h
  cases hs : e.registry.signal? name with
  | none =>
    rw [hs] at h
    exact he.measured n v h
  | some s =>
    rw [hs] at h
    simp only at h
    split at h
    · rename_i hn
      obtain ⟨ht, hv⟩ := Prod.mk.inj (Option.some.inj h)
      rw [hw ht] at hv
      exact ⟨s, hn.1 ▸ hs, hv.symm⟩
    · exact he.measured n v h

/-- A call leaves a faithful cache so, unless it shows another world of the same tick. -/
theorem Faithful.after (he : e.Faithful w) (hr : e.registry.Distinct) {c : Call}
    (hc : c.world.tick = w.tick → c.world = w) : (e.after c).Faithful w := by
  cases c with
  | normal w' =>
    have h : (e.refreshAll w' e.registry.signals).2.Faithful w :=
      he.refreshAll hr hc (List.Subset.refl _)
    refine ⟨Cache.distinct_purge _ h.distinct, fun n v hv => h.measured n v ?_⟩
    rw [cache_after_normal, Cache.slot_purge h.distinct] at hv
    exact (Option.filter_eq_some_iff.1 hv).1
  | urgent w' =>
    have h := he.refreshAll hr hc ((Call.urgent w').signals_subset)
    exact ⟨h.distinct, h.measured⟩
  | evaluate w' name => exact he.evaluate hc name

theorem Faithful.run {s : Setup} (hs : s.registry.Distinct) {cs : List Call}
    (hcs : ∀ c ∈ cs, c.world.tick = w.tick → c.world = w) : ((start s).run cs).Faithful w := by
  let P (e : Engine) : Prop := e.setup = s ∧ e.Faithful w
  have hP : ∀ e, ∀ c ∈ cs, P e → P (e.after c) := by
    rintro e c hc ⟨rfl, he⟩
    exact ⟨e.setup_after c, he.after hs (hcs c hc)⟩
  have hstart : (start s).Faithful w :=
    ⟨Keyed.distinct_empty, fun _ _ h => absurd h.symm (Option.some_ne_none _)⟩
  exact (run_induct hP ⟨rfl, hstart⟩).2

/-! ### Normal cycles of two engines -/

theorem refreshAll_fst_of_faithful (he : e.Faithful w) (hf : f.Faithful w) (h : e.setup = f.setup)
    (hr : e.registry.Distinct) : (e.refreshAll w e.registry.signals).1 =
      (f.refreshAll w f.registry.signals).1 := by
  have hreg : f.registry = e.registry := congrArg Setup.registry h.symm
  rw [refreshAll_fst e w hr.signals, hreg, refreshAll_fst f w hr.signals]
  refine List.map_congr_left fun s hs => ?_
  have hfound := hr.signal?_of_mem hs
  rw [he.refresh_fst hfound, hf.refresh_fst (hreg ▸ hfound), hreg, h]

theorem context_congr (h : e.setup = f.setup) (hs : e.signals = f.signals) :
    e.context w = f.context w := by
  rw [context, context, h, hs]

theorem policy_congr (h : e.setup = f.setup) : e.policy = f.policy := by
  rw [policy, policy, registry, registry, h]

/-- The scores of a normal cycle come from its snapshot alone. -/
theorem scores_congr (h : e.setup = f.setup)
    (hs : (e.after (.normal w)).signals = (f.after (.normal w)).signals) :
    (e.after (.normal w)).scores = (f.after (.normal w)).scores := by
  have hafter : (e.after (.normal w)).setup = (f.after (.normal w)).setup := by
    rw [setup_after, setup_after, h]
  rw [scores_after_normal, scores_after_normal, context_congr hafter hs, registry, registry, h]

/-- Levels are handed out to agents that are not paused, from their breakdowns. -/
theorem handedOut_congr (h : ∀ a ∈ w.agents, a.paused = false →
    (e.after (.normal w)).agentBreakdown? a.id = (f.after (.normal w)).agentBreakdown? a.id) :
    e.handedOut (.normal w) = f.handedOut (.normal w) := by
  rw [(e.normalCycle_pass w).2.1, (f.normalCycle_pass w).2.1]
  refine List.flatMap_congr fun id hid => Pass.assignmentsOf_congr ?_
  obtain ⟨a, ha, rfl⟩ := List.mem_map.1 hid
  obtain ⟨ha, hp⟩ := List.mem_filter.1 ha
  rw [← agentBreakdown?_after_normal, ← agentBreakdown?_after_normal]
  exact h a ha (by simpa using hp)

/-- A normal cycle publishes the same whatever an engine did before: the same
    snapshot, the same scores, the same breakdown of every agent that is not
    paused, and it hands out the same levels in the same order. All that earlier
    calls must not have done is to show another world of the same tick. -/
theorem normalCycle_forgets {s : Setup} (hs : s.registry.Loaded) (hw : w.DistinctAgents)
    {cs ds : List Call} (hcs : ∀ c ∈ cs, c.world.tick = w.tick → c.world = w)
    (hds : ∀ d ∈ ds, d.world.tick = w.tick → d.world = w) :
    let e := (start s).run cs
    let f := (start s).run ds
    (e.after (.normal w)).signals = (f.after (.normal w)).signals ∧
      (e.after (.normal w)).scores = (f.after (.normal w)).scores ∧
      (∀ a ∈ w.agents, a.paused = false →
        ∃ b, (e.after (.normal w)).agentBreakdown? a.id = some b ∧
          (f.after (.normal w)).agentBreakdown? a.id = some b) ∧
      e.handedOut (.normal w) = f.handedOut (.normal w) := by
  intro e f
  have hsetup : e.setup = f.setup := (setup_run _ cs).trans (setup_run _ ds).symm
  have hdist : e.registry.Distinct := by
    rw [registry_run]
    exact hs.distinct
  have hsignals : (e.after (.normal w)).signals = (f.after (.normal w)).signals := by
    rw [signals_after_normal, signals_after_normal, refreshAll_fst_of_faithful
      (.run hs.distinct hcs) (.run hs.distinct hds) hsetup hdist]
  have hscores := scores_congr hsetup hsignals
  have hranked : ∀ a ∈ w.agents, a.paused = false →
      (e.after (.normal w)).agentBreakdown? a.id = (f.after (.normal w)).agentBreakdown? a.id := by
    intro a ha hp
    rw [agentBreakdown?_of_unpaused e hw ha hp, agentBreakdown?_of_unpaused f hw ha hp,
      policy_congr hsetup, hscores]
  refine ⟨hsignals, hscores, fun a ha hp => ?_, handedOut_congr hranked⟩
  have h := agentBreakdown?_of_unpaused e hw ha hp
  exact ⟨_, h, hranked a ha hp ▸ h⟩

/-- Of two engines of a farm one has counted before who works there, the other
    what there is in store, each at tick 5; the one has met others at tick 4 and
    the other at tick 6. -/
theorem normalCycle_forgets_farm :
    let w := Farm.world 5 [Farm.worker 1, Farm.resting 2]
    let e := (start Farm.setup).run
      [.normal (Farm.world 4 [Farm.worker 2]), .evaluate w "headcount"]
    let f := (start Farm.setup).run
      [.evaluate w "stores", .urgent (Farm.world 6 []), .urgent w, .urgent (Farm.world 6 [])]
    (e.after (.normal w)).signals = (f.after (.normal w)).signals ∧
      (e.after (.normal w)).scores = (f.after (.normal w)).scores ∧
      (∀ a ∈ w.agents, a.paused = false →
        ∃ b, (e.after (.normal w)).agentBreakdown? a.id = some b ∧
          (f.after (.normal w)).agentBreakdown? a.id = some b) ∧
      e.handedOut (.normal w) = f.handedOut (.normal w) := by
  refine normalCycle_forgets Farm.registry_loaded ?_ ?_ ?_
  · exact (by decide : [(⟨1⟩ : AgentId), ⟨2⟩].Nodup)
  · simp [Call.world, Farm.world]
  · simp [Call.world, Farm.world]

end WorkPriority.Engine
