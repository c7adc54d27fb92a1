import WorkPriority.Proofs.BoundedStaleness
import WorkPriority.Proofs.Histories
import WorkPriority.Proofs.HistoryIndependence

/-!
# Urgent cycles are absorbed

Where both cycles are due only the normal one is run, since it does all that the
urgent one would do. That this is right is a statement about two engines: if one
runs an urgent cycle before a normal cycle in the same world, and the other the
normal cycle alone, then nothing tells them apart afterwards but the number of
urgent cycles (`Engine.absorbed_history`).

The urgent cycle writes to the cache, to the snapshot and to the scores, and it
reports unknown tags. Snapshot and scores are made anew in the normal cycle. What
is in the cache then has the tick of the world, and so it is just what the normal
cycle takes from there instead of measuring it. It does not matter for that
whether the cache keeps anything beyond the tick.

The cache and the tags that were reported are sets, and the two engines list them
in different orders: the same is said of them up to a permutation.
-/

namespace WorkPriority

/-! ### Tables as sets -/

/-- Two tables in which the same is found have the same entries. -/
theorem Keyed.perm_entries {κ α : Type} [DecidableEq κ] {t u : Keyed κ α} (ht : t.Distinct)
    (hu : u.Distinct) (h : ∀ k, t.get? k = u.get? k) : t.entries.Perm u.entries := by
  refine (List.perm_ext_iff_of_nodup ht.of_map hu.of_map).2 fun ⟨k, a⟩ => ?_
  rw [← Keyed.get?_eq_some_iff ht, ← Keyed.get?_eq_some_iff hu, h]

namespace Engine

/-! ### Unknown tags -/

section Tags

variable (e : Engine) (w : World)

/-- The tags that are met in measuring a signal are reported if it is measured. -/
theorem unknownTags_refresh (s : Signal) : (e.refresh w s).2.unknownTags =
    if e.registry.isValidSignal s.name = true ∧ e.cache.stored? s.name w.tick = none then
      e.unknownTags.reportAll (e.setup.evaluators.unknownMet w s)
    else e.unknownTags := by
  rw [refresh]
  by_cases hv : e.registry.isValidSignal s.name = true
  · cases e.cache.stored? s.name w.tick <;> simp [hv, remember]
  · simp [hv]

theorem unknownTags_after_normal : (e.after (.normal w)).unknownTags =
    (e.refreshAll w e.registry.signals).2.unknownTags.reportAll
      (unknownInRules w e.registry.validRules) := by
  obtain ⟨_, _, h⟩ := e.refreshAll_snd w e.registry.signals
  simp only [after, normalCycle, h]
  rfl

theorem unknownTags_after_urgent : (e.after (.urgent w)).unknownTags =
    (e.refreshAll w e.registry.urgentSignals).2.unknownTags.reportAll
      (unknownInRules w e.registry.urgentRules) := by
  obtain ⟨_, _, h⟩ := e.refreshAll_snd w e.registry.urgentSignals
  simp only [after, urgentCycle, h]
  rfl

theorem unknownTags_evaluate (name : String) : (e.evaluate w name).2.unknownTags =
    match e.registry.signal? name with
    | none => e.unknownTags
    | some s =>
      if e.registry.isValidSignal name = true ∧ e.cache.get? name w.tick = none then
        e.unknownTags.reportAll (e.setup.evaluators.unknownMet w s)
      else e.unknownTags := by
  rw [evaluate]
  cases e.registry.signal? name with
  | none => rfl
  | some s =>
    by_cases hv : e.registry.isValidSignal name = true
    · cases e.cache.get? name w.tick <;> simp [hv, remember]
    · simp [hv]

end Tags

/-! ### What holds of every engine -/

/-- In an engine nothing is listed twice: names are given once in its registry, a
    signal has one slot in its cache, and an unknown tag was reported once. -/
structure Sound (e : Engine) : Prop where
  registry : e.registry.Loaded
  slots : e.cache.slots.Distinct
  tags : e.unknownTags.texts.Nodup

namespace Sound

theorem start {s : Setup} (hs : s.registry.Loaded) : (start s).Sound :=
  ⟨hs, Keyed.distinct_empty, List.nodup_nil⟩

variable {e : Engine} (he : e.Sound)

include he

theorem nodup_tags_refreshAll (w : World) (ss : List Signal) :
    (e.refreshAll w ss).2.unknownTags.texts.Nodup := by
  refine refreshAll_induct w (P := fun f => f.unknownTags.texts.Nodup) (fun f s _ h => ?_) he.tags
  rw [unknownTags_refresh]
  split
  · exact UnknownTags.nodup_reportAll h _
  · exact h

theorem after (c : Call) : (e.after c).Sound := by
  refine ⟨e.registry_after c ▸ he.registry, distinct_slots_after he.slots c, ?_⟩
  cases c with
  | normal w =>
    rw [unknownTags_after_normal]
    exact UnknownTags.nodup_reportAll (he.nodup_tags_refreshAll w _) _
  | urgent w =>
    rw [unknownTags_after_urgent]
    exact UnknownTags.nodup_reportAll (he.nodup_tags_refreshAll w _) _
  | evaluate w name =>
    rw [Engine.after, unknownTags_evaluate]
    split
    · exact he.tags
    split
    · exact UnknownTags.nodup_reportAll he.tags _
    · exact he.tags

/-- Whatever a host does with an engine, nothing is listed twice in it. -/
theorem history (ops : List Operation) : (e.history ops).Sound := by
  refine history_induct (P := Sound) ?_ ?_ ?_ he
  · exact fun _ _ _ c _ h => h.after c
  · exact fun _ h => ⟨h.registry, h.slots, h.tags⟩
  · intro f op _ hop h
    obtain ⟨_, _, hperform⟩ := f.perform_of_no_world hop
    rw [hperform]
    exact ⟨h.registry, h.slots, h.tags⟩

end Sound

/-! ### What the urgent cycle leaves for the normal one -/

section Slots

variable {e : Engine} {w : World}

variable (hr : e.registry.Distinct)

include hr

/-- A valid urgent signal has its value in its slot, with the tick of the world. -/
theorem stored?_after_urgent {s : Signal} (hs : s ∈ e.registry.urgentSignals)
    (hv : e.registry.isValidSignal s.name = true) :
    (e.after (.urgent w)).cache.stored? s.name w.tick = some (e.refresh w s).1 := by
  have hnames : (e.registry.urgentSignals.map (·.name)).Nodup := Call.nodup_signals hr (.urgent w)
  rw [cache_after_urgent, Cache.stored?, slot_refreshAll_of_mem hnames hs hv]
  exact if_pos rfl

theorem slot_after_urgent_of_calm {s : Signal} (hs : s ∈ e.registry.signals)
    (hcalm : s ∉ e.registry.urgentSignals) :
    (e.after (.urgent w)).cache.slots.get? s.name = e.cache.slots.get? s.name := by
  refine slot_after_of_unasked hr hs fun h => ?_
  rcases h with hcov | ⟨_, h⟩
  · exact hcalm hcov
  · cases h

/-- A normal cycle has the same values if an urgent cycle comes before it. -/
theorem refresh_after_urgent {s : Signal} (hs : s ∈ e.registry.signals) :
    ((e.after (.urgent w)).refresh w s).1 = (e.refresh w s).1 := by
  have hsetup := e.setup_after (.urgent w)
  by_cases hurgent : s ∈ e.registry.urgentSignals
  · by_cases hv : e.registry.isValidSignal s.name = true
    · rw [refresh_fst, registry_after, if_pos hv, stored?_after_urgent hr hurgent hv]
      rfl
    · rw [refresh_fst, registry_after, if_neg hv, refresh_fst, if_neg hv]
  · exact refresh_congr w hsetup (slot_after_urgent_of_calm hr hs hurgent)

theorem refreshAll_fst_after_urgent :
    ((e.after (.urgent w)).refreshAll w e.registry.signals).1 =
      (e.refreshAll w e.registry.signals).1 := by
  rw [refreshAll_fst _ w hr.signals, refreshAll_fst _ w hr.signals]
  exact List.map_congr_left fun s hs => by rw [refresh_after_urgent hr hs]

/-- The normal cycle leaves the same in every slot. -/
theorem slot_refreshAll_after_urgent (name : String) :
    ((e.after (.urgent w)).refreshAll w e.registry.signals).2.cache.slots.get? name =
      (e.refreshAll w e.registry.signals).2.cache.slots.get? name := by
  have hreg := e.registry_after (.urgent w)
  by_cases h : ∃ s ∈ e.registry.signals, s.name = name ∧ e.registry.isValidSignal s.name = true
  · obtain ⟨s, hs, rfl, hv⟩ := h
    rw [slot_refreshAll_of_mem hr.signals hs (hreg ▸ hv), refresh_after_urgent hr hs,
      slot_refreshAll_of_mem hr.signals hs hv]
  · -- No cycle writes there, neither the urgent nor the normal one.
    have hinvalid : ∀ s ∈ e.registry.signals, s.name = name →
        ¬e.registry.isValidSignal s.name = true := fun s hs hn hv => h ⟨s, hs, hn, hv⟩
    rw [slot_refreshAll_of_invalid (hreg ▸ hinvalid), slot_refreshAll_of_invalid hinvalid,
      cache_after_urgent]
    exact slot_refreshAll_of_invalid fun s hs => hinvalid s (List.mem_of_mem_filter hs)

theorem slot_after_urgent_normal (hd : e.cache.slots.Distinct) (name : String) :
    ((e.after (.urgent w)).after (.normal w)).cache.slots.get? name =
      (e.after (.normal w)).cache.slots.get? name := by
  have hd' := distinct_slots_after hd (.urgent w)
  rw [cache_after_normal, cache_after_normal, registry_after,
    Cache.slot_purge (distinct_refreshAll hd' w _), Cache.slot_purge (distinct_refreshAll hd w _),
    slot_refreshAll_after_urgent hr]
  simp only [Cache.isAlive, lifetime_refreshAll, lifetime_after]

end Slots

/-! ### The tags that both report -/

section ReportedTags

variable {e : Engine} {w : World}

/-- Whether a tag is met in a signal that a cycle has to measure. -/
def MeetsTag (e : Engine) (w : World) (text : String) (s : Signal) : Prop :=
  e.registry.isValidSignal s.name = true ∧ e.cache.stored? s.name w.tick = none ∧
    text ∈ e.setup.evaluators.unknownMet w s

theorem mem_unknownTags_refresh (s : Signal) (text : String) :
    text ∈ (e.refresh w s).2.unknownTags.texts ↔
      text ∈ e.unknownTags.texts ∨ e.MeetsTag w text s := by
  rw [unknownTags_refresh, MeetsTag]
  split
  · rename_i h
    rw [UnknownTags.mem_reportAll]
    simp [h.1, h.2]
  · rename_i h
    refine ⟨.inl, fun hmem => hmem.resolve_right fun hmet => h ⟨hmet.1, hmet.2.1⟩⟩

theorem mem_unknownTags_refreshAll {ss : List Signal} (hd : (ss.map (·.name)).Nodup)
    (text : String) : text ∈ (e.refreshAll w ss).2.unknownTags.texts ↔
      text ∈ e.unknownTags.texts ∨ ∃ s ∈ ss, e.MeetsTag w text s := by
  induction ss generalizing e with
  | nil => simp [refreshAll]
  | cons s ss ih =>
    rw [List.map_cons, List.nodup_cons] at hd
    -- The slot of a later signal is not the one that the first has written.
    have hlater : ∀ t ∈ ss, (e.refresh w s).2.MeetsTag w text t ↔ e.MeetsTag w text t := by
      intro t ht
      have hne : t.name ≠ s.name := fun hn => hd.1 (hn ▸ List.mem_map_of_mem ht)
      rw [MeetsTag, MeetsTag, registry, registry, setup_refresh,
        Cache.stored?_congr _ (e.slot_refresh_of_ne w hne)]
    rw [refreshAll_cons, ih hd.2, mem_unknownTags_refresh, or_assoc, List.exists_mem_cons_iff]
    exact or_congr_right (or_congr_right (exists_congr fun t => and_congr_right (hlater t)))

/-- Rules of which there are fewer meet no other tags. -/
theorem mem_unknownInRules_of_subset {rules rules' : List Rule} (h : rules ⊆ rules')
    {text : String} (hmem : text ∈ unknownInRules w rules) : text ∈ unknownInRules w rules' := by
  obtain ⟨a, ha, hmem⟩ := List.mem_flatMap.1 hmem
  obtain ⟨r, hr, hmem⟩ := List.mem_flatMap.1 hmem
  exact List.mem_flatMap.2 ⟨a, ha, List.mem_flatMap.2 ⟨r, h hr, hmem⟩⟩

theorem mem_unknownTags_after_normal (hr : e.registry.Distinct) (text : String) :
    text ∈ (e.after (.normal w)).unknownTags.texts ↔
      (text ∈ e.unknownTags.texts ∨ ∃ s ∈ e.registry.signals, e.MeetsTag w text s) ∨
        text ∈ unknownInRules w e.registry.validRules := by
  rw [unknownTags_after_normal, UnknownTags.mem_reportAll, mem_unknownTags_refreshAll hr.signals]

theorem mem_unknownTags_after_urgent (hr : e.registry.Distinct) (text : String) :
    text ∈ (e.after (.urgent w)).unknownTags.texts ↔
      (text ∈ e.unknownTags.texts ∨ ∃ s ∈ e.registry.urgentSignals, e.MeetsTag w text s) ∨
        text ∈ unknownInRules w e.registry.urgentRules := by
  have hnames : (e.registry.urgentSignals.map (·.name)).Nodup := Call.nodup_signals hr (.urgent w)
  rw [unknownTags_after_urgent, UnknownTags.mem_reportAll, mem_unknownTags_refreshAll hnames]

/-- The urgent cycle has measured what is urgent, so that the normal cycle meets the
    tags only that are met in the other signals. -/
theorem meetsTag_after_urgent (hr : e.registry.Distinct) {s : Signal}
    (hs : s ∈ e.registry.signals) (text : String) :
    (e.after (.urgent w)).MeetsTag w text s ↔
      s ∉ e.registry.urgentSignals ∧ e.MeetsTag w text s := by
  rw [MeetsTag, MeetsTag, registry_after, setup_after]
  by_cases hurgent : s ∈ e.registry.urgentSignals
  · refine iff_of_false (fun h => ?_) fun h => h.1 hurgent
    rw [stored?_after_urgent hr hurgent h.1] at h
    exact Option.some_ne_none _ h.2.1
  · rw [Cache.stored?_congr _ (slot_after_urgent_of_calm hr hs hurgent), and_iff_right hurgent]

/-- Both cycles report the tags that the normal one reports alone. -/
theorem mem_unknownTags_after_urgent_normal (hr : e.registry.Distinct) (text : String) :
    text ∈ ((e.after (.urgent w)).after (.normal w)).unknownTags.texts ↔
      text ∈ (e.after (.normal w)).unknownTags.texts := by
  have hreg := e.registry_after (.urgent w)
  rw [mem_unknownTags_after_normal (hreg ▸ hr), mem_unknownTags_after_urgent hr,
    mem_unknownTags_after_normal hr, hreg]
  constructor
  · rintro ((((h | ⟨s, hs, hmet⟩) | hrule) | ⟨s, hs, hmet⟩) | hrule)
    · exact .inl (.inl h)
    · exact .inl (.inr ⟨s, List.mem_of_mem_filter hs, hmet⟩)
    · exact .inr (mem_unknownInRules_of_subset (Call.urgent w).rules_subset hrule)
    · exact .inl (.inr ⟨s, hs, ((meetsTag_after_urgent hr hs text).1 hmet).2⟩)
    · exact .inr hrule
  · rintro ((h | ⟨s, hs, hmet⟩) | hrule)
    · exact .inl (.inl (.inl (.inl h)))
    · by_cases hurgent : s ∈ e.registry.urgentSignals
      · exact .inl (.inl (.inl (.inr ⟨s, hurgent, hmet⟩)))
      · exact .inl (.inr ⟨s, hs, (meetsTag_after_urgent hr hs text).2 ⟨hurgent, hmet⟩⟩)
    · exact .inr hrule

end ReportedTags

/-! ### Absorption -/

/-- Nothing tells two engines apart but the number of their urgent cycles, and in
    which order they list what is in the cache and which tags were reported. -/
structure Alike (e f : Engine) : Prop where
  setup : f.setup = e.setup
  signals : f.signals = e.signals
  scores : f.scores = e.scores
  breakdowns : f.breakdowns = e.breakdowns
  lifetime : f.cache.lifetime = e.cache.lifetime
  slots : f.cache.slots.entries.Perm e.cache.slots.entries
  tags : f.unknownTags.texts.Perm e.unknownTags.texts
  cadence : f.cadence = e.cadence
  normalCycles : f.normalCycles = e.normalCycles

section Absorption

variable {e : Engine}

namespace Sound

variable (he : e.Sound) (w : World)

include he

theorem signals_absorbed :
    ((e.after (.urgent w)).after (.normal w)).signals = (e.after (.normal w)).signals := by
  rw [signals_after_normal, signals_after_normal, registry_after,
    refreshAll_fst_after_urgent he.registry.distinct]

theorem scores_absorbed :
    ((e.after (.urgent w)).after (.normal w)).scores = (e.after (.normal w)).scores :=
  scores_congr (e.setup_after _) (he.signals_absorbed w)

/-- The normal cycle makes the same pass. -/
theorem pass_absorbed :
    let f := e.after (.urgent w)
    Pass.run f.policy w (f.after (.normal w)).scores f.breakdowns =
      Pass.run e.policy w (e.after (.normal w)).scores e.breakdowns := by
  intro f
  rw [he.scores_absorbed, policy_congr (e.setup_after _), breakdowns_after_urgent]

theorem alike_absorbed : (e.after (.normal w)).Alike ((e.after (.urgent w)).after (.normal w)) := by
  have hd := he.registry.distinct
  obtain ⟨hcadence, hnormal, -⟩ := e.counters_after_normal w
  obtain ⟨hcadence', hnormal', -⟩ := (e.after (.urgent w)).counters_after_normal w
  obtain ⟨hcadence'', hnormal'', -⟩ := e.counters_after_urgent w
  constructor
  case setup => simp only [setup_after]
  case signals => exact he.signals_absorbed w
  case scores => exact he.scores_absorbed w
  case breakdowns => rw [(normalCycle_pass _ w).1, he.pass_absorbed, (normalCycle_pass _ w).1]
  case lifetime => simp only [lifetime_after]
  case slots =>
    exact Keyed.perm_entries ((he.after _).after _).slots (he.after _).slots
      (slot_after_urgent_normal hd he.slots)
  case tags =>
    exact (List.perm_ext_iff_of_nodup ((he.after _).after _).tags (he.after _).tags).2
      (mem_unknownTags_after_urgent_normal hd)
  case cadence => rw [hcadence', hcadence'', hcadence]
  case normalCycles => rw [hnormal', hnormal'', hnormal]

theorem report_absorbed :
    ((e.after (.urgent w)).normalCycle w).1 = (e.normalCycle w).1 := by
  rw [report_normal, report_normal, he.pass_absorbed, registry_after]

theorem handedOut_absorbed :
    (e.after (.urgent w)).handedOut (.normal w) = e.handedOut (.normal w) := by
  rw [(normalCycle_pass _ w).2.1, he.pass_absorbed, (normalCycle_pass _ w).2.1]

end Sound

/-- Whatever a host did with an engine before, an urgent cycle is absorbed by a normal
    cycle over the same world. The normal cycle reports the same as without the
    urgent one and hands out the same levels in the same order, and it leaves
    behind the same engine, but for the number of urgent cycles. -/
theorem absorbed_history {s : Setup} (hs : s.registry.Loaded) (ops : List Operation) (w : World) :
    let e := (start s).history ops
    let f := e.after (.urgent w)
    (f.normalCycle w).1 = (e.normalCycle w).1 ∧
      f.handedOut (.normal w) = e.handedOut (.normal w) ∧
      (e.after (.normal w)).Alike (f.after (.normal w)) ∧
      (f.after (.normal w)).urgentCycles = (e.after (.normal w)).urgentCycles + 1 := by
  intro e f
  have he : e.Sound := (Sound.start hs).history ops
  refine ⟨he.report_absorbed w, he.handedOut_absorbed w, he.alike_absorbed w, ?_⟩
  rw [(f.counters_after_normal w).2.2, (e.counters_after_urgent w).2.2,
    (e.counters_after_normal w).2.2]

/-- On a farm that remembers nothing someone has just asked for the workers, after two
    ticks and a new way to count the stores. -/
theorem absorbed_history_farm :
    let w := Farm.world 7 [Farm.worker 1, Farm.resting 2]
    let s : Setup := { Farm.setup with config := { cacheLifetime := 0 } }
    let e := (start s).history [.tick (Farm.world 5 []), .tick (Farm.world 6 [Farm.worker 1]),
      .register .objectCount fun _ _ => .ok { members := [] }, .call (.evaluate w "headcount")]
    let f := e.after (.urgent w)
    (f.normalCycle w).1 = (e.normalCycle w).1 ∧
      f.handedOut (.normal w) = e.handedOut (.normal w) ∧
      (e.after (.normal w)).Alike (f.after (.normal w)) ∧
      (f.after (.normal w)).urgentCycles = (e.after (.normal w)).urgentCycles + 1 := by
  intro w s
  exact absorbed_history (s := s) Farm.registry_loaded _ w

end Absorption

end Engine
end WorkPriority
