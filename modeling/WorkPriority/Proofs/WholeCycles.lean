import WorkPriority.Proofs.Conditions
import WorkPriority.Proofs.LastWriter

/-!
# Cycles are whole

A normal cycle leaves nothing out, whatever fails in it
(`Engine.normalCycle_whole`). Evaluators and providers may fail wherever they
are asked, and what fails counts as zero. But it does count: the snapshot has a
value of every stored signal and of nothing else, the table a score of every
valid rule for every agent of the world and of nothing else, and the breakdown
of an agent that is not paused has every category that is open to it, once.
-/

namespace WorkPriority

/-! ### What fails -/

/-- A look-up of a modifier that fails makes the whole rule fail. -/
theorem Rule.scoreFor_of_failing_modifier {c : Context} {q : Rule} {a : Agent}
    (hgates : q.passesGates c.world a = true) {key : String} {ranges : List ModifierRange}
    (hmem : Condition.modifier key ranges ∈ q.conditions) {err : EvaluationError}
    (herr : c.modifiers.lookup a key = .error err) : ∃ err', q.scoreFor c a = .error err' := by
  have hmodifier : (key, ranges) ∈ q.modifiers := List.mem_filterMap.2 ⟨_, hmem, rfl⟩
  have hrefusal : (q.modifiers.findSome? (c.refusal? a)).isSome = true :=
    List.findSome?_isSome_iff.2 ⟨_, hmodifier, by rw [c.refusal?_of_error a herr]; rfl⟩
  -- The first refusal is the result, though it may be that of an earlier modifier.
  obtain ⟨err', herr'⟩ := Option.isSome_iff_exists.1 hrefusal
  exact ⟨err', by rw [scoreFor_eq, if_pos hgates, herr']⟩

theorem Rule.scoreOrZero_of_error {c : Context} {q : Rule} {a : Agent} {err : EvaluationError}
    (h : q.scoreFor c a = .error err) : q.scoreOrZero c a = .zero := by
  rw [scoreOrZero, h]

theorem Evaluators.valueOrZero_of_error {es : Evaluators} {w : World} {s : Signal}
    {err : EvaluationError} (h : es.value w s = .error err) : es.valueOrZero w s = .zero := by
  rw [valueOrZero, h]

/-! ### What is there nevertheless -/

/-- The breakdown of an agent has every category that is open to it, and no
    other. -/
theorem AgentBreakdown.categories_ofPlans_perm (mode : LevelMode) (plans : List Plan)
    (bonuses : List AffinityBonus) (tick : Nat) (a : Agent) (scores : ScoreRow) :
    ((ofPlans mode plans bonuses tick a scores).categories.map (·.category)).Perm
      ((plans.filter fun p => p.isOpenTo a).map (·.name)) := by
  refine (rankBreakdowns_perm (fun _ _ _ => rfl) mode _).trans (.of_eq ?_)
  rw [List.map_map]
  rfl

namespace Engine

variable {e : Engine} {w : World}

theorem value?_isSome_after_normal (hr : e.registry.Distinct) (name : String) :
    ((e.after (.normal w)).signals.value? name).isSome = true ↔
      ∃ s ∈ e.registry.signals, s.name = name := by
  constructor
  · intro h
    by_contra hname
    have hunknown : ∀ s ∈ e.registry.signals, s.name ≠ name := fun s hs hn => hname ⟨s, hs, hn⟩
    rw [signals_after_normal, Snapshot.ofValues, Snapshot.value?_merge,
      lookup_refreshAll_eq_none e w e.registry.signals hr.signals hunknown] at h
    exact absurd h Bool.false_ne_true
  · rintro ⟨s, hs, rfl⟩
    rw [value?_after_of_covered hr (c := .normal w) hs]
    rfl

theorem score?_isSome_after_normal (hr : e.registry.Distinct) (hw : w.DistinctAgents)
    (id : AgentId) (name : String) : ((e.after (.normal w)).score? id name).isSome = true ↔
      id ∈ w.agentIds ∧ e.registry.isValidRule name = true := by
  rw [hr.isValidRule_iff]
  constructor
  · intro h
    constructor
    · by_contra hid
      rw [score?_after_of_absent (c := .normal w) trivial hid] at h
      exact absurd h Bool.false_ne_true
    · by_contra hname
      have huncovered : ∀ q ∈ e.registry.validRules, q.name ≠ name :=
        fun q hq hn => hname ⟨q, hq, hn⟩
      rw [score?, scores_after_normal,
        ScoreTable.get?_ofRules_of_uncovered _ huncovered] at h
      exact absurd h Bool.false_ne_true
  · rintro ⟨hid, q, hq, rfl⟩
    obtain ⟨a, ha, rfl⟩ := List.mem_map.1 hid
    rw [score?_after_of_covered (c := .normal w) hr hw hq ha]
    rfl

/-- A normal cycle is whole, whatever fails in it. Every stored signal has a
    value, every valid rule a score for every agent of the world, and every
    agent that is not paused a breakdown with all the categories that are open
    to it, each of them once; and there is nothing else. A signal that is
    invalid, or fails and was not measured on this tick before, is zero, and so
    is a score that fails. -/
theorem normalCycle_whole (hr : e.registry.Loaded) (hw : w.DistinctAgents) :
    let f := e.after (.normal w)
    (∀ name, (f.signals.value? name).isSome = true ↔ ∃ s ∈ e.registry.signals, s.name = name) ∧
    (∀ s ∈ e.registry.signals,
      (e.registry.isValidSignal s.name = false → f.signals.value? s.name = some .zero) ∧
      ∀ err, e.setup.evaluators.value w s = .error err → e.cache.stored? s.name w.tick = none →
        f.signals.value? s.name = some .zero) ∧
    (∀ id name, (f.score? id name).isSome = true ↔
      id ∈ w.agentIds ∧ e.registry.isValidRule name = true) ∧
    (∀ a ∈ w.agents, ∀ q ∈ e.registry.validRules, ∀ err,
      q.scoreFor (f.context w) a = .error err → f.score? a.id q.name = some .zero) ∧
    ∀ a ∈ w.agents, a.paused = false → ∃ b, f.agentBreakdown? a.id = some b ∧
      (b.categories.map (·.category)).Nodup ∧
      (b.categories.map (·.category)).Perm ((e.registry.plans.filter fun p =>
        p.category.enabled && !a.disabledCategories.contains p.name).map (·.name)) := by
  intro f
  have hd := hr.distinct
  refine ⟨value?_isSome_after_normal hd, fun s hs => ?_, score?_isSome_after_normal hd hw,
    fun a ha q hq err herr => ?_, fun a ha hp => ?_⟩
  · have hvalue : f.signals.value? s.name = some (e.refresh w s).1 :=
      value?_after_of_covered hd (c := .normal w) hs
    rw [hvalue, refresh_fst]
    constructor
    · intro hinvalid
      rw [hinvalid]
      rfl
    · intro err herr hcache
      rw [hcache, Evaluators.valueOrZero_of_error herr]
      split
      · rfl
      · rfl
  · have hscore : f.score? a.id q.name = some (q.scoreOrZero (f.context w) a) :=
      score?_after_of_covered (c := .normal w) hd hw hq ha
    rw [hscore, Rule.scoreOrZero_of_error herr]
  · refine ⟨_, agentBreakdown?_of_unpaused e hw ha hp, ?_, ?_⟩
    · exact AgentBreakdown.nodup_categories_ofPlans hd.plans ..
    · exact AgentBreakdown.categories_ofPlans_perm ..

/-- On a farm where nobody can see the stores, nor whether anyone is in the
    mood, one of two has a rest. -/
theorem normalCycle_whole_farm :
    let blind : Evaluators :=
      .replace .standard .objectCount fun _ g => .error (.source g.name "no light")
    let mute : ModifierProvider :=
      ⟨"moods", fun _ key => if key = "mood" then .error (.provider key "no reply") else .ok none⟩
    let w := Farm.world 1 [Farm.worker 1, Farm.resting 2]
    let f := (start { Farm.setup with evaluators := blind, modifiers := mute }).after (.normal w)
    f.signals.value? "stores" = some .zero ∧
      f.score? ⟨1⟩ "hunger" = some .zero ∧ (f.score? ⟨2⟩ "crowding").isSome = true ∧
      ∃ b, f.agentBreakdown? ⟨1⟩ = some b ∧
        (b.categories.map (·.category)).Perm ["cooking", "hauling"] := by
  intro blind mute w f
  have hhunger : Farm.hunger ∈ Farm.registry.validRules :=
    List.mem_cons_of_mem _ List.mem_cons_self
  obtain ⟨-, hzero, hsome, hscore, hranked⟩ := normalCycle_whole
    (e := start { Farm.setup with evaluators := blind, modifiers := mute }) (w := w)
    Farm.registry_loaded (by decide : [(⟨1⟩ : AgentId), ⟨2⟩].Nodup)
  refine ⟨(hzero Farm.stores ?_).2 _ rfl rfl, ?_, (hsome ⟨2⟩ "crowding").2 ⟨?_, rfl⟩, ?_⟩
  · exact List.mem_cons_of_mem _ List.mem_cons_self
  · have hmute : (f.context w).modifiers.lookup (Farm.worker 1) "mood" =
        .error (.provider "mood" "no reply") := by
      rw [context, setup_after]
      rfl
    obtain ⟨err, herr⟩ := Rule.scoreFor_of_failing_modifier (q := Farm.hunger) rfl
      (List.mem_cons_of_mem _ List.mem_cons_self) hmute
    exact hscore (Farm.worker 1) List.mem_cons_self Farm.hunger hhunger err herr
  · exact List.mem_cons_of_mem _ List.mem_cons_self
  · obtain ⟨b, hb, -, hperm⟩ := hranked (Farm.worker 1) List.mem_cons_self rfl
    exact ⟨b, hb, hperm⟩

end Engine
end WorkPriority
