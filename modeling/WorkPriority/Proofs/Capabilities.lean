import WorkPriority.Proofs.BoundedStaleness
import WorkPriority.Proofs.Histories
import WorkPriority.Proofs.Readings

/-!
# Capabilities

A rule may look up what a signal is broken down by only if the signal has such a
breakdown, and this is checked once, when the definitions are loaded. What the
check has passed is never missing afterwards (`Engine.lookups_history`).

The check reads the definition of a signal, and a look-up its published value, so
the two have to be brought together. A value may be published long after it was
measured: it may have been taken from the cache, or have been left in place by
cycles that did not cover the signal. But every value of a valid signal, in the
cache or in the snapshot, was measured in a world that somebody has shown the
engine (`Engine.Traced`). So whatever the definition promises is there.
-/

namespace WorkPriority

/-! ### What was checked -/

/-- The look-ups of a rule are those among its conditions. -/
theorem Rule.mem_lookups {q : Rule} {signal : String} {mode : RequestMode} :
    (signal, mode) ∈ q.lookups ↔ Condition.lookup signal mode ∈ q.conditions := by
  rw [lookups, List.mem_filterMap]
  constructor
  · rintro ⟨c, hc, hsome⟩
    cases c with
    | gate f => cases hsome
    | modifier key ranges => cases hsome
    | lookup signal' mode' =>
      obtain ⟨rfl, rfl⟩ := Prod.mk.inj (Option.some.inj hsome)
      exact hc
  · exact fun hc => ⟨_, hc, rfl⟩

namespace Registry

/-- A valid rule looks a stored signal up only as far as that has the capability. -/
theorem Loaded.capability_of_lookup {r : Registry} (hr : r.Loaded) {q : Rule}
    (hq : q ∈ r.validRules) {t : Signal} (ht : t ∈ r.signals) {mode : RequestMode}
    (hmem : (t.name, mode) ∈ q.lookups) {k : Capability} (hk : mode.capability? = some k) :
    k.isOf t = true := by
  have hissues := hr.ruleIssues_of_valid hq
  rw [ruleIssues, List.append_eq_nil_iff, List.append_eq_nil_iff] at hissues
  obtain ⟨⟨-, hblank⟩, hlookups⟩ := hissues
  have hname : Text.isBlankText t.name = false := by
    have h := List.flatMap_eq_nil_iff.1 hblank _ (Rule.mem_lookups.1 hmem)
    by_contra hb
    rw [blankIssues, if_pos (by simpa using hb)] at h
    exact List.cons_ne_nil _ _ h
  have h := List.flatMap_eq_nil_iff.1 hlookups _ hmem
  by_contra hno
  simp only [lookupIssues, hname, hr.distinct.signal?_of_mem ht, hk, hno, Bool.false_eq_true,
    if_false] at h
  exact List.cons_ne_nil _ _ h

end Registry

/-! ### Standard evaluators -/

/-- An operation leaves the standard evaluators in place. -/
def Operation.KeepsStandard : Operation → Prop
  | register kind f => Evaluators.standard kind = some f
  | call _ | tick _ | provide _ => True

theorem Evaluators.replace_self {es : Evaluators} {kind : SourceKind} {f : Evaluator}
    (h : es kind = some f) : es.replace kind f = es := by
  funext k
  rw [replace]
  split
  · rename_i hk
    rw [hk, h]
  · rfl

namespace Engine

theorem evaluators_perform {e : Engine} (he : e.setup.evaluators = .standard) {op : Operation}
    (hop : op.KeepsStandard) : (e.perform op).setup.evaluators = .standard := by
  cases op with
  | call c => exact (congrArg Setup.evaluators (e.setup_after c)).trans he
  | tick w => exact (congrArg Setup.evaluators (e.setup_tick w)).trans he
  | provide m => exact he
  | register kind f =>
    have hreplace : e.setup.evaluators.replace kind f = .standard := by
      rw [he]
      exact Evaluators.replace_self hop
    exact hreplace

theorem evaluators_history {e : Engine} (he : e.setup.evaluators = .standard)
    {ops : List Operation} (hops : ∀ op ∈ ops, op.KeepsStandard) :
    (e.history ops).setup.evaluators = .standard := by
  refine history_induct (P := fun f => f.setup.evaluators = .standard) ?_ (fun _ h => h) ?_ he
  · exact fun f _ _ c _ h => (congrArg Setup.evaluators (f.setup_after c)).trans h
  · exact fun _ op hop _ h => evaluators_perform h (hops op hop)

/-! ### Where values come from -/

/-- A value is that of a signal in a world that was shown. -/
def MeasuredIn (shown : World → Prop) (t : Signal) (v : SignalValue Float) : Prop :=
  ∃ w, shown w ∧ v = Evaluators.standard.valueOrZero w t

/-- Of a signal an engine with the standard evaluators has no other values than those of
    worlds that were shown, and from the first normal cycle on it has published one. -/
structure Traced (shown : World → Prop) (r : Registry) (t : Signal) (e : Engine) : Prop where
  registry : e.registry = r
  evaluators : e.setup.evaluators = .standard
  distinct : e.cache.slots.Distinct
  cached : ∀ tick v, e.cache.slots.get? t.name = some (tick, v) → MeasuredIn shown t v
  published : ∀ v, e.signals.value? t.name = some v → MeasuredIn shown t v
  complete : 0 < e.normalCycles → (e.signals.value? t.name).isSome = true

theorem traced_start (shown : World → Prop) {s : Setup} (hs : s.evaluators = .standard)
    (t : Signal) : Traced shown s.registry t (start s) where
  registry := rfl
  evaluators := hs
  distinct := Keyed.distinct_empty
  cached _ _ h := absurd h.symm (Option.some_ne_none _)
  published _ h := absurd h.symm (Option.some_ne_none _)
  complete h := absurd h (Nat.lt_irrefl 0)

/-- What is in the slot of a signal after a cycle that covers it is what the cycle has
    published. -/
theorem value_of_slot_after_of_covered {e : Engine} {t : Signal} (hr : e.registry.Distinct)
    (hd : e.cache.slots.Distinct) (hv : e.registry.isValidSignal t.name = true) {c : Call}
    (ht : t ∈ c.signals e.registry) {tick : Nat} {v : SignalValue Float}
    (h : (e.after c).cache.slots.get? t.name = some (tick, v)) : v = (e.refresh c.world t).1 := by
  have hnames := Call.nodup_signals hr c
  cases c with
  | normal w =>
    have hslot := slot_refreshAll_of_mem (w := w) hnames ht hv
    rw [cache_after_normal, Cache.slot_purge (distinct_refreshAll hd w _),
      Option.filter_eq_some_iff] at h
    exact (Prod.mk.inj (Option.some.inj (h.1.symm.trans hslot))).2
  | urgent w =>
    have hslot := slot_refreshAll_of_mem (w := w) hnames ht hv
    exact (Prod.mk.inj (Option.some.inj (h.symm.trans hslot))).2
  | evaluate w name => exact absurd ht List.not_mem_nil

namespace Traced

variable {shown : World → Prop} {r : Registry} {t : Signal} {e : Engine}
  (hr : r.Distinct) (ht : t ∈ r.signals) (hv : r.isValidSignal t.name = true)

include hv in
/-- A cycle measures the signal, or takes from the cache what was measured before. -/
theorem refresh (h : Traced shown r t e) {w : World} (hw : shown w) :
    MeasuredIn shown t (e.refresh w t).1 := by
  rw [refresh_fst, h.registry, h.evaluators, if_pos hv]
  cases hstored : e.cache.stored? t.name w.tick with
  | none => exact ⟨w, hw, rfl⟩
  | some v => exact h.cached _ _ (Cache.stored?_eq_some_iff.1 hstored)

include hr ht hv

theorem after (h : Traced shown r t e) {c : Call} (hc : shown c.world) :
    Traced shown r t (e.after c) := by
  have hreg := h.registry
  rw [← hreg] at hr ht hv
  constructor
  case registry => exact (e.registry_after c).trans hreg
  case evaluators => exact (congrArg Setup.evaluators (e.setup_after c)).trans h.evaluators
  case distinct => exact distinct_slots_after h.distinct c
  case cached =>
    intro tick v hslot
    by_cases hasks : c.AsksFor e.registry t
    · rcases hasks with hcov | ⟨w, rfl⟩
      · rw [value_of_slot_after_of_covered hr h.distinct hv hcov hslot]
        exact h.refresh (hreg ▸ hv) hc
      · rw [slot_after_evaluate (hr.signal?_of_mem ht) hv, h.evaluators] at hslot
        split at hslot
        · exact ⟨w, hc, (Prod.mk.inj (Option.some.inj hslot)).2.symm⟩
        · exact h.cached tick v hslot
    · rw [slot_after_of_unasked hr ht hasks] at hslot
      exact h.cached tick v hslot
  case published =>
    intro v hvalue
    by_cases hcov : t ∈ c.signals e.registry
    · rw [value?_after_of_covered hr hcov] at hvalue
      exact Option.some.inj hvalue ▸ h.refresh (hreg ▸ hv) hc
    · rw [value?_after_of_uncovered hr ht hcov] at hvalue
      exact h.published v hvalue
  case complete =>
    intro hcount
    by_cases hcov : t ∈ c.signals e.registry
    · rw [value?_after_of_covered hr hcov]
      rfl
    · rw [value?_after_of_uncovered hr ht hcov]
      refine h.complete ?_
      -- A normal cycle would have covered the signal.
      cases c with
      | normal w => exact absurd ht hcov
      | urgent w => exact (e.counters_after_urgent w).2.1 ▸ hcount
      | evaluate w name => exact (e.counters_after_evaluate w name).2.1 ▸ hcount

theorem history (h : Traced shown r t e) {ops : List Operation}
    (hops : ∀ op ∈ ops, op.KeepsStandard ∧ ∀ w, op.world? = some w → shown w) :
    Traced shown r t (e.history ops) := by
  refine history_induct (P := Traced shown r t) ?_ ?_ ?_ h
  · exact fun e op hop c hc h => h.after hr ht hv ((hops op hop).2 _ hc)
  · exact fun e h =>
      ⟨h.registry, h.evaluators, h.distinct, h.cached, h.published, h.complete⟩
  · intro e op hop hnone h
    have hevaluators := evaluators_perform h.evaluators (hops op hop).1
    obtain ⟨_, _, hperform⟩ := e.perform_of_no_world hnone
    rw [hperform] at hevaluators ⊢
    exact ⟨h.registry, hevaluators, h.distinct, h.cached, h.published, h.complete⟩

end Traced

/-! ### What look-ups find -/

/-- An engine with the standard evaluators, after at least one normal cycle and
    whatever else was done over worlds without two agents of one id.

    The evaluators do not fail. Each valid signal has a published value, with just
    the breakdowns that its definition promises, and it is the value of a population
    in a world that was shown. A look-up of the signal by a valid rule then finds
    something, for every agent of any world, if it is about the world or a zone; and
    if it is about the agent, it finds nothing just if the agent was not measured in
    that population. -/
theorem lookups_history {s : Setup} (hs : s.registry.Loaded) (hstandard : s.evaluators = .standard)
    {ops : List Operation}
    (hops : ∀ op ∈ ops, op.KeepsStandard ∧ ∀ w, op.world? = some w → w.DistinctAgents)
    (hnormal : 0 < ((start s).history ops).normalCycles) :
    let e := (start s).history ops
    (∀ kind, ∃ f, e.setup.evaluators kind = some f ∧
      ∀ w t, t.source.kind = kind → ∃ p, f w t = .ok p) ∧
    ∀ t ∈ s.registry.signals, s.registry.isValidSignal t.name = true →
      ∃ v w p, e.signals.value? t.name = some v ∧
        v.zones.isSome = t.hasZones ∧ v.agents.isSome = t.hasAgents ∧
        (∃ op ∈ ops, op.world? = some w) ∧ Evaluators.standard.population w t = .ok p ∧
        v = .ofMembers w t p.members ∧
        ∀ q ∈ s.registry.validRules, ∀ mode, (t.name, mode) ∈ q.lookups →
          ∀ (w' : World) (a : Agent),
            (mode = .total ∨ mode = .zoneOfAgent →
              ((e.context w').resolve? t.name mode a).isSome = true) ∧
            (mode = .agent ∨ mode = .distance ∨ mode = .normalizedRank →
              ((e.context w').resolve? t.name mode a = none ↔ Member.IsMissing p.members a.id)) := by
  intro e
  have hevaluators : e.setup.evaluators = .standard :=
    evaluators_history hstandard fun op hop => (hops op hop).1
  refine ⟨fun kind => ?_, fun t ht hv => ?_⟩
  · obtain ⟨f, hf⟩ := Evaluators.standard_complete kind
    exact ⟨f, hevaluators ▸ hf, fun w t ht => Evaluators.standard_ok hf w ht⟩
  · let shown (w : World) : Prop := (∃ op ∈ ops, op.world? = some w) ∧ w.DistinctAgents
    have hshown : ∀ op ∈ ops, op.KeepsStandard ∧ ∀ w, op.world? = some w → shown w :=
      fun op hop => ⟨(hops op hop).1, fun w hw => ⟨⟨op, hop, hw⟩, (hops op hop).2 w hw⟩⟩
    have h : Traced shown s.registry t e :=
      (traced_start shown hstandard t).history hs.distinct ht hv hshown
    obtain ⟨v, hvalue⟩ := Option.isSome_iff_exists.1 (h.complete hnormal)
    obtain ⟨w, ⟨hop, hw⟩, rfl⟩ := h.published v hvalue
    obtain ⟨p, hp⟩ := Evaluators.standard_measures w t
    rw [Evaluators.valueOrZero_standard hp] at hvalue
    have hd := Evaluators.nodup_agents_standard hw hp
    refine ⟨_, w, p, hvalue, SignalValue.zones_isSome_ofMembers ..,
      SignalValue.agents_isSome_ofMembers .., hop, hp, rfl, fun q hq mode hmem w' a => ?_⟩
    have hcapability : ∀ k, mode.capability? = some k → k.isOf t = true := fun k hk =>
      hs.capability_of_lookup hq ht hmem hk
    constructor
    · exact fun hmode => Context.resolve?_isSome hvalue hcapability hmode a
    · exact fun hmode => Context.resolve?_eq_none_iff hvalue hcapability hd hmode a

end Engine

namespace Farm

/-- How strong everyone is. -/
def strength : Signal :=
  { name := "strength", source := .agentAttribute "strength", individualizable := true }

/-- Who is stronger than the others carries in more. -/
def lifting : Rule where
  name := "lifting"
  conditions := [.lookup "strength" .distance]
  ranges := [⟨⟨-5.0, 5.0⟩, ⟨0.0, 100.0⟩, "strong"⟩]
  targets := [.category "hauling"]

/-- What the engine of a farm is built from on which strength is measured. -/
def lifters : Setup :=
  { config := {}, registry := .ofParts [strength] [lifting] [{ name := "hauling" }] [] }

/-- Someone whose strength is known. -/
def lifter (n : Nat) : Agent := { worker n with attributes := .ofList [("strength", 3.0)] }

end Farm

namespace Engine

/-- Of two on a farm the strength of one is known. The rule finds how far that one is
    above the mean, and nothing for the other. -/
theorem lookups_history_farm :
    let w := Farm.world 5 [Farm.lifter 1, Farm.worker 2]
    let e := (start Farm.lifters).history [.tick w, .call (.normal w)]
    (e.context w).resolve? "strength" .distance (Farm.worker 2) = none ∧
      (e.context w).resolve? "strength" .distance (Farm.lifter 1) ≠ none := by
  intro w e
  have hops : ∀ op ∈ [Operation.tick w, .call (.normal w)],
      op.KeepsStandard ∧ ∀ w, op.world? = some w → w.DistinctAgents := by
    have hw : w.DistinctAgents := (by decide : [(⟨1⟩ : AgentId), ⟨2⟩].Nodup)
    simp only [List.mem_cons, List.not_mem_nil, or_false, forall_eq_or_imp, forall_eq]
    exact ⟨⟨trivial, fun _ h => Option.some.inj h ▸ hw⟩, ⟨trivial, fun _ h => Option.some.inj h ▸ hw⟩⟩
  have hnormal : 0 < e.normalCycles :=
    (((start Farm.lifters).perform (.tick w)).counters_after_normal w).2.1 ▸ Nat.succ_pos _
  have hstrength : Farm.strength ∈ Farm.lifters.registry.signals := List.mem_cons_self
  have hlifting : Farm.lifting ∈ Farm.lifters.registry.validRules := List.mem_cons_self
  obtain ⟨-, hsignals⟩ := lookups_history (s := Farm.lifters) (.ofParts ..) rfl hops hnormal
  obtain ⟨v, w', p, -, -, -, ⟨op, hop, hw'⟩, hp, -, hlookups⟩ := hsignals _ hstrength (by decide)
  have hw : w = w' := by
    simp only [List.mem_cons, List.not_mem_nil, or_false] at hop
    rcases hop with rfl | rfl
    all_goals exact Option.some.inj hw'
  subst hw
  have hmiss (a : Agent) := (hlookups _ hlifting _ List.mem_cons_self w a).2 (.inr (.inl rfl))
  obtain rfl : _ = p := Except.ok.inj hp
  constructor
  · exact (hmiss _).2 (.inr ⟨_, List.mem_cons_of_mem _ List.mem_cons_self, rfl, by decide +kernel⟩)
  · intro hnone
    rcases (hmiss _).1 hnone with habsent | ⟨m, hm, hagent, hinvalid⟩
    · exact habsent _ List.mem_cons_self rfl
    · rcases List.mem_cons.1 hm with rfl | hm
      · exact absurd hinvalid (by decide +kernel)
      · rw [List.mem_singleton.1 hm] at hagent
        exact absurd hagent (by decide)

end Engine
end WorkPriority
