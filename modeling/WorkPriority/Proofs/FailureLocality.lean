import WorkPriority.Proofs.Runs

/-!
# Failures stay local

Of two engines one may have a source that fails where that of the other does
not, and one provider may have another answer under some key, or none. What
does not depend on that source and that key is the same in both
(`Engine.run_agree`), whatever the host calls: the values of the signals of other
sources, the scores of the rules that look up neither such a signal nor the key,
and of every breakdown the categories whose plans list no other rules. Only the
places of the categories may differ, since all of them share one order.

The places where engines may differ are a *fault* (`Fault`), and what may depend
on them is *tainted*. The proof is a simulation: a call takes engines that agree
on all that is not tainted to engines that do (`Engine.Agree.after`). To agree is
also to have the same in the cache under the names of signals that are not
tainted, since a value may be taken from there at any time.
-/

namespace WorkPriority

/-- Where two engines may differ. -/
structure Fault where
  /-- The kind of source with another evaluator. -/
  kind : SourceKind
  /-- The key with another answer of the provider of modifiers. -/
  key : String

/-! ### What is tainted -/

namespace Fault

variable (x : Fault) (r : Registry)

/-- A name is tainted if it is that of a signal of the source. -/
def TaintsSignal (name : String) : Prop := ∃ s, r.signal? name = some s ∧ s.source.kind = x.kind

/-- A rule is tainted if it looks up a tainted signal, or the key. -/
def TaintsRule (rule : Rule) : Prop :=
  (∃ name mode, Condition.lookup name mode ∈ rule.conditions ∧ x.TaintsSignal r name) ∨
    ∃ ranges, Condition.modifier x.key ranges ∈ rule.conditions

/-- The name of a rule is tainted if the rule is. -/
def TaintsName (name : String) : Prop := ∃ rule ∈ r.rules, rule.name = name ∧ x.TaintsRule r rule

/-- A plan is tainted if it lists a tainted rule. -/
def TaintsPlan (p : Plan) : Prop := ∃ e ∈ p.entries, x.TaintsName r e.1

/-- Two engines are built alike but for the fault. -/
structure Separates (s t : Setup) : Prop where
  config : s.config = t.config
  registry : s.registry = t.registry
  evaluators : ∀ kind, kind ≠ x.kind → s.evaluators kind = t.evaluators kind
  modifiers : ∀ a key, key ≠ x.key → s.modifiers.lookup a key = t.modifiers.lookup a key

end Fault

variable {x : Fault} {s t : Setup}

/-! ### Measuring -/

theorem Evaluators.valueOrZero_congr {es fs : Evaluators} {g : Signal}
    (h : es g.source.kind = fs g.source.kind) (w : World) :
    es.valueOrZero w g = fs.valueOrZero w g := by
  have hpop : es.population w g = fs.population w g := by rw [population, population, h]
  rw [valueOrZero, valueOrZero, value, value, hpop]

theorem Fault.Separates.valueOrZero (h : x.Separates s t) {r : Registry} {g : Signal}
    (hg : r.signal? g.name = some g) (hx : ¬x.TaintsSignal r g.name) (w : World) :
    s.evaluators.valueOrZero w g = t.evaluators.valueOrZero w g := by
  refine Evaluators.valueOrZero_congr (h.evaluators _ fun hk => hx ?_) w
  exact ⟨g, hg, hk⟩

/-! ### Scoring -/

/-- What rules read is the same, but for what is tainted. -/
structure Context.Agree (x : Fault) (r : Registry) (c d : Context) : Prop where
  world : c.world = d.world
  neutralScore : c.neutralScore = d.neutralScore
  signals : ∀ name, ¬x.TaintsSignal r name → c.signals.value? name = d.signals.value? name
  modifiers : ∀ a key, key ≠ x.key → c.modifiers.lookup a key = d.modifiers.lookup a key

/-- A rule that is not tainted gives the same scores. -/
theorem Context.Agree.scoreOrZero {r : Registry} {c d : Context} (h : c.Agree x r d) {q : Rule}
    (hq : ¬x.TaintsRule r q) (a : Agent) : q.scoreOrZero c a = q.scoreOrZero d a := by
  refine Rule.scoreOrZero_congr (h.world ▸ rfl) h.neutralScore ?_ ?_
  · intro name mode hmem
    have hname : ¬x.TaintsSignal r name := fun hx => hq (.inl ⟨name, mode, hmem, hx⟩)
    rw [Context.resolve?, Context.resolve?, h.signals name hname, h.world]
  · intro key ranges hmem
    exact h.modifiers a key fun he => hq (.inr ⟨ranges, he ▸ hmem⟩)

theorem Context.Agree.get?_ofRules {r : Registry} {c d : Context} (h : c.Agree x r d)
    {rules : List Rule} (hrules : rules ⊆ r.rules) {name : String} (hname : ¬x.TaintsName r name)
    (id : AgentId) : (ScoreTable.ofRules c rules).get? id name =
      (ScoreTable.ofRules d rules).get? id name := by
  rw [ScoreTable.get?_ofRules, ScoreTable.get?_ofRules, h.world]
  refine congrArg _ (funext fun a => ?_)
  cases hq : rules.reverse.find? fun q => q.name == name with
  | none => rfl
  | some q =>
    have hmem : q ∈ r.rules := hrules (List.mem_reverse.1 (List.mem_of_find?_eq_some hq))
    have hn : q.name = name := by simpa using List.find?_some hq
    exact congrArg some (h.scoreOrZero (fun hx => hname ⟨q, hmem, hn, hx⟩) a)

/-! ### Caches -/

namespace Engine

variable {e f : Engine}

/-- Two engines are built alike but for the fault, and have the same in their
    caches under names that are not tainted. -/
structure CachesAgree (x : Fault) (e f : Engine) : Prop where
  setups : x.Separates e.setup f.setup
  lifetime : e.cache.lifetime = f.cache.lifetime
  distinct : e.cache.slots.Distinct ∧ f.cache.slots.Distinct
  slots : ∀ name, ¬x.TaintsSignal e.registry name →
    e.cache.slots.get? name = f.cache.slots.get? name

namespace CachesAgree

variable (h : e.CachesAgree x f)

include h

theorem registry : e.registry = f.registry := h.setups.registry

theorem policy : e.policy = f.policy := by
  rw [Engine.policy, Engine.policy, h.registry, h.setups.config]

/-- A signal that is not tainted is measured alike. -/
theorem refresh_fst (w : World) {g : Signal} (hg : e.registry.signal? g.name = some g)
    (hx : ¬x.TaintsSignal e.registry g.name) : (e.refresh w g).1 = (f.refresh w g).1 := by
  rw [Engine.refresh_fst, Engine.refresh_fst, Cache.stored?_congr _ (h.slots _ hx), h.registry,
    h.setups.valueOrZero hg hx]

theorem refresh (w : World) {g : Signal} (hg : e.registry.signal? g.name = some g) :
    (e.refresh w g).2.CachesAgree x (f.refresh w g).2 := by
  refine ⟨?_, ?_, ⟨distinct_refresh w h.distinct.1 g, distinct_refresh w h.distinct.2 g⟩, ?_⟩
  · rw [setup_refresh, setup_refresh]
    exact h.setups
  · rw [lifetime_refresh, lifetime_refresh, h.lifetime]
  · intro name hname
    rw [Engine.registry, setup_refresh] at hname
    rw [slot_refresh, slot_refresh, h.slots name hname, h.registry]
    split
    · -- Only a name that is not tainted is looked at, so `g` is not.
      rename_i hn
      rw [h.refresh_fst w hg (hn.1 ▸ hname)]
    · rfl

theorem refreshAll (w : World) {ss : List Signal}
    (hss : ∀ g ∈ ss, e.registry.signal? g.name = some g) :
    (e.refreshAll w ss).2.CachesAgree x (f.refreshAll w ss).2 := by
  induction ss generalizing e f with
  | nil => exact h
  | cons g ss ih =>
    rw [refreshAll_cons, refreshAll_cons]
    refine ih (h.refresh w (hss g List.mem_cons_self)) fun g' hg' => ?_
    rw [Engine.registry, setup_refresh]
    exact hss g' (List.mem_cons_of_mem _ hg')

/-- A cycle gets the same values under names that are not tainted. -/
theorem lookup_refreshAll (w : World) {ss : List Signal} (hd : (ss.map (·.name)).Nodup)
    (hss : ∀ g ∈ ss, e.registry.signal? g.name = some g) {name : String}
    (hname : ¬x.TaintsSignal e.registry name) :
    Keyed.lookup name (e.refreshAll w ss).1.reverse =
      Keyed.lookup name (f.refreshAll w ss).1.reverse := by
  rw [refreshAll_fst e w hd, refreshAll_fst f w hd, ← List.map_reverse, ← List.map_reverse]
  refine Keyed.lookup_map_congr fun g hg hn => ?_
  exact h.refresh_fst w (hss g (List.mem_reverse.1 hg)) (hn ▸ hname)

theorem evaluate (hr : e.registry.Distinct) (w : World) (name : String) :
    (e.evaluate w name).2.CachesAgree x (f.evaluate w name).2 := by
  have hsetup (e : Engine) : (e.evaluate w name).2.setup = e.setup :=
    e.setup_after (.evaluate w name)
  refine ⟨?_, ?_, ⟨distinct_evaluate w h.distinct.1 name,
    distinct_evaluate w h.distinct.2 name⟩, ?_⟩
  · rw [hsetup, hsetup]
    exact h.setups
  · rw [lifetime_evaluate, lifetime_evaluate, h.lifetime]
  · intro n hn
    rw [Engine.registry, hsetup] at hn
    rw [slot_evaluate, slot_evaluate, h.slots n hn, ← h.registry]
    cases hg : e.registry.signal? name with
    | none => rfl
    | some g =>
      obtain ⟨-, hgn⟩ := hr.signal?_eq_some_iff.1 hg
      by_cases hnn : n = name
      · subst hnn
        have hget : e.cache.get? n w.tick = f.cache.get? n w.tick :=
          Cache.get?_congr _ h.lifetime (h.slots n hn)
        have hvalue : e.setup.evaluators.valueOrZero w g = f.setup.evaluators.valueOrZero w g :=
          h.setups.valueOrZero (hgn.symm ▸ hg) (hgn.symm ▸ hn) w
        simp only [hget, hvalue]
      · simp only [hnn, false_and, if_false]

theorem after (hr : e.registry.Distinct) (c : Call) : (e.after c).CachesAgree x (f.after c) := by
  cases c with
  | normal w =>
    have hall : (e.refreshAll w e.registry.signals).2.CachesAgree x
        (f.refreshAll w f.registry.signals).2 := by
      rw [← h.registry]
      exact h.refreshAll w (Call.signal?_of_covered hr (.normal w))
    refine ⟨hall.setups, hall.lifetime, ⟨Cache.distinct_purge _ hall.distinct.1,
      Cache.distinct_purge _ hall.distinct.2⟩, fun name hname => ?_⟩
    rw [cache_after_normal, cache_after_normal, Cache.slot_purge hall.distinct.1,
      Cache.slot_purge hall.distinct.2, hall.slots name hname]
    simp only [Cache.isAlive, hall.lifetime]
  | urgent w =>
    have hall : (e.refreshAll w e.registry.urgentSignals).2.CachesAgree x
        (f.refreshAll w f.registry.urgentSignals).2 := by
      rw [← h.registry]
      exact h.refreshAll w (Call.signal?_of_covered hr (.urgent w))
    exact ⟨hall.setups, hall.lifetime, hall.distinct, hall.slots⟩
  | evaluate w name => exact h.evaluate hr w name

end CachesAgree
end Engine

/-! ### Breakdowns -/

/-- There is a breakdown in both or in none, and the categories whose plans are not
    tainted are in both or in none, and are made of the same. -/
structure Fault.SameParts (x : Fault) (r : Registry) (b c : Option AgentBreakdown) : Prop where
  isSome : b.isSome = c.isSome
  category : ∀ p ∈ r.plans, ¬x.TaintsPlan r p →
    (b.bind (·.category? p.name)).map (·.unranked) = (c.bind (·.category? p.name)).map (·.unranked)

theorem Fault.SameParts.findSome? {r : Registry} {α : Type} {f g : α → Option AgentBreakdown}
    {as : List α} (h : ∀ a ∈ as, x.SameParts r (f a) (g a)) :
    x.SameParts r (as.findSome? f) (as.findSome? g) := by
  induction as with
  | nil => exact ⟨rfl, fun _ _ _ => rfl⟩
  | cons a as ih =>
    have ha := h a List.mem_cons_self
    have ih := ih fun b hb => h b (List.mem_cons_of_mem _ hb)
    rw [List.findSome?_cons, List.findSome?_cons]
    -- Both find something in `a`, or both go on.
    cases hf : f a with
    | none =>
      have hg : g a = none := by
        rw [← Option.isNone_iff_eq_none, ← Option.isSome_eq_false_iff, ← ha.isSome, hf]
        rfl
      rw [hg]
      exact ih
    | some b =>
      obtain ⟨c, hg⟩ := Option.isSome_iff_exists.1 (ha.isSome.symm.trans (by rw [hf]; rfl))
      rw [hf, hg] at ha
      rw [hg]
      exact ha

/-- Ranking by the same scores, but for those of tainted rules. -/
theorem RankingPolicy.sameParts_rank {r : Registry} (hr : r.Distinct) {p : RankingPolicy}
    (hp : p.plans = r.plans) {scores scores' : ScoreTable} (a : Agent)
    (hscores : ∀ name, ¬x.TaintsName r name → scores.get? a.id name = scores'.get? a.id name)
    (tick : Nat) : x.SameParts r (some (p.rank tick scores a)) (some (p.rank tick scores' a)) := by
  refine ⟨by rw [Option.isSome_some, Option.isSome_some], fun q hq htaint => ?_⟩
  have hd : (p.plans.map (·.name)).Nodup := hp ▸ hr.plans
  simp only [Option.bind_some, rank]
  rw [AgentBreakdown.category?_ofPlans hd, AgentBreakdown.category?_ofPlans hd]
  cases hfind : p.plans.find? fun u => u.isOpenTo a && u.name == q.name with
  | none => rfl
  | some u =>
    -- The plan that is found is `q`, as no other is of its category.
    have hu : u.name = q.name := by
      have := List.find?_some hfind
      rw [Bool.and_eq_true] at this
      exact eq_of_beq this.2
    have hmem : u ∈ r.plans := hp ▸ List.mem_of_find?_eq_some hfind
    obtain rfl : u = q := List.inj_on_of_nodup_map hr.plans hmem hq hu
    refine congrArg some (Plan.breakdown_congr (fun e he => ?_) p.bonuses a)
    have hentry := hscores e.1 fun hx => htaint ⟨e, he, hx⟩
    rw [← ScoreTable.get?_row, ← ScoreTable.get?_row scores'] at hentry
    exact hentry

/-! ### Engines -/

namespace Engine

variable {e f : Engine}

/-- Two engines agree on all that is not tainted. -/
structure Agree (x : Fault) (e f : Engine) : Prop where
  caches : e.CachesAgree x f
  signals : ∀ name, ¬x.TaintsSignal e.registry name →
    e.signals.value? name = f.signals.value? name
  scores : ∀ name, ¬x.TaintsName e.registry name → ∀ id, e.score? id name = f.score? id name
  breakdowns : ∀ id, x.SameParts e.registry (e.agentBreakdown? id) (f.agentBreakdown? id)

theorem context_agree {r : Registry} (h : x.Separates e.setup f.setup)
    (hsignals : ∀ name, ¬x.TaintsSignal r name → e.signals.value? name = f.signals.value? name)
    (w : World) : (e.context w).Agree x r (f.context w) where
  world := rfl
  neutralScore := congrArg Config.neutralScore h.config
  signals := hsignals
  modifiers := h.modifiers

namespace Agree

variable (h : e.Agree x f) (hr : e.registry.Distinct)

include h hr

theorem signals_after (c : Call) {name : String} (hname : ¬x.TaintsSignal e.registry name) :
    (e.after c).signals.value? name = (f.after c).signals.value? name := by
  have hlookup := h.caches.lookup_refreshAll c.world (Call.nodup_signals hr c)
    (Call.signal?_of_covered hr c) hname
  cases c with
  | normal w =>
    rw [signals_after_normal, signals_after_normal, ← h.caches.registry, Snapshot.ofValues,
      Snapshot.ofValues, Snapshot.value?_merge, Snapshot.value?_merge]
    exact congrArg (Option.or · _) hlookup
  | urgent w =>
    rw [signals_after_urgent, signals_after_urgent, ← h.caches.registry, Snapshot.value?_merge,
      Snapshot.value?_merge, h.signals name hname]
    exact congrArg (Option.or · _) hlookup
  | evaluate w n =>
    rw [(e.results_after_evaluate w n).1, (f.results_after_evaluate w n).1]
    exact h.signals name hname

theorem context_after (c : Call) :
    ((e.after c).context c.world).Agree x e.registry ((f.after c).context c.world) :=
  context_agree (h.caches.after hr c).setups (fun _ hname => h.signals_after hr c hname) c.world

theorem scores_after (c : Call) {name : String} (hname : ¬x.TaintsName e.registry name)
    (id : AgentId) : (e.after c).score? id name = (f.after c).score? id name := by
  have hsub : c.rules e.registry ⊆ e.registry.rules :=
    fun q hq => List.mem_of_mem_filter (c.rules_subset hq)
  have hfresh := (h.context_after hr c).get?_ofRules hsub hname id
  cases c with
  | normal w =>
    rw [score?, score?, scores_after_normal, scores_after_normal, ← h.caches.registry]
    exact hfresh
  | urgent w =>
    rw [score?, score?, scores_after_urgent, scores_after_urgent, ← h.caches.registry,
      ScoreTable.get?_merge _ (ScoreTable.distinct_ofRules ..),
      ScoreTable.get?_merge _ (ScoreTable.distinct_ofRules ..)]
    have hbefore : e.scores.get? id name = f.scores.get? id name := h.scores name hname id
    rw [hbefore]
    exact congrArg (Option.or · _) hfresh
  | evaluate w n =>
    have he := (e.results_after_evaluate w n).2.1
    have hf := (f.results_after_evaluate w n).2.1
    rw [score?, score?, he, hf]
    exact h.scores name hname id

theorem breakdowns_after (c : Call) (id : AgentId) :
    x.SameParts e.registry ((e.after c).agentBreakdown? id) ((f.after c).agentBreakdown? id) := by
  cases c with
  | normal w =>
    rw [agentBreakdown?_after_normal, agentBreakdown?_after_normal, Pass.agent?_breakdownsOf,
      Pass.agent?_breakdownsOf, ← h.caches.policy]
    refine .findSome? fun a _ => ?_
    by_cases hid : a.id = id
    · simp only [hid, if_true]
      cases hp : a.paused with
      | true =>
        rw [Pass.breakdownOf_of_paused _ _ _ _ hp, Pass.breakdownOf_of_paused _ _ _ _ hp]
        exact h.breakdowns a.id
      | false =>
        rw [Pass.breakdownOf_of_unpaused _ _ _ _ hp, Pass.breakdownOf_of_unpaused _ _ _ _ hp]
        exact RankingPolicy.sameParts_rank hr rfl a
          (fun name hname => h.scores_after hr (.normal w) hname a.id) w.tick
    · simp only [hid, if_false]
      exact ⟨rfl, fun _ _ _ => rfl⟩
  | urgent w =>
    have hn := Call.not_isNormal_urgent w
    rw [agentBreakdown?_after_of_not_normal e hn, agentBreakdown?_after_of_not_normal f hn]
    exact h.breakdowns id
  | evaluate w n =>
    have hn := Call.not_isNormal_evaluate w n
    rw [agentBreakdown?_after_of_not_normal e hn, agentBreakdown?_after_of_not_normal f hn]
    exact h.breakdowns id

/-- A call leaves engines that agree in agreement. -/
theorem after (c : Call) : (e.after c).Agree x (f.after c) := by
  have hreg : (e.after c).registry = e.registry := e.registry_after c
  refine ⟨h.caches.after hr c, ?_, ?_, ?_⟩
  · rw [hreg]
    exact fun name hname => h.signals_after hr c hname
  · rw [hreg]
    exact fun name hname id => h.scores_after hr c hname id
  · rw [hreg]
    exact fun id => h.breakdowns_after hr c id

theorem run (cs : List Call) : (e.run cs).Agree x (f.run cs) := by
  induction cs generalizing e f with
  | nil => exact h
  | cons c cs ih => exact ih (h.after hr c) (e.registry_after c ▸ hr)

end Agree

theorem agree_start (h : x.Separates s t) : (start s).Agree x (start t) where
  caches :=
    { setups := h
      lifetime := congrArg Config.cacheLifetime h.config
      distinct := ⟨Keyed.distinct_empty, Keyed.distinct_empty⟩
      slots := fun _ _ => rfl }
  signals _ _ := rfl
  scores _ _ _ := rfl
  breakdowns _ := ⟨rfl, fun _ _ _ => rfl⟩

/-- Engines that are built alike but for a source and a key agree, at every point
    of a run, on the values of the signals of other sources, on the scores of the
    rules that look up neither such a signal nor the key, on who has a breakdown,
    and on all but the places of the categories whose plans list no other rules. -/
theorem run_agree (hs : s.registry.Loaded) (h : x.Separates s t) (cs : List Call) :
    let e := (start s).run cs
    let f := (start t).run cs
    (∀ g ∈ s.registry.signals, g.source.kind ≠ x.kind →
      e.signals.value? g.name = f.signals.value? g.name) ∧
    (∀ q ∈ s.registry.rules, ¬x.TaintsRule s.registry q →
      ∀ id, e.score? id q.name = f.score? id q.name) ∧
    ∀ id, (e.agentBreakdown? id).isSome = (f.agentBreakdown? id).isSome ∧
      ∀ p ∈ s.registry.plans, ¬x.TaintsPlan s.registry p →
        (e.breakdown? id p.name).map (·.unranked) = (f.breakdown? id p.name).map (·.unranked) := by
  intro e f
  have hd := hs.distinct
  have hagree : e.Agree x f := (agree_start h).run hd cs
  have hreg : e.registry = s.registry := registry_run _ cs
  refine ⟨fun g hg hkind => ?_, fun q hq htaint => ?_, fun id => ?_⟩
  · refine hagree.signals g.name ?_
    rw [hreg]
    rintro ⟨g', hg', hkind'⟩
    rw [hd.signal?_of_mem hg, Option.some.injEq] at hg'
    exact hkind (hg' ▸ hkind')
  · refine hagree.scores q.name ?_
    rw [hreg]
    rintro ⟨q', hq', hname, htaint'⟩
    exact htaint (hd.eq_of_rule hq' hq hname ▸ htaint')
  · have hparts := hagree.breakdowns id
    rw [hreg] at hparts
    exact ⟨hparts.isSome, hparts.category⟩

/-- On a farm where nobody can see the stores, nor whether anyone is in the mood,
    the score and the breakdown of cooking are what they are elsewhere. -/
theorem run_agree_farm :
    let blind : Evaluators :=
      .replace .standard .objectCount fun _ g => .error (.source g.name "no light")
    let mute : ModifierProvider :=
      ⟨"moods", fun _ key => if key = "mood" then .error (.provider key "no reply") else .ok none⟩
    let cs : List Call := [.urgent (Farm.world 1 [Farm.worker 1]),
      .evaluate (Farm.world 2 []) "stores", .normal (Farm.world 2 [Farm.worker 1, Farm.worker 2])]
    let e := (start Farm.setup).run cs
    let f := (start { Farm.setup with evaluators := blind, modifiers := mute }).run cs
    e.signals.value? "headcount" = f.signals.value? "headcount" ∧
      e.score? ⟨1⟩ "crowding" = f.score? ⟨1⟩ "crowding" ∧
      (e.agentBreakdown? ⟨1⟩).isSome = (f.agentBreakdown? ⟨1⟩).isSome ∧
      (e.breakdown? ⟨1⟩ "cooking").map (·.unranked) =
        (f.breakdown? ⟨1⟩ "cooking").map (·.unranked) := by
  intro blind mute cs e f
  let x : Fault := ⟨.objectCount, "mood"⟩
  have h : x.Separates Farm.setup { Farm.setup with evaluators := blind, modifiers := mute } :=
    { config := rfl
      registry := rfl
      evaluators := fun kind hkind => (if_neg hkind).symm
      modifiers := fun a key hkey => (if_neg hkey).symm }
  obtain ⟨hsignals, hscores, hbreakdowns⟩ := run_agree Farm.registry_loaded h cs
  have hrule : ¬x.TaintsRule Farm.setup.registry Farm.crowding := by
    rintro (⟨name, mode, hmem, g, hg, hkind⟩ | ⟨ranges, hmem⟩)
    · obtain ⟨rfl, -⟩ := Condition.lookup.inj (List.mem_singleton.1 hmem)
      obtain rfl : Farm.headcount = g := Option.some.inj hg
      exact absurd hkind (by decide)
    · exact absurd (List.mem_singleton.1 hmem) (by simp)
  let cooking : Plan :=
    { category := { name := "cooking" }, subTaskRules := [], categoryRules := ["crowding"] }
  have hplan : ¬x.TaintsPlan Farm.setup.registry cooking := by
    rintro ⟨entry, hentry, q, hq, hname, htaint⟩
    obtain rfl : entry = ("crowding", .category "cooking") := List.mem_singleton.1 hentry
    have hd := Farm.registry_loaded.distinct
    have hcrowding : Farm.crowding ∈ Farm.setup.registry.rules := List.mem_cons_self
    exact hrule (hd.eq_of_rule hq hcrowding hname ▸ htaint)
  refine ⟨hsignals Farm.headcount List.mem_cons_self (by decide),
    hscores Farm.crowding List.mem_cons_self hrule ⟨1⟩, (hbreakdowns ⟨1⟩).1,
    (hbreakdowns ⟨1⟩).2 cooking ?_ hplan⟩
  exact List.mem_cons_self

end Engine
end WorkPriority
