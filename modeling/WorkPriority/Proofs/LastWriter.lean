import WorkPriority.Proofs.Runs

/-!
# The last cycle counts

What an engine publishes is, entry by entry, what the last cycle made of it that
covered the entry (`Engine.published_run`). A normal cycle covers every stored
signal, and every valid rule for the agents of its world; an urgent cycle covers
those of them that are urgent. What a cycle does not cover it leaves as it was,
with one exception: a normal cycle drops the scores of agents who are not in its
world.

Each of the two tables is a *register* of the run: a call that covers an entry
writes it, and any other call either keeps or drops what is there. That much is
all that the law rests on (`eq_some_iff_isLast`).
-/

namespace WorkPriority

/-! ### The last call -/

/-- Of the calls `cs` the call `c`, made after those of `before` and before
    those of `after`, is the last one with `p`. -/
structure IsLast (p : Call → Prop) (cs before : List Call) (c : Call) (after : List Call) :
    Prop where
  split : cs = before ++ c :: after
  holds : p c
  last : ∀ d ∈ after, ¬p d

variable {p : Call → Prop} {cs before after : List Call} {c d : Call}

/-- A call that is made at the end is the last one with `p`, or else the last
    one was made before. -/
theorem isLast_concat : IsLast p (cs ++ [c]) before d after ↔
    (p c ∧ before = cs ∧ d = c ∧ after = []) ∨
      (¬p c ∧ ∃ rest, after = rest ++ [c] ∧ IsLast p cs before d rest) := by
  constructor
  · intro h
    rcases List.eq_nil_or_concat' after with rfl | ⟨rest, x, rfl⟩
    · obtain ⟨rfl, hc⟩ := List.append_inj' h.split rfl
      obtain rfl : c = d := by simpa using hc
      exact .inl ⟨h.holds, rfl, rfl, rfl⟩
    · have hsplit : cs ++ [c] = (before ++ d :: rest) ++ [x] := by simpa using h.split
      obtain ⟨rfl, hx⟩ := List.append_inj' hsplit rfl
      obtain rfl : c = x := by simpa using hx
      refine .inr ⟨h.last c (by simp), rest, rfl, rfl, h.holds, fun y hy => ?_⟩
      exact h.last y (by simp [hy])
  · rintro (⟨hc, rfl, rfl, rfl⟩ | ⟨hc, rest, rfl, h⟩)
    · exact ⟨rfl, hc, fun _ h => absurd h List.not_mem_nil⟩
    · refine ⟨by simp [h.split], h.holds, fun y hy => ?_⟩
      rcases List.mem_append.1 hy with hy | hy
      · exact h.last y hy
      · rw [List.mem_singleton.1 hy]
        exact hc

theorem exists_isLast : (∃ before c after, IsLast p cs before c after) ↔ ∃ c ∈ cs, p c := by
  induction cs using List.reverseRecOn with
  | nil =>
    constructor
    · rintro ⟨before, c, after, h⟩
      exact absurd h.split (by simp)
    · rintro ⟨c, hc, -⟩
      exact absurd hc List.not_mem_nil
  | append_singleton cs c ih =>
    by_cases hc : p c
    · exact ⟨fun _ => ⟨c, by simp, hc⟩,
        fun _ => ⟨cs, c, [], isLast_concat.2 (.inl ⟨hc, rfl, rfl, rfl⟩)⟩⟩
    · constructor
      · rintro ⟨before, d, after, h⟩
        exact ⟨d, h.split ▸ by simp, h.holds⟩
      · rintro ⟨d, hd, hp⟩
        have hd : d ∈ cs := by
          rcases List.mem_append.1 hd with hd | hd
          · exact hd
          · exact absurd (List.mem_singleton.1 hd ▸ hp) hc
        obtain ⟨before, d, rest, h⟩ := ih.2 ⟨d, hd, hp⟩
        exact ⟨before, d, rest ++ [c], isLast_concat.2 (.inr ⟨hc, rest, rfl, h⟩)⟩

/-- The law of registers. A call that covers a register writes it, and any other
    call keeps what is there, or drops it. Then the register holds what the last
    call has written that covered it, if every later call kept that. -/
theorem eq_some_iff_isLast {α : Type} (reg : List Call → Option α) (covers keeps ok : Call → Prop)
    (writes : List Call → Call → α → Prop) (hnil : reg [] = none)
    (hwrite : ∀ cs c, ok c → covers c → ∀ x, reg (cs ++ [c]) = some x ↔ writes cs c x)
    (hkeep : ∀ cs c, ok c → ¬covers c → keeps c → reg (cs ++ [c]) = reg cs)
    (hdrop : ∀ cs c, ok c → ¬covers c → ¬keeps c → reg (cs ++ [c]) = none)
    {cs : List Call} (hcs : ∀ c ∈ cs, ok c) (x : α) : reg cs = some x ↔
      ∃ before c after, IsLast covers cs before c after ∧ (∀ d ∈ after, keeps d) ∧
        writes before c x := by
  induction cs using List.reverseRecOn with
  | nil =>
    rw [hnil]
    constructor
    · exact fun h => absurd h.symm (Option.some_ne_none x)
    · rintro ⟨before, c, after, h, -, -⟩
      exact absurd h.split (by simp)
  | append_singleton cs c ih =>
    have hc : ok c := hcs c (by simp)
    have ih := ih fun d hd => hcs d (List.mem_append_left _ hd)
    by_cases hcov : covers c
    · -- The last call writes the register.
      rw [hwrite cs c hc hcov]
      constructor
      · intro h
        exact ⟨cs, c, [], isLast_concat.2 (.inl ⟨hcov, rfl, rfl, rfl⟩),
          fun _ h => absurd h List.not_mem_nil, h⟩
      · rintro ⟨before, d, after, h, -, hx⟩
        rcases isLast_concat.1 h with ⟨-, rfl, rfl, -⟩ | ⟨hn, -⟩
        · exact hx
        · exact absurd hcov hn
    by_cases hk : keeps c
    · -- It keeps what the calls before have left.
      rw [hkeep cs c hc hcov hk, ih]
      constructor
      · rintro ⟨before, d, rest, h, hrest, hx⟩
        refine ⟨before, d, rest ++ [c], isLast_concat.2 (.inr ⟨hcov, rest, rfl, h⟩), ?_, hx⟩
        intro y hy
        rcases List.mem_append.1 hy with hy | hy
        · exact hrest y hy
        · rw [List.mem_singleton.1 hy]
          exact hk
      · rintro ⟨before, d, after, h, hafter, hx⟩
        rcases isLast_concat.1 h with ⟨hp, -⟩ | ⟨-, rest, rfl, hlast⟩
        · exact absurd hp hcov
        · exact ⟨before, d, rest, hlast, fun y hy => hafter y (List.mem_append_left _ hy), hx⟩
    · -- It drops it, so nothing is kept.
      rw [hdrop cs c hc hcov hk]
      constructor
      · exact fun h => absurd h.symm (Option.some_ne_none x)
      · rintro ⟨before, d, after, h, hafter, -⟩
        rcases isLast_concat.1 h with ⟨hp, -⟩ | ⟨-, rest, rfl, -⟩
        · exact absurd hp hcov
        · exact absurd (hafter c (by simp)) hk

namespace Engine

/-! ### The snapshot -/

section Snapshot

variable {e : Engine} {t : Signal}

theorem lookup_refreshAll (e : Engine) (w : World) (ss : List Signal)
    (hd : (ss.map (·.name)).Nodup) (ht : t ∈ ss) :
    Keyed.lookup t.name (e.refreshAll w ss).1.reverse = some (e.refresh w t).1 := by
  have hkeys : ((e.refreshAll w ss).1.map Prod.fst).Nodup := by
    rw [refreshAll_fst e w hd, List.map_map]
    exact hd
  rw [Keyed.lookup_reverse _ hkeys]
  refine Keyed.lookup_of_mem hkeys ?_
  rw [refreshAll_fst e w hd]
  exact List.mem_map_of_mem ht

theorem lookup_refreshAll_eq_none (e : Engine) (w : World) (ss : List Signal)
    (hd : (ss.map (·.name)).Nodup) {name : String} (hname : ∀ s ∈ ss, s.name ≠ name) :
    Keyed.lookup name (e.refreshAll w ss).1.reverse = none := by
  rw [Keyed.lookup_eq_none_iff, List.map_reverse, List.mem_reverse, refreshAll_fst e w hd,
    List.map_map, List.mem_map]
  rintro ⟨s, hs, hn⟩
  exact hname s hs hn

/-- A cycle publishes the value of every signal that it covers. -/
theorem value?_after_of_covered (hr : e.registry.Distinct) {c : Call}
    (ht : t ∈ c.signals e.registry) :
    (e.after c).signals.value? t.name = some (e.refresh c.world t).1 := by
  have hd := Call.nodup_signals hr c
  cases c with
  | normal w =>
    rw [signals_after_normal, Snapshot.ofValues, Snapshot.value?_merge,
      lookup_refreshAll e w e.registry.signals hd ht]
    rfl
  | urgent w =>
    rw [signals_after_urgent, Snapshot.value?_merge,
      lookup_refreshAll e w e.registry.urgentSignals hd ht]
    rfl
  | evaluate w name => exact absurd ht List.not_mem_nil

/-- What a cycle does not cover keeps its value. -/
theorem value?_after_of_uncovered (hr : e.registry.Distinct) {c : Call}
    (hreg : t ∈ e.registry.signals) (ht : t ∉ c.signals e.registry) :
    (e.after c).signals.value? t.name = e.signals.value? t.name := by
  cases c with
  | normal w => exact absurd hreg ht
  | urgent w =>
    have hne : ∀ s ∈ e.registry.urgentSignals, s.name ≠ t.name := by
      -- Only `t` itself has its name.
      intro s hs hn
      have hst : s = t := hr.eq_of_signal ((Call.urgent w).signals_subset hs) hreg hn
      exact ht (hst ▸ hs)
    rw [signals_after_urgent, Snapshot.value?_merge,
      lookup_refreshAll_eq_none e w e.registry.urgentSignals
        (Call.nodup_signals hr (.urgent w)) hne]
    rfl
  | evaluate w name => rw [(e.results_after_evaluate w name).1]

/-- A name that is not that of a signal never gets a value. -/
theorem value?_after_of_unknown (hr : e.registry.Distinct) (c : Call) {name : String}
    (hname : e.registry.signal? name = none) (h : e.signals.value? name = none) :
    (e.after c).signals.value? name = none := by
  have hne : ∀ s ∈ c.signals e.registry, s.name ≠ name := by
    intro s hs hn
    have hfound := Call.signal?_of_covered hr c s hs
    rw [hn, hname] at hfound
    exact absurd hfound.symm (Option.some_ne_none s)
  have hd := Call.nodup_signals hr c
  cases c with
  | normal w =>
    rw [signals_after_normal, Snapshot.ofValues, Snapshot.value?_merge,
      lookup_refreshAll_eq_none e w e.registry.signals hd hne]
    rfl
  | urgent w =>
    rw [signals_after_urgent, Snapshot.value?_merge,
      lookup_refreshAll_eq_none e w e.registry.urgentSignals hd hne, h]
    rfl
  | evaluate w name => rw [(e.results_after_evaluate w name).1, h]

end Snapshot

/-! ### The scores -/

section Scores

variable {e : Engine} {c : Call} {r : Rule}

/-- A cycle scores the agents of its world by every rule that it covers. -/
theorem score?_after_of_covered (hd : e.registry.Distinct) (hw : c.world.DistinctAgents)
    (hr : r ∈ c.rules e.registry) {a : Agent} (ha : a ∈ c.world.agents) :
    (e.after c).score? a.id r.name =
      some (r.scoreOrZero ((e.after c).context c.world) a) := by
  have hnames := Call.nodup_rules hd c
  cases c with
  | normal w =>
    rw [score?, scores_after_normal]
    exact ScoreTable.get?_ofRules_of_mem hw hnames ha hr
  | urgent w =>
    rw [score?, scores_after_urgent, ScoreTable.get?_merge _ (ScoreTable.distinct_ofRules ..)]
    have h : (ScoreTable.ofRules ((e.after (.urgent w)).context w) e.registry.urgentRules).get?
        a.id r.name = some (r.scoreOrZero ((e.after (.urgent w)).context w) a) :=
      ScoreTable.get?_ofRules_of_mem hw hnames ha hr
    rw [h]
    rfl
  | evaluate w name => exact absurd hr List.not_mem_nil

/-- A normal cycle leaves no score of an agent who is not in its world. -/
theorem score?_after_of_absent (hc : c.IsNormal) {id : AgentId} (hid : id ∉ c.world.agentIds)
    (name : String) : (e.after c).score? id name = none := by
  cases c with
  | normal w =>
    rw [score?, scores_after_normal]
    exact ScoreTable.get?_ofRules_of_absent _ _ hid name
  | urgent w => exact hc.elim
  | evaluate w name => exact hc.elim

/-- Otherwise, what a call does not cover keeps its score. -/
theorem score?_after_of_uncovered (hd : e.registry.Distinct) (hreg : r ∈ e.registry.validRules)
    (hc : ¬c.IsNormal) {id : AgentId} (h : ¬(r ∈ c.rules e.registry ∧ id ∈ c.world.agentIds)) :
    (e.after c).score? id r.name = e.score? id r.name := by
  cases c with
  | normal w => exact absurd trivial hc
  | urgent w =>
    rw [score?, scores_after_urgent, ScoreTable.get?_merge _ (ScoreTable.distinct_ofRules ..)]
    have hnone : (ScoreTable.ofRules ((e.after (.urgent w)).context w)
        e.registry.urgentRules).get? id r.name = none := by
      by_cases hid : id ∈ w.agentIds
      · refine ScoreTable.get?_ofRules_of_uncovered _ (fun q hq hn => h ⟨?_, hid⟩) id
        -- Only `r` itself has its name.
        have hvalid : q ∈ e.registry.validRules := (Call.urgent w).rules_subset hq
        have hqr : q = r :=
          hd.eq_of_rule (List.mem_of_mem_filter hvalid) (List.mem_of_mem_filter hreg) hn
        exact hqr ▸ hq
      · exact ScoreTable.get?_ofRules_of_absent _ _ hid r.name
    rw [hnone]
    rfl
  | evaluate w name => rw [score?, (e.results_after_evaluate w name).2.1]; rfl

end Scores

/-! ### Ticks -/

theorem ticks_after {c : Call} (e : Engine) (hc : c.IsCycle) :
    (e.after c).signals.tick = c.world.tick ∧ (e.after c).scores.tick = c.world.tick := by
  cases c with
  | normal w =>
    rw [scores_after_normal, ScoreTable.tick_ofRules]
    exact ⟨rfl, rfl⟩
  | urgent w =>
    rw [signals_after_urgent, scores_after_urgent, ScoreTable.tick_merge, ScoreTable.tick_ofRules]
    exact ⟨rfl, rfl⟩
  | evaluate w name => exact hc.elim

theorem ticks_after_evaluate {c : Call} (e : Engine) (hc : ¬c.IsCycle) :
    (e.after c).signals.tick = e.signals.tick ∧ (e.after c).scores.tick = e.scores.tick := by
  cases c with
  | normal w => exact absurd trivial hc
  | urgent w => exact absurd trivial hc
  | evaluate w name =>
    obtain ⟨hsignals, hscores, -⟩ := e.results_after_evaluate w name
    rw [hsignals, hscores]
    exact ⟨rfl, rfl⟩

/-! ### Runs -/

section Run

variable {s : Setup} {cs : List Call}

theorem value?_run (hs : s.registry.Distinct) {t : Signal} (ht : t ∈ s.registry.signals)
    (v : SignalValue Float) : ((start s).run cs).signals.value? t.name = some v ↔
      ∃ before c after, IsLast (fun c => t ∈ c.signals s.registry) cs before c after ∧
        (((start s).run before).refresh c.world t).1 = v := by
  have hreg (cs : List Call) : ((start s).run cs).registry = s.registry := registry_run _ cs
  have hwrite : ∀ cs c, True → t ∈ c.signals s.registry → ∀ v,
      ((start s).run (cs ++ [c])).signals.value? t.name = some v ↔
        (((start s).run cs).refresh c.world t).1 = v := by
    intro cs c _ hc v
    rw [run_concat, value?_after_of_covered (hreg cs ▸ hs) (hreg cs ▸ hc), Option.some.injEq]
  have hkeep : ∀ cs c, True → t ∉ c.signals s.registry → True →
      ((start s).run (cs ++ [c])).signals.value? t.name =
        ((start s).run cs).signals.value? t.name := by
    intro cs c _ hc _
    rw [run_concat, value?_after_of_uncovered (hreg cs ▸ hs) (hreg cs ▸ ht) (hreg cs ▸ hc)]
  have h := eq_some_iff_isLast (fun cs => ((start s).run cs).signals.value? t.name) _
    (fun _ => True) (fun _ => True) _ rfl hwrite hkeep (fun _ _ _ _ h => absurd trivial h)
    (fun c (_ : c ∈ cs) => trivial) v
  simpa only [implies_true, true_and] using h

theorem score?_run (hs : s.registry.Distinct) (hcs : ∀ c ∈ cs, c.world.DistinctAgents) {r : Rule}
    (hr : r ∈ s.registry.validRules) (id : AgentId) (x : RuleScore) :
    ((start s).run cs).score? id r.name = some x ↔
      ∃ before c after,
        IsLast (fun c => r ∈ c.rules s.registry ∧ id ∈ c.world.agentIds) cs before c after ∧
        (∀ d ∈ after, d.IsNormal → id ∈ d.world.agentIds) ∧
        ∃ a ∈ c.world.agents, a.id = id ∧
          r.scoreOrZero (((start s).run (before ++ [c])).context c.world) a = x := by
  have hreg (cs : List Call) : ((start s).run cs).registry = s.registry := registry_run _ cs
  refine eq_some_iff_isLast (fun cs => ((start s).run cs).score? id r.name)
    (fun c => r ∈ c.rules s.registry ∧ id ∈ c.world.agentIds)
    (fun d => d.IsNormal → id ∈ d.world.agentIds) (fun c => c.world.DistinctAgents)
    (fun cs c x => ∃ a ∈ c.world.agents, a.id = id ∧
      r.scoreOrZero (((start s).run (cs ++ [c])).context c.world) a = x) rfl ?_ ?_ ?_ hcs x
  · -- The rule is covered, and the agent is in the world.
    rintro cs c hc ⟨hcov, hid⟩ x
    obtain ⟨a, ha, rfl⟩ := List.mem_map.1 hid
    rw [run_concat, score?_after_of_covered (hreg cs ▸ hs) hc (hreg cs ▸ hcov) ha,
      Option.some.injEq]
    constructor
    · exact fun h => ⟨a, ha, rfl, h⟩
    · rintro ⟨b, hb, hba, h⟩
      rwa [hc.eq_of_id hb ha hba] at h
  · intro cs c _ hcov hkeep
    have hn : ¬c.IsNormal := by
      intro hn
      refine hcov ⟨?_, hkeep hn⟩
      cases c with
      | normal w => exact hr
      | urgent w => exact hn.elim
      | evaluate w name => exact hn.elim
    rw [run_concat, score?_after_of_uncovered (hreg cs ▸ hs) (hreg cs ▸ hr) hn (hreg cs ▸ hcov)]
  · intro cs c _ _ hdrop
    rw [Classical.not_imp] at hdrop
    rw [run_concat, score?_after_of_absent hdrop.1 hdrop.2]

theorem ticks_run {before after : List Call} {c : Call}
    (h : IsLast Call.IsCycle cs before c after) :
    ((start s).run cs).signals.tick = c.world.tick ∧
      ((start s).run cs).scores.tick = c.world.tick := by
  have hrun : (start s).run cs = (((start s).run before).after c).run after := by
    rw [h.split, run, List.foldl_append]
    rfl
  rw [hrun]
  refine run_induct (P := fun e => e.signals.tick = c.world.tick ∧ e.scores.tick = c.world.tick)
    (fun e d hd he => ?_) (ticks_after _ h.holds)
  obtain ⟨hsignals, hscores⟩ := e.ticks_after_evaluate (h.last d hd)
  rw [hsignals, hscores]
  exact he

theorem value?_run_of_unknown (hs : s.registry.Distinct) {name : String}
    (hname : s.registry.signal? name = none) :
    ((start s).run cs).signals.value? name = none := by
  refine (run_induct (P := fun e => e.setup = s ∧ e.signals.value? name = none)
    (fun e c _ he => ?_) ⟨rfl, rfl⟩).2
  obtain ⟨rfl, h⟩ := he
  exact ⟨e.setup_after c, value?_after_of_unknown hs c hname h⟩

/-- What an engine publishes after a run. The snapshot has a value of exactly the
    stored signals that some cycle covered, and it is the one that the last such
    cycle got. An agent has a score of a valid rule exactly if a cycle covered the
    rule in a world with the agent and no normal cycle has been run since in a
    world without; it is the one that the last such cycle gave. Snapshot and
    scores have the tick of the last cycle. -/
theorem published_run (hs : s.registry.Loaded) (hcs : ∀ c ∈ cs, c.world.DistinctAgents) :
    let e := (start s).run cs
    (∀ t ∈ s.registry.signals,
      ((e.signals.value? t.name).isSome ↔ ∃ c ∈ cs, t ∈ c.signals s.registry) ∧
      ∀ v, e.signals.value? t.name = some v ↔
        ∃ before c after, IsLast (fun c => t ∈ c.signals s.registry) cs before c after ∧
          (((start s).run before).refresh c.world t).1 = v) ∧
    (∀ name, s.registry.signal? name = none → e.signals.value? name = none) ∧
    (∀ r ∈ s.registry.validRules, ∀ id x, e.score? id r.name = some x ↔
      ∃ before c after,
        IsLast (fun c => r ∈ c.rules s.registry ∧ id ∈ c.world.agentIds) cs before c after ∧
        (∀ d ∈ after, d.IsNormal → id ∈ d.world.agentIds) ∧
        ∃ a ∈ c.world.agents, a.id = id ∧
          r.scoreOrZero (((start s).run (before ++ [c])).context c.world) a = x) ∧
    (∀ before c after, IsLast Call.IsCycle cs before c after →
      e.signals.tick = c.world.tick ∧ e.scores.tick = c.world.tick) := by
  intro e
  have hd := hs.distinct
  refine ⟨fun t ht => ⟨?_, value?_run hd ht⟩, fun name hname => value?_run_of_unknown hd hname,
    fun r hr => score?_run hd hcs hr, fun before c after h => ticks_run h⟩
  rw [Option.isSome_iff_exists, ← exists_isLast]
  constructor
  · rintro ⟨v, hv⟩
    obtain ⟨before, c, after, h, -⟩ := (value?_run hd ht v).1 hv
    exact ⟨before, c, after, h⟩
  · rintro ⟨before, c, after, h⟩
    exact ⟨_, (value?_run hd ht _).2 ⟨before, c, after, h, rfl⟩⟩

/-- Of two on a farm one leaves before an urgent cycle, and keeps the score of the
    normal cycle before it; the other gets a new one. -/
theorem published_run_farm :
    let both := Farm.world 3 [Farm.worker 1, Farm.worker 2]
    let one := Farm.world 4 [Farm.worker 2]
    let e := (start Farm.setup).run [.normal both, .urgent one]
    let f := (start Farm.setup).run [.normal both]
    e.score? ⟨1⟩ "crowding" =
        some (Farm.crowding.scoreOrZero (f.context both) (Farm.worker 1)) ∧
      e.score? ⟨2⟩ "crowding" =
        some (Farm.crowding.scoreOrZero (e.context one) (Farm.worker 2)) ∧
      e.signals.tick = 4 ∧ e.scores.tick = 4 := by
  intro both one e f
  have hcs : ∀ c ∈ [Call.normal both, .urgent one], c.world.DistinctAgents := by
    simp only [List.mem_cons, List.not_mem_nil, or_false, forall_eq_or_imp, forall_eq]
    exact ⟨(by decide : [(⟨1⟩ : AgentId), ⟨2⟩].Nodup), (by decide : [(⟨2⟩ : AgentId)].Nodup)⟩
  obtain ⟨-, -, hscores, hticks⟩ := published_run Farm.registry_loaded hcs
  have hrule : Farm.crowding ∈ Farm.setup.registry.validRules := List.mem_cons_self
  have hurgent : Farm.crowding ∈ Farm.setup.registry.urgentRules := List.mem_cons_self
  refine ⟨(hscores _ hrule ⟨1⟩ _).2 ⟨[], .normal both, [.urgent one], ?_, ?_, Farm.worker 1, ?_⟩,
    (hscores _ hrule ⟨2⟩ _).2 ⟨[.normal both], .urgent one, [], ?_, ?_, Farm.worker 2, ?_⟩,
    hticks [.normal both] (.urgent one) [] ⟨rfl, trivial, fun _ h => absurd h List.not_mem_nil⟩⟩
  · refine ⟨rfl, ⟨hrule, List.mem_cons_self⟩, fun d hd h => ?_⟩
    rw [List.mem_singleton.1 hd] at h
    exact absurd h.2 (by decide : (⟨1⟩ : AgentId) ∉ [(⟨2⟩ : AgentId)])
  · intro d hd hn
    rw [List.mem_singleton.1 hd] at hn
    exact hn.elim
  · exact ⟨List.mem_cons_self, rfl, rfl⟩
  · exact ⟨rfl, ⟨hurgent, List.mem_cons_self⟩, fun _ h => absurd h List.not_mem_nil⟩
  · exact fun _ h => absurd h List.not_mem_nil
  · exact ⟨List.mem_cons_self, rfl, rfl⟩

end Run

end Engine
end WorkPriority
