import WorkPriority.Proofs.Measuring
import WorkPriority.Proofs.Passes

/-!
# Runs

A host drives an engine by *calls*: it runs normal and urgent cycles and asks
for the values of signals, over whatever world it shows the engine each time. A
run is a sequence of calls (`Engine.run`).

What a call leaves behind is said here once, result by result: a normal cycle
makes the snapshot, the scores and the breakdowns anew, an urgent cycle lays
snapshot and scores over those of before, and a question on demand changes none
of them. What the rules of a cycle read is the context of the engine after the
cycle (`Engine.context`), since the snapshot is in place before a rule is
scored.

A *step lemma* says what a call preserves, and `Engine.run_induct` makes a fact
about runs of it. The results on runs are tried on the engine of a small farm
(`Farm.setup`).
-/

namespace WorkPriority

/-! ### Snapshots -/

/-- What an update has no value for keeps the value that it had. -/
theorem Snapshot.value?_merge (s : Snapshot) (tick : Nat)
    (updates : List (String × SignalValue Float)) (name : String) :
    (s.merge tick updates).value? name =
      (Keyed.lookup name updates.reverse).or (s.value? name) :=
  Keyed.get?_setAll ..

/-! ### Calls -/

/-- What a host asks of an engine, and the world that it shows. -/
inductive Call where
  /-- To run a normal cycle. -/
  | normal (w : World)
  /-- To run an urgent cycle. -/
  | urgent (w : World)
  /-- To give the value of a signal. -/
  | evaluate (w : World) (name : String)

namespace Call

/-- The world that the host shows. -/
def world : Call → World
  | normal w | urgent w | evaluate w _ => w

/-- Whether the call is that of a cycle. -/
def IsCycle : Call → Prop
  | normal _ | urgent _ => True
  | evaluate .. => False

/-- Whether the call is that of a normal cycle. -/
def IsNormal : Call → Prop
  | normal _ => True
  | urgent _ | evaluate .. => False

theorem not_isNormal_urgent (w : World) : ¬(urgent w).IsNormal := id

theorem not_isNormal_evaluate (w : World) (name : String) : ¬(evaluate w name).IsNormal := id

/-- The signals that a cycle covers: it measures them and publishes their values. -/
def signals (r : Registry) : Call → List Signal
  | normal _ => r.signals
  | urgent _ => r.urgentSignals
  | evaluate .. => []

/-- The rules that a cycle covers: it scores the agents of its world by them. -/
def rules (r : Registry) : Call → List Rule
  | normal _ => r.validRules
  | urgent _ => r.urgentRules
  | evaluate .. => []

end Call

namespace Engine

/-- The engine after a call. -/
def after (e : Engine) : Call → Engine
  | .normal w => (e.normalCycle w).2.2
  | .urgent w => (e.urgentCycle w).2
  | .evaluate w name => (e.evaluate w name).2

/-- The levels that are handed out in a call, in order. -/
def handedOut (e : Engine) : Call → List Assignment
  | .normal w => (e.normalCycle w).2.1
  | .urgent _ | .evaluate .. => []

/-- The engine after a sequence of calls. -/
def run (e : Engine) (cs : List Call) : Engine := cs.foldl after e

theorem run_concat (e : Engine) (cs : List Call) (c : Call) :
    e.run (cs ++ [c]) = (e.run cs).after c := by
  rw [run, List.foldl_append]
  rfl

/-- What every call of a run preserves, the run does. -/
theorem run_induct {P : Engine → Prop} {cs : List Call}
    (hP : ∀ e, ∀ c ∈ cs, P e → P (e.after c)) {e : Engine} (he : P e) : P (e.run cs) := by
  induction cs generalizing e with
  | nil => exact he
  | cons c cs ih =>
    exact ih (fun e d hd => hP e d (List.mem_cons_of_mem _ hd)) (hP e c List.mem_cons_self he)

variable (e : Engine) (w : World)

/-! ### What measuring leaves alone -/

theorem setup_refreshAll (ss : List Signal) : (e.refreshAll w ss).2.setup = e.setup := by
  obtain ⟨_, _, h⟩ := e.refreshAll_snd w ss
  rw [h]

theorem registry_refreshAll (ss : List Signal) : (e.refreshAll w ss).2.registry = e.registry :=
  congrArg Setup.registry (e.setup_refreshAll w ss)

/-- What an engine is built from stays what it is. -/
theorem setup_after (c : Call) : (e.after c).setup = e.setup := by
  cases c with
  | normal w => exact e.setup_refreshAll w _
  | urgent w => exact e.setup_refreshAll w _
  | evaluate w name =>
    obtain ⟨_, _, h⟩ := e.evaluate_snd w name
    rw [after, h]

theorem setup_run (cs : List Call) : (e.run cs).setup = e.setup :=
  run_induct (P := fun f => f.setup = e.setup) (fun f c _ h => (f.setup_after c).trans h) rfl

theorem registry_after (c : Call) : (e.after c).registry = e.registry :=
  congrArg Setup.registry (e.setup_after c)

theorem registry_run (cs : List Call) : (e.run cs).registry = e.registry :=
  congrArg Setup.registry (e.setup_run cs)

/-! ### Normal cycles -/

theorem signals_after_normal : (e.after (.normal w)).signals =
    .ofValues w.tick (e.refreshAll w e.registry.signals).1 :=
  rfl

theorem scores_after_normal : (e.after (.normal w)).scores =
    .ofRules ((e.after (.normal w)).context w) e.registry.validRules := by
  rw [← e.registry_refreshAll w e.registry.signals]
  rfl

theorem cache_after_normal : (e.after (.normal w)).cache =
    (e.refreshAll w e.registry.signals).2.cache.purge w.tick :=
  rfl

/-- The pass of a normal cycle. -/
theorem normalCycle_pass :
    let pass := Pass.run e.policy w (e.after (.normal w)).scores e.breakdowns
    (e.after (.normal w)).breakdowns = pass.breakdowns ∧
      e.handedOut (.normal w) = pass.assignments ∧
      (e.normalCycle w).1.ranking = some pass.summary := by
  obtain ⟨_, _, h⟩ := e.refreshAll_snd w e.registry.signals
  simp only [after, handedOut, normalCycle, h]
  exact ⟨rfl, rfl, rfl⟩

theorem agentBreakdown?_after_normal (id : AgentId) : (e.after (.normal w)).agentBreakdown? id =
    (Pass.breakdownsOf e.policy w (e.after (.normal w)).scores e.breakdowns).agent? id := by
  rw [agentBreakdown?, (e.normalCycle_pass w).1]
  rfl

/-- An agent that is not paused is ranked, by the scores of the cycle. -/
theorem agentBreakdown?_of_unpaused {w : World} (hw : w.DistinctAgents) {a : Agent}
    (ha : a ∈ w.agents) (hp : a.paused = false) : (e.after (.normal w)).agentBreakdown? a.id =
      some (e.policy.rank w.tick (e.after (.normal w)).scores a) := by
  rw [agentBreakdown?_after_normal, Pass.agent?_breakdownsOf_of_mem _ _ _ hw ha,
    Pass.breakdownOf_of_unpaused _ _ _ _ hp]

/-- A paused agent keeps what it had, be it nothing. -/
theorem agentBreakdown?_of_paused {w : World} (hw : w.DistinctAgents) {a : Agent}
    (ha : a ∈ w.agents) (hp : a.paused = true) :
    (e.after (.normal w)).agentBreakdown? a.id = e.agentBreakdown? a.id := by
  rw [agentBreakdown?_after_normal, Pass.agent?_breakdownsOf_of_mem _ _ _ hw ha,
    Pass.breakdownOf_of_paused _ _ _ _ hp]
  rfl

theorem agentBreakdown?_of_absent {w : World} {id : AgentId} (hid : id ∉ w.agentIds) :
    (e.after (.normal w)).agentBreakdown? id = none := by
  rw [agentBreakdown?_after_normal, Pass.agent?_breakdownsOf_of_not_mem _ _ _ hid]

/-! ### Urgent cycles -/

theorem signals_after_urgent : (e.after (.urgent w)).signals =
    e.signals.merge w.tick (e.refreshAll w e.registry.urgentSignals).1 := by
  obtain ⟨_, _, h⟩ := e.refreshAll_snd w e.registry.urgentSignals
  simp only [after, urgentCycle, h]
  rfl

theorem scores_after_urgent : (e.after (.urgent w)).scores =
    e.scores.merge (.ofRules ((e.after (.urgent w)).context w) e.registry.urgentRules) := by
  obtain ⟨_, _, h⟩ := e.refreshAll_snd w e.registry.urgentSignals
  simp only [after, urgentCycle, h]
  rfl

theorem breakdowns_after_urgent : (e.after (.urgent w)).breakdowns = e.breakdowns := by
  obtain ⟨_, _, h⟩ := e.refreshAll_snd w e.registry.urgentSignals
  simp only [after, urgentCycle, h]
  rfl

/-! ### Questions on demand -/

theorem results_after_evaluate (name : String) :
    (e.after (.evaluate w name)).signals = e.signals ∧
      (e.after (.evaluate w name)).scores = e.scores ∧
      (e.after (.evaluate w name)).breakdowns = e.breakdowns := by
  obtain ⟨_, _, h⟩ := e.evaluate_snd w name
  rw [after, h]
  exact ⟨rfl, rfl, rfl⟩

/-- Only normal cycles change breakdowns. -/
theorem breakdowns_after_of_not_normal {c : Call} (hc : ¬c.IsNormal) :
    (e.after c).breakdowns = e.breakdowns := by
  cases c with
  | normal w => exact absurd trivial hc
  | urgent w => exact e.breakdowns_after_urgent w
  | evaluate w name => exact (e.results_after_evaluate w name).2.2

theorem agentBreakdown?_after_of_not_normal {c : Call} (hc : ¬c.IsNormal) (id : AgentId) :
    (e.after c).agentBreakdown? id = e.agentBreakdown? id := by
  rw [agentBreakdown?, e.breakdowns_after_of_not_normal hc]
  rfl

end Engine

/-! ### Coverage -/

namespace Call

variable {r : Registry}

theorem signals_subset (c : Call) : c.signals r ⊆ r.signals := by
  cases c with
  | normal w => exact fun _ h => h
  | urgent w => exact fun _ h => List.mem_of_mem_filter h
  | evaluate w name => exact List.nil_subset _

theorem signal?_of_covered (hr : r.Distinct) (c : Call) :
    ∀ s ∈ c.signals r, r.signal? s.name = some s :=
  fun _ hs => hr.signal?_of_mem (c.signals_subset hs)

theorem rules_subset (c : Call) : c.rules r ⊆ r.validRules := by
  cases c with
  | normal w => exact fun _ h => h
  | urgent w => exact fun _ h => List.mem_of_mem_filter h
  | evaluate w name => exact List.nil_subset _

theorem nodup_signals (hr : r.Distinct) (c : Call) : ((c.signals r).map (·.name)).Nodup := by
  cases c with
  | normal w => exact hr.signals
  | urgent w => exact hr.signals.sublist (List.filter_sublist.map _)
  | evaluate w name => exact List.nodup_nil

theorem nodup_rules (hr : r.Distinct) (c : Call) : ((c.rules r).map (·.name)).Nodup := by
  have hv : (r.validRules.map (·.name)).Nodup := hr.rules.sublist (List.filter_sublist.map _)
  cases c with
  | normal w => exact hv
  | urgent w => exact hv.sublist (List.filter_sublist.map _)
  | evaluate w name => exact List.nodup_nil

end Call

/-! ### A farm -/

namespace Farm

/-- How many work on the farm; it is measured often. -/
def headcount : Signal := { name := "headcount", source := .agentCount, urgent := true }

/-- How much there is in store. -/
def stores : Signal := { name := "stores", source := .objectCount [] true }

/-- The more work there, the more there is to cook. -/
def crowding : Rule where
  name := "crowding"
  urgent := true
  conditions := [.lookup "headcount" .total]
  ranges := [⟨⟨0.0, 10.0⟩, ⟨0.0, 50.0⟩, "crowded"⟩]
  targets := [.category "cooking"]

/-- Who is in the mood for it carries in more while the stores are empty. -/
def hunger : Rule where
  name := "hunger"
  conditions := [.lookup "stores" .total, .modifier "mood" [⟨⟨0.0, 1.0⟩, 2.0, 5.0⟩]]
  ranges := [⟨⟨0.0, 100.0⟩, ⟨80.0, 0.0⟩, "hungry"⟩]
  targets := [.category "hauling"]

/-- The definitions of the farm. -/
def registry : Registry :=
  .ofParts [headcount, stores] [crowding, hunger] [{ name := "cooking" }, { name := "hauling" }] []

/-- What the engine of the farm is built from. -/
def setup : Setup := { config := {}, registry := registry }

/-- Someone who works on the farm. -/
def worker (n : Nat) : Agent := { id := ⟨n⟩, name := "worker" }

/-- Someone who has a rest. -/
def resting (n : Nat) : Agent := { worker n with paused := true }

/-- The farm at a tick. -/
def world (tick : Nat) (agents : List Agent) : World := { tick, agents }

theorem registry_loaded : setup.registry.Loaded := .ofParts ..

end Farm
end WorkPriority
