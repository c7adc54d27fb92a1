import WorkPriority.Proofs.Runs
import Mathlib.Data.Finset.Card
import Mathlib.Data.Finset.SDiff

/-!
# Levels in step with breakdowns

An engine keeps breakdowns, and its host the levels that were handed out. They
are two stores, written one after the other: a normal cycle replaces all the
breakdowns, and then hands out levels to the agents that are not paused. Still
they never part (`Session.InStep`): what the breakdown of an agent says about a
category is the level that the host has for it, however agents pause, leave and
come back (`Session.levels_run`). The levels of a paused agent stay where they
are, as does its breakdown; those of an agent who has left stay too, but its
breakdown does not.
-/

namespace WorkPriority

/-! ### Whose breakdowns are kept -/

namespace Engine

variable (e : Engine) (w : World)

/-- The agents with a breakdown. -/
def breakdownIds : Finset AgentId := e.breakdowns.agents.keys.toFinset

theorem mem_breakdownIds (id : AgentId) :
    id ∈ e.breakdownIds ↔ (e.agentBreakdown? id).isSome = true := by
  rw [breakdownIds, List.mem_toFinset, ← Keyed.has_iff_mem_keys]
  rfl

theorem distinct_breakdowns_run (s : Setup) (cs : List Call) :
    ((start s).run cs).breakdowns.agents.Distinct := by
  refine run_induct (P := fun e => e.breakdowns.agents.Distinct) (fun e c _ he => ?_)
    Keyed.distinct_empty
  cases c with
  | normal w =>
    rw [(e.normalCycle_pass w).1]
    exact Keyed.distinct_ofList _
  | urgent w =>
    rw [breakdowns_after_of_not_normal e (Call.not_isNormal_urgent w)]
    exact he
  | evaluate w name =>
    rw [breakdowns_after_of_not_normal e (Call.not_isNormal_evaluate w name)]
    exact he

/-- The levels handed out in a normal cycle are those that the new breakdowns of
    agents who are not paused have. -/
theorem mem_handedOut (x : Assignment) : x ∈ e.handedOut (.normal w) ↔
    ∃ a ∈ w.agents, a.paused = false ∧ a.id = x.agent ∧
      ∃ b, (e.after (.normal w)).agentBreakdown? a.id = some b ∧
        ∃ c ∈ b.categories, c.category = x.category ∧ c.level = x.level := by
  rw [(e.normalCycle_pass w).2.1, Pass.mem_assignments]
  simp only [agentBreakdown?_after_normal]

/-- What a normal cycle reports of its pass: every agent is ranked or paused, and
    pruned are those who had a breakdown and have none. -/
theorem ranking_normalCycle {e : Engine} (hd : e.breakdowns.agents.Distinct) :
    ∃ summary, (e.normalCycle w).1.ranking = some summary ∧
      summary.ranked + summary.paused = w.agents.length ∧
      summary.pruned = (e.breakdownIds \ (e.after (.normal w)).breakdownIds).card := by
  obtain ⟨hbreakdowns, -, hranking⟩ := e.normalCycle_pass w
  refine ⟨_, hranking, ?_, ?_⟩
  · simp only [Pass.run, List.length_map]
    have h := List.length_eq_length_filter_add (l := w.agents) (·.paused)
    omega
  · have hset : e.breakdownIds \ (e.after (.normal w)).breakdownIds =
        (e.breakdowns.agents.keys.filter fun id =>
          !(e.after (.normal w)).breakdowns.agents.has id).toFinset := by
      ext id
      simp only [breakdownIds, Finset.mem_sdiff, List.mem_toFinset, List.mem_filter,
        Bool.not_eq_true', ← Keyed.has_iff_mem_keys, Bool.not_eq_true]
    rw [hset, List.toFinset_card_of_nodup (List.Nodup.filter _ hd), hbreakdowns]
    rfl

end Engine

/-! ### Sessions -/

/-- An engine, and the levels that its host has received. -/
structure Session where
  /-- The engine. -/
  engine : Engine
  /-- The levels. -/
  levels : AssignedLevels := {}

namespace Session

/-- An engine before its first operation, whose host has no levels. -/
def start (s : Setup) : Session := { engine := .start s }

/-- The session after a call, whose levels the host has taken. -/
def after (x : Session) (c : Call) : Session where
  engine := x.engine.after c
  levels := x.levels.applyAll (x.engine.handedOut c)

/-- The session after a sequence of calls. -/
def run (x : Session) (cs : List Call) : Session := cs.foldl after x

/-- The host has the levels that the breakdowns have. -/
def InStep (x : Session) : Prop :=
  ∀ id b, x.engine.agentBreakdown? id = some b →
    ∀ c ∈ b.categories, x.levels.level? id c.category = some c.level

variable {x : Session}

theorem run_concat (x : Session) (cs : List Call) (c : Call) :
    x.run (cs ++ [c]) = (x.run cs).after c := by
  rw [run, List.foldl_append]
  rfl

theorem engine_run (x : Session) (cs : List Call) : (x.run cs).engine = x.engine.run cs := by
  induction cs generalizing x with
  | nil => rfl
  | cons c cs ih => exact ih (x.after c)

/-- Only the levels of agents who are in the world and not paused change. -/
theorem row_after {c : Call} {id : AgentId}
    (hid : ∀ a ∈ c.world.agents, a.id = id → a.paused = true) :
    (x.after c).levels.levels.get? id = x.levels.levels.get? id := by
  refine x.levels.row_applyAll fun y hy he => ?_
  cases c with
  | normal w =>
    obtain ⟨a, ha, hp, hay, -⟩ := (x.engine.mem_handedOut w y).1 hy
    have hpaused : a.paused = true := hid a ha (hay.trans he)
    rw [hp] at hpaused
    exact absurd hpaused Bool.false_ne_true
  | urgent w => exact List.not_mem_nil hy
  | evaluate w name => exact List.not_mem_nil hy

/-- An agent that is ranked gets the levels of its breakdown. -/
theorem level?_after_of_unpaused (hr : x.engine.registry.Distinct) {w : World}
    (hw : w.DistinctAgents) {a : Agent} (ha : a ∈ w.agents) (hp : a.paused = false)
    {b : AgentBreakdown} (hb : (x.engine.after (.normal w)).agentBreakdown? a.id = some b)
    {c : CategoryBreakdown} (hc : c ∈ b.categories) :
    (x.after (.normal w)).levels.level? a.id c.category = some c.level := by
  have hnames : (b.categories.map (·.category)).Nodup := by
    rw [Engine.agentBreakdown?_of_unpaused _ hw ha hp, Option.some.injEq] at hb
    rw [← hb]
    exact AgentBreakdown.nodup_categories_ofPlans hr.plans ..
  let y : Assignment := ⟨a.id, c.category, c.level⟩
  have hy : y ∈ x.engine.handedOut (.normal w) :=
    (x.engine.mem_handedOut w y).2 ⟨a, ha, hp, rfl, b, hb, c, hc, rfl, rfl⟩
  refine x.levels.level?_applyAll hy fun z hz hagent hcategory => ?_
  -- Another level of the same agent and category comes from the same breakdown.
  obtain ⟨a', -, -, ha', b', hb', c', hc', hname, hlevel⟩ := (x.engine.mem_handedOut w z).1 hz
  rw [ha', hagent, hb, Option.some.injEq] at hb'
  subst hb'
  have hcc : c' = c := List.inj_on_of_nodup_map hnames hc' hc (hname.trans hcategory)
  rw [← hlevel, hcc]

/-- A call keeps breakdowns and levels in step. -/
theorem InStep.after (hx : x.InStep) (hr : x.engine.registry.Distinct) {c : Call}
    (hw : c.world.DistinctAgents) : (x.after c).InStep := by
  intro id b hb k hk
  cases c with
  | normal w =>
    have hlevel (h : ∀ a ∈ w.agents, a.id = id → a.paused = true) :
        (x.after (.normal w)).levels.level? id k.category = x.levels.level? id k.category := by
      rw [AssignedLevels.level?, AssignedLevels.level?, row_after (c := .normal w) h]
    by_cases hid : id ∈ w.agentIds
    · obtain ⟨a, ha, rfl⟩ := List.mem_map.1 hid
      cases hp : a.paused with
      | true =>
        -- Neither the breakdown nor the levels of a paused agent change.
        rw [hlevel fun d hd he => by rw [hw.eq_of_id hd ha he, hp]]
        exact hx a.id b ((Engine.agentBreakdown?_of_paused _ hw ha hp).symm.trans hb) k hk
      | false => exact level?_after_of_unpaused hr hw ha hp hb hk
    · exact absurd ((Engine.agentBreakdown?_of_absent _ hid).symm.trans hb).symm
        (Option.some_ne_none b)
  | urgent w =>
    have hkept := x.engine.agentBreakdown?_after_of_not_normal (Call.not_isNormal_urgent w) id
    exact hx id b (hkept.symm.trans hb) k hk
  | evaluate w name =>
    have hkept :=
      x.engine.agentBreakdown?_after_of_not_normal (Call.not_isNormal_evaluate w name) id
    exact hx id b (hkept.symm.trans hb) k hk

theorem inStep_run {s : Setup} (hs : s.registry.Distinct) {cs : List Call}
    (hcs : ∀ c ∈ cs, c.world.DistinctAgents) : ((start s).run cs).InStep := by
  induction cs using List.reverseRecOn with
  | nil => exact fun _ b h => absurd h.symm (Option.some_ne_none b)
  | append_singleton cs c ih =>
    rw [run_concat]
    refine (ih fun d hd => hcs d (List.mem_append_left _ hd)).after ?_ (hcs c (by simp))
    rw [engine_run, Engine.registry_run]
    exact hs

/-- Breakdowns and levels of a session. At any point of a run, the host has the
    levels that the breakdowns have. Whatever is called next, the levels of
    agents who are paused or not in the world stay as they are. If it is a normal
    cycle, every agent that is not paused has a new breakdown of the tick, every
    paused one the breakdown that it had, and nobody else has one; and the
    report counts them. -/
theorem levels_run {s : Setup} (hs : s.registry.Loaded) {cs : List Call}
    (hcs : ∀ c ∈ cs, c.world.DistinctAgents) :
    let x := (start s).run cs
    x.InStep ∧
    (∀ c id, (∀ a ∈ c.world.agents, a.id = id → a.paused = true) →
      (x.after c).levels.levels.get? id = x.levels.levels.get? id) ∧
    ∀ w : World, w.DistinctAgents →
      let y := x.after (.normal w)
      (∀ a ∈ w.agents, a.paused = false → ∃ b, y.engine.agentBreakdown? a.id = some b ∧
        b = y.engine.policy.rank w.tick y.engine.scores a ∧ b.agent = a.id ∧ b.tick = w.tick) ∧
      (∀ a ∈ w.agents, a.paused = true →
        y.engine.agentBreakdown? a.id = x.engine.agentBreakdown? a.id) ∧
      (∀ id, id ∉ w.agentIds → y.engine.agentBreakdown? id = none) ∧
      ∃ summary, (x.engine.normalCycle w).1.ranking = some summary ∧
        summary.ranked + summary.paused = w.agents.length ∧
        summary.pruned = (x.engine.breakdownIds \ y.engine.breakdownIds).card := by
  intro x
  have hx : x.engine = (Engine.start s).run cs := engine_run _ cs
  refine ⟨inStep_run hs.distinct hcs, fun c id => row_after, fun w hw => ⟨fun a ha hp => ?_,
    fun a ha hp => Engine.agentBreakdown?_of_paused _ hw ha hp,
    fun id hid => Engine.agentBreakdown?_of_absent _ hid, ?_⟩⟩
  · have hpolicy : (x.engine.after (.normal w)).policy = x.engine.policy := by
      rw [Engine.policy, Engine.policy, Engine.registry_after, Engine.setup_after]
    refine ⟨_, Engine.agentBreakdown?_of_unpaused _ hw ha hp, ?_, rfl, rfl⟩
    rw [← hpolicy]
    rfl
  · refine Engine.ranking_normalCycle w ?_
    rw [hx]
    exact Engine.distinct_breakdowns_run s cs

/-- On a farm of two, one has a rest after it was ranked, and comes back when the
    other, who has never been ranked, has left. -/
theorem levels_run_farm :
    let x := (start Farm.setup).run [.normal (Farm.world 1 [Farm.worker 1, Farm.resting 2]),
      .normal (Farm.world 2 [Farm.resting 1, Farm.resting 2])]
    let y := x.after (.normal (Farm.world 3 [Farm.worker 1]))
    x.InStep ∧ y.levels.levels.get? ⟨2⟩ = x.levels.levels.get? ⟨2⟩ ∧
      (∃ b, y.engine.agentBreakdown? ⟨1⟩ = some b ∧ b.tick = 3) ∧
      y.engine.agentBreakdown? ⟨2⟩ = none := by
  intro x y
  have hcs : ∀ c ∈ [Call.normal (Farm.world 1 [Farm.worker 1, Farm.resting 2]),
      .normal (Farm.world 2 [Farm.resting 1, Farm.resting 2])], c.world.DistinctAgents := by
    simp only [List.mem_cons, List.not_mem_nil, or_false, forall_eq_or_imp, forall_eq]
    exact ⟨(by decide : [(⟨1⟩ : AgentId), ⟨2⟩].Nodup), (by decide : [(⟨1⟩ : AgentId), ⟨2⟩].Nodup)⟩
  obtain ⟨hstep, hrow, hcycle⟩ := levels_run Farm.registry_loaded hcs
  obtain ⟨hranked, -, hgone, -⟩ := hcycle (Farm.world 3 [Farm.worker 1])
    (by decide : [(⟨1⟩ : AgentId)].Nodup)
  have habsent : (⟨2⟩ : AgentId) ∉ [(⟨1⟩ : AgentId)] := by decide
  refine ⟨hstep, hrow (.normal (Farm.world 3 [Farm.worker 1])) ⟨2⟩ fun a ha he => ?_, ?_,
    hgone ⟨2⟩ habsent⟩
  · rw [List.mem_singleton.1 ha] at he
    exact absurd (List.mem_singleton.2 he.symm) habsent
  · obtain ⟨b, hb, -, -, htick⟩ := hranked (Farm.worker 1) List.mem_cons_self rfl
    exact ⟨b, hb, htick⟩

end Session
end WorkPriority
