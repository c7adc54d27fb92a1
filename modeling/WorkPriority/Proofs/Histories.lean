import WorkPriority.Proofs.Runs

/-!
# Histories

All that a host may do with an engine: it makes calls, lets the engine count
ticks, and puts evaluators or a source of modifiers in the place of others, in any
order and over any worlds (`Operation`). The engines that there can be are those
that such a history leaves behind (`Engine.history`).

A tick is not a step of its own kind. It moves the counters of ticks, and is
then the call that is due, if one is (`Engine.onTick_eq`). So a fact holds after
every history as soon as calls preserve it, and it does not depend on the
counters of ticks or on what the host put in the place of something
(`Engine.history_induct`).

Cycles are counted by their kind, and calls do not move the counters of ticks
(`Engine.cadence_after`). A normal cycle reports how much there is to be done,
whatever fails (`Engine.report_normal`).
-/

namespace WorkPriority

namespace Engine

variable (e : Engine) (w : World)

/-! ### Reports and counters -/

theorem length_refreshAll (ss : List Signal) : (e.refreshAll w ss).1.length = ss.length := by
  induction ss generalizing e with
  | nil => rfl
  | cons s ss ih => rw [refreshAll_cons, List.length_cons, List.length_cons, ih]

/-- A normal cycle reports how much there is to be measured and evaluated. -/
theorem report_normal : (e.normalCycle w).1 =
    { kind := .normal
      tick := w.tick
      signals := e.registry.signals.length
      rules := e.registry.validRules.length
      ranking := some (Pass.run e.policy w (e.after (.normal w)).scores e.breakdowns).summary } := by
  rw [← e.length_refreshAll w e.registry.signals]
  obtain ⟨_, _, h⟩ := e.refreshAll_snd w e.registry.signals
  simp only [after, normalCycle, h]
  rfl

theorem counters_after_normal :
    (e.after (.normal w)).cadence = e.cadence ∧
      (e.after (.normal w)).normalCycles = e.normalCycles + 1 ∧
      (e.after (.normal w)).urgentCycles = e.urgentCycles := by
  obtain ⟨_, _, h⟩ := e.refreshAll_snd w e.registry.signals
  simp only [after, normalCycle, h]
  exact ⟨rfl, rfl, rfl⟩

theorem counters_after_urgent :
    (e.after (.urgent w)).cadence = e.cadence ∧
      (e.after (.urgent w)).normalCycles = e.normalCycles ∧
      (e.after (.urgent w)).urgentCycles = e.urgentCycles + 1 := by
  obtain ⟨_, _, h⟩ := e.refreshAll_snd w e.registry.urgentSignals
  simp only [after, urgentCycle, h]
  exact ⟨rfl, rfl, rfl⟩

theorem counters_after_evaluate (name : String) :
    (e.after (.evaluate w name)).cadence = e.cadence ∧
      (e.after (.evaluate w name)).normalCycles = e.normalCycles ∧
      (e.after (.evaluate w name)).urgentCycles = e.urgentCycles := by
  obtain ⟨_, _, h⟩ := e.evaluate_snd w name
  rw [after, h]
  exact ⟨rfl, rfl, rfl⟩

/-- Calls do not count as ticks. -/
theorem cadence_after (c : Call) : (e.after c).cadence = e.cadence := by
  cases c with
  | normal w => exact (e.counters_after_normal w).1
  | urgent w => exact (e.counters_after_urgent w).1
  | evaluate w name => exact (e.counters_after_evaluate w name).1

end Engine

/-! ### Operations -/

/-- What a host may do with an engine. -/
inductive Operation where
  /-- To call it. -/
  | call (c : Call)
  /-- To let it count a tick, and run the cycle that is due. -/
  | tick (w : World)
  /-- To put an evaluator in the place of another. -/
  | register (kind : SourceKind) (f : Evaluator)
  /-- To give it another source of modifiers. -/
  | provide (m : ModifierProvider)

/-- The world that the host shows, if it shows one. -/
def Operation.world? : Operation → Option World
  | call c => some c.world
  | tick w => some w
  | register .. | provide _ => none

namespace Engine

/-- The engine after an operation. -/
def perform (e : Engine) : Operation → Engine
  | .call c => e.after c
  | .tick w => (e.onTick w).2.2
  | .register kind f => e.registerEvaluator kind f
  | .provide m => e.withModifiers m

/-- The engine after operations, one after the other. -/
def history (e : Engine) (ops : List Operation) : Engine := ops.foldl perform e

variable (e : Engine) (w : World)

/-- The engine when a tick is counted, before a cycle is run. -/
def counted : Engine := { e with cadence := e.cadence.tick.2 }

/-- A tick is counted, and then the cycle is run that is due. -/
theorem onTick_eq : e.onTick w =
    if e.cadence.tick.1.normal then
      (some (e.counted.normalCycle w).1, (e.counted.normalCycle w).2.1,
        e.counted.after (.normal w))
    else if e.cadence.tick.1.urgent then
      (some (e.counted.urgentCycle w).1, [], e.counted.after (.urgent w))
    else (none, [], e.counted) :=
  rfl

theorem setup_tick : (e.perform (.tick w)).setup = e.setup := by
  rw [perform, onTick_eq]
  split
  · exact setup_after ..
  split
  · exact setup_after ..
  · rfl

/-- What calls, the counting of ticks and the operations without a world preserve, every
    history does. -/
theorem history_induct {P : Engine → Prop} {ops : List Operation}
    (hcall : ∀ e, ∀ op ∈ ops, ∀ c : Call, op.world? = some c.world → P e → P (e.after c))
    (hcount : ∀ e : Engine, P e → P e.counted)
    (hbuild : ∀ e, ∀ op ∈ ops, op.world? = none → P e → P (e.perform op))
    {e : Engine} (he : P e) : P (e.history ops) := by
  induction ops generalizing e with
  | nil => exact he
  | cons op ops ih =>
    refine ih (fun e op hop => hcall e op (List.mem_cons_of_mem _ hop))
      (fun e op hop => hbuild e op (List.mem_cons_of_mem _ hop)) ?_
    have hop : op ∈ op :: ops := List.mem_cons_self
    cases op with
    | call c => exact hcall e _ hop c rfl he
    | tick w =>
      have hcounted := hcount e he
      rw [perform, onTick_eq]
      split
      · exact hcall _ _ hop (.normal w) rfl hcounted
      split
      · exact hcall _ _ hop (.urgent w) rfl hcounted
      · exact hcounted
    | register kind f => exact hbuild e _ hop rfl he
    | provide m => exact hbuild e _ hop rfl he

/-- An operation without a world changes what the engine is built from, and neither
    its definitions nor what it has come to. -/
theorem perform_of_no_world {op : Operation} (h : op.world? = none) :
    ∃ evaluators modifiers,
      e.perform op = { e with setup := { e.setup with evaluators, modifiers } } := by
  cases op with
  | call c => exact absurd h (Option.some_ne_none _)
  | tick w => exact absurd h (Option.some_ne_none _)
  | register kind f => exact ⟨_, _, rfl⟩
  | provide m => exact ⟨_, _, rfl⟩

end Engine

end WorkPriority
