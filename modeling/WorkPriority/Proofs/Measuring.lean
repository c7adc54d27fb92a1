import WorkPriority.Engine
import WorkPriority.Proofs.Tables

/-!
# Laws of measuring

What an engine measures, and what it remembers of it. A cycle takes a value
from the cache only if it was stored on the same tick (`Engine.refresh_fst`),
and leaves every value that it used in the cache with the tick of the cycle
(`Engine.slot_refresh`); a question on demand may leave the cache as it is
(`Engine.slot_evaluate`). Neither changes anything but the cache and the
unknown tags that were met.

Signals of different names are measured independently of one another, so that a
cycle measures each as if it were the only one (`Engine.refreshAll_fst`).
-/

namespace WorkPriority

namespace Cache

variable {α : Type} (c : Cache α) (name : String) (now : Nat) (compute : Unit → α)

theorem refresh_fst : (c.refresh name now compute).1 = (c.stored? name now).getD (compute ()) := by
  rw [refresh]
  cases c.stored? name now <;> rfl

theorem getOrCompute_fst :
    (c.getOrCompute name now compute).1 = (c.get? name now).getD (compute ()) := by
  rw [getOrCompute]
  cases c.get? name now <;> rfl

theorem lifetime_refresh : (c.refresh name now compute).2.lifetime = c.lifetime := by
  rw [refresh]
  cases c.stored? name now <;> rfl

theorem lifetime_getOrCompute : (c.getOrCompute name now compute).2.lifetime = c.lifetime := by
  rw [getOrCompute]
  cases c.get? name now <;> rfl

/-- A value is stored at a tick if it is in the slot of its name with that tick. -/
theorem stored?_eq_some_iff {c : Cache α} {name : String} {now : Nat} {a : α} :
    c.stored? name now = some a ↔ c.slots.get? name = some (now, a) := by
  rw [stored?]
  split
  · rename_i stored b hs
    rw [hs, Option.ite_none_right_eq_some, Option.some.injEq, Option.some.injEq, Prod.mk.injEq]
  · rename_i hs
    rw [hs]
    simp

/-- A value is found if it is in the slot of its name and is alive. -/
theorem get?_eq_some_iff {c : Cache α} {name : String} {now : Nat} {a : α} :
    c.get? name now = some a ↔
      ∃ stored, c.slots.get? name = some (stored, a) ∧ now - stored < c.lifetime := by
  rw [get?]
  split
  · rename_i stored b hs
    rw [hs, Option.ite_none_right_eq_some, isAlive, decide_eq_true_eq]
    constructor
    · rintro ⟨halive, hb⟩
      exact ⟨stored, by rw [Option.some.inj hb], halive⟩
    · rintro ⟨stored', h, halive⟩
      obtain ⟨rfl, rfl⟩ := Prod.mk.inj (Option.some.inj h)
      exact ⟨halive, rfl⟩
  · rename_i hs
    rw [hs]
    simp

/-- Without a lifetime nothing is ever alive. -/
theorem get?_eq_none_of_lifetime {c : Cache α} (h : c.lifetime = 0) (name : String) (now : Nat) :
    c.get? name now = none := by
  refine Option.eq_none_iff_forall_ne_some.2 fun a ha => ?_
  obtain ⟨stored, -, halive⟩ := get?_eq_some_iff.1 ha
  exact absurd (h ▸ halive) (Nat.not_lt_zero _)

/-- Refreshing leaves the value that it gives in the slot of its name. -/
theorem slot_refresh (n : String) : (c.refresh name now compute).2.slots.get? n =
    if n = name then some (now, (c.refresh name now compute).1) else c.slots.get? n := by
  rw [refresh]
  cases h : c.stored? name now with
  | none => simp only [store, Keyed.get?_set, eq_comm]
  | some a =>
    by_cases hn : n = name
    · rw [if_pos hn, hn, stored?_eq_some_iff.1 h]
    · rw [if_neg hn]

theorem slot_getOrCompute (n : String) : (c.getOrCompute name now compute).2.slots.get? n =
    if n = name ∧ c.get? name now = none then some (now, compute ()) else c.slots.get? n := by
  rw [getOrCompute]
  cases h : c.get? name now with
  | none => simp only [store, Keyed.get?_set, and_true, eq_comm]
  | some a => simp

theorem slot_purge {c : Cache α} (hd : c.slots.Distinct) (now : Nat) (n : String) :
    (c.purge now).slots.get? n = (c.slots.get? n).filter fun slot => c.isAlive now slot.1 :=
  Keyed.get?_filter hd _ n

theorem distinct_refresh {c : Cache α} (hd : c.slots.Distinct) :
    (c.refresh name now compute).2.slots.Distinct := by
  rw [refresh]
  cases c.stored? name now with
  | none => exact Keyed.distinct_set hd _ _
  | some a => exact hd

theorem distinct_getOrCompute {c : Cache α} (hd : c.slots.Distinct) :
    (c.getOrCompute name now compute).2.slots.Distinct := by
  rw [getOrCompute]
  cases c.get? name now with
  | none => exact Keyed.distinct_set hd _ _
  | some a => exact hd

theorem distinct_purge {c : Cache α} (hd : c.slots.Distinct) : (c.purge now).slots.Distinct :=
  Keyed.distinct_filter hd _

theorem stored?_congr {c d : Cache α} {name : String}
    (h : c.slots.get? name = d.slots.get? name) : c.stored? name now = d.stored? name now := by
  rw [stored?, stored?, h]

theorem get?_congr {c d : Cache α} {name : String} (hl : c.lifetime = d.lifetime)
    (h : c.slots.get? name = d.slots.get? name) : c.get? name now = d.get? name now := by
  have halive (stored : Nat) : c.isAlive now stored = d.isAlive now stored := by
    rw [isAlive, isAlive, hl]
  simp only [get?, h, halive]

end Cache

namespace Engine

variable (e : Engine) (w : World)

/-! ### One signal -/

theorem refresh_fst (s : Signal) : (e.refresh w s).1 =
    if e.registry.isValidSignal s.name then
      (e.cache.stored? s.name w.tick).getD (e.setup.evaluators.valueOrZero w s)
    else .zero := by
  rw [refresh]
  split
  · exact Cache.refresh_fst ..
  · rfl

theorem refresh_snd (s : Signal) :
    ∃ cache unknownTags, (e.refresh w s).2 = { e with cache, unknownTags } := by
  rw [refresh]
  split
  · exact ⟨_, _, rfl⟩
  · exact ⟨_, _, rfl⟩

theorem setup_refresh (s : Signal) : (e.refresh w s).2.setup = e.setup := by
  obtain ⟨_, _, h⟩ := e.refresh_snd w s
  rw [h]

theorem cache_refresh (s : Signal) : (e.refresh w s).2.cache =
    if e.registry.isValidSignal s.name then
      (e.cache.refresh s.name w.tick fun _ => e.setup.evaluators.valueOrZero w s).2
    else e.cache := by
  rw [refresh]
  split
  · rfl
  · rfl

/-- A cycle leaves the value of a valid signal in the slot of its name. -/
theorem slot_refresh (s : Signal) (n : String) : (e.refresh w s).2.cache.slots.get? n =
    if n = s.name ∧ e.registry.isValidSignal s.name = true then some (w.tick, (e.refresh w s).1)
    else e.cache.slots.get? n := by
  rw [cache_refresh, refresh_fst]
  by_cases hv : e.registry.isValidSignal s.name = true
  · simp only [hv, if_true, and_true, Cache.slot_refresh, Cache.refresh_fst]
  · simp only [hv, and_false, if_false, Bool.false_eq_true]

theorem slot_refresh_of_ne {s : Signal} {n : String} (h : n ≠ s.name) :
    (e.refresh w s).2.cache.slots.get? n = e.cache.slots.get? n := by
  rw [slot_refresh, if_neg fun hn => h hn.1]

theorem lifetime_refresh (s : Signal) : (e.refresh w s).2.cache.lifetime = e.cache.lifetime := by
  rw [cache_refresh]
  split
  · exact Cache.lifetime_refresh ..
  · rfl

theorem distinct_refresh {e : Engine} (hd : e.cache.slots.Distinct) (s : Signal) :
    (e.refresh w s).2.cache.slots.Distinct := by
  rw [cache_refresh]
  split
  · exact Cache.distinct_refresh _ _ _ hd
  · exact hd

theorem refresh_congr {e f : Engine} (hs : e.setup = f.setup) {s : Signal}
    (hc : e.cache.slots.get? s.name = f.cache.slots.get? s.name) :
    (e.refresh w s).1 = (f.refresh w s).1 := by
  rw [refresh_fst, refresh_fst, registry, registry, hs, Cache.stored?_congr _ hc]

/-! ### All signals of a cycle -/

theorem refreshAll_cons (s : Signal) (ss : List Signal) : e.refreshAll w (s :: ss) =
    ((s.name, (e.refresh w s).1) :: ((e.refresh w s).2.refreshAll w ss).1,
      ((e.refresh w s).2.refreshAll w ss).2) :=
  rfl

theorem refreshAll_snd (ss : List Signal) :
    ∃ cache unknownTags, (e.refreshAll w ss).2 = { e with cache, unknownTags } := by
  induction ss generalizing e with
  | nil => exact ⟨e.cache, e.unknownTags, rfl⟩
  | cons s ss ih =>
    obtain ⟨cache, tags, h⟩ := ih (e.refresh w s).2
    obtain ⟨_, _, h'⟩ := e.refresh_snd w s
    exact ⟨cache, tags, by rw [refreshAll_cons, h, h']⟩

/-- What measuring one signal preserves, measuring several does. -/
theorem refreshAll_induct {P : Engine → Prop} {ss : List Signal}
    (hP : ∀ e, ∀ s ∈ ss, P e → P (e.refresh w s).2) {e : Engine} (he : P e) :
    P (e.refreshAll w ss).2 := by
  induction ss generalizing e with
  | nil => exact he
  | cons s ss ih =>
    exact ih (fun e s hs => hP e s (List.mem_cons_of_mem _ hs)) (hP e s List.mem_cons_self he)

/-- A cycle measures every signal as if it were the only one. -/
theorem refreshAll_fst {ss : List Signal} (hd : (ss.map (·.name)).Nodup) :
    (e.refreshAll w ss).1 = ss.map fun s => (s.name, (e.refresh w s).1) := by
  induction ss generalizing e with
  | nil => rfl
  | cons s ss ih =>
    rw [List.map_cons, List.nodup_cons] at hd
    rw [refreshAll_cons, ih _ hd.2, List.map_cons]
    refine congrArg _ (List.map_congr_left fun t ht => ?_)
    -- The slot of a later signal is not the one that the first has written.
    have hne : t.name ≠ s.name := fun h => hd.1 (h ▸ List.mem_map_of_mem ht)
    rw [refresh_congr w (e.setup_refresh w s) (e.slot_refresh_of_ne w hne)]

/-! ### Questions on demand -/

theorem evaluate_snd (name : String) :
    ∃ cache unknownTags, (e.evaluate w name).2 = { e with cache, unknownTags } := by
  rw [evaluate]
  split
  · exact ⟨_, _, rfl⟩
  split
  · exact ⟨_, _, rfl⟩
  · exact ⟨_, _, rfl⟩

theorem cache_evaluate (name : String) : (e.evaluate w name).2.cache =
    match e.registry.signal? name with
    | none => e.cache
    | some s =>
      if e.registry.isValidSignal name then
        (e.cache.getOrCompute name w.tick fun _ => e.setup.evaluators.valueOrZero w s).2
      else e.cache := by
  rw [evaluate]
  cases e.registry.signal? name with
  | none => rfl
  | some s => by_cases hv : e.registry.isValidSignal name = true <;> simp only [hv] <;> rfl

/-- A question on demand stores what it has to measure, in the slot of its name. -/
theorem slot_evaluate (name n : String) : (e.evaluate w name).2.cache.slots.get? n =
    match e.registry.signal? name with
    | none => e.cache.slots.get? n
    | some s =>
      if n = name ∧ e.registry.isValidSignal name = true ∧ e.cache.get? name w.tick = none then
        some (w.tick, e.setup.evaluators.valueOrZero w s)
      else e.cache.slots.get? n := by
  rw [cache_evaluate]
  cases e.registry.signal? name with
  | none => rfl
  | some s =>
    by_cases hv : e.registry.isValidSignal name = true
    · simp only [hv, if_true, true_and, Cache.slot_getOrCompute]
    · simp only [hv, and_false, false_and, if_false, Bool.false_eq_true]

theorem lifetime_evaluate (name : String) :
    (e.evaluate w name).2.cache.lifetime = e.cache.lifetime := by
  rw [cache_evaluate]
  split
  · rfl
  split
  · exact Cache.lifetime_getOrCompute ..
  · rfl

theorem distinct_evaluate {e : Engine} (hd : e.cache.slots.Distinct) (name : String) :
    (e.evaluate w name).2.cache.slots.Distinct := by
  rw [cache_evaluate]
  split
  · exact hd
  split
  · exact Cache.distinct_getOrCompute _ _ _ hd
  · exact hd

end Engine
end WorkPriority
