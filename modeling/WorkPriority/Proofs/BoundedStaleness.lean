import WorkPriority.Proofs.LastWriter

/-!
# Answers on demand are not stale

Three operations write the cache of an engine and a fourth drops from it, and a
question on demand is answered from whatever they have left there. Still its
answer is never older than the lifetime of the cache, and it does not contradict
a cycle that is younger than that (`Engine.answers_run`).

What there is to know about a valid signal is its *slot* in the cache, so each
call is described by what it does to that slot. A cycle that covers the signal
puts the value there that it publishes, a question about the signal what it has
to measure, and any other call leaves the slot alone. Dropping what is not alive
is no exception: a normal cycle covers every signal, and what it has just put
into a slot is alive.
-/

namespace WorkPriority

namespace Call

/-- The call asks for a signal: it covers the signal, or is a question about it. -/
def AsksFor (r : Registry) (t : Signal) (c : Call) : Prop :=
  t ∈ c.signals r ∨ ∃ w, c = .evaluate w t.name

/-- The worlds that the calls show never go back in time. -/
def InOrder (cs : List Call) : Prop := cs.Pairwise fun c d => c.world.tick ≤ d.world.tick

end Call

namespace Engine

/-! ### Cycles that spare the cache -/

/-- The engine after a call, in which a normal cycle may *spare* the cache: it
    does all that it does otherwise, but drops nothing. -/
def afterSparing (e : Engine) : Call × Bool → Engine
  | (.normal w, true) =>
    { e.after (.normal w) with cache := (e.refreshAll w e.registry.signals).2.cache }
  | (c, _) => e.after c

/-- The engine after calls, of which those that are marked spare the cache. -/
def runSparing (e : Engine) (ms : List (Call × Bool)) : Engine := ms.foldl afterSparing e

/-! ### The cache of a run -/

variable {e : Engine}

theorem cache_after_urgent (e : Engine) (w : World) : (e.after (.urgent w)).cache =
    (e.refreshAll w e.registry.urgentSignals).2.cache :=
  rfl

theorem lifetime_refreshAll (e : Engine) (w : World) (ss : List Signal) :
    (e.refreshAll w ss).2.cache.lifetime = e.cache.lifetime :=
  refreshAll_induct w (P := fun f => f.cache.lifetime = e.cache.lifetime)
    (fun f s _ h => (f.lifetime_refresh w s).trans h) rfl

theorem lifetime_after (e : Engine) (c : Call) : (e.after c).cache.lifetime = e.cache.lifetime := by
  cases c with
  | normal w => exact e.lifetime_refreshAll w _
  | urgent w => exact e.lifetime_refreshAll w _
  | evaluate w name => exact e.lifetime_evaluate w name

theorem lifetime_run (s : Setup) (cs : List Call) :
    ((start s).run cs).cache.lifetime = s.config.cacheLifetime :=
  run_induct (P := fun e => e.cache.lifetime = s.config.cacheLifetime)
    (fun e c _ h => (e.lifetime_after c).trans h) rfl

/-- To spare the cache makes no difference but in the cache. -/
theorem afterSparing_eq (e : Engine) (m : Call × Bool) : ∃ cache,
    cache.lifetime = e.cache.lifetime ∧ e.afterSparing m = { e.after m.1 with cache } := by
  obtain ⟨c, spares⟩ := m
  cases c with
  | normal w =>
    cases spares with
    | true => exact ⟨_, e.lifetime_refreshAll w _, rfl⟩
    | false => exact ⟨_, e.lifetime_after (.normal w), rfl⟩
  | urgent w => exact ⟨_, e.lifetime_after (.urgent w), rfl⟩
  | evaluate w name => exact ⟨_, e.lifetime_after (.evaluate w name), rfl⟩

theorem distinct_refreshAll (hd : e.cache.slots.Distinct) (w : World) (ss : List Signal) :
    (e.refreshAll w ss).2.cache.slots.Distinct :=
  refreshAll_induct w (P := fun f => f.cache.slots.Distinct)
    (fun _ s _ h => distinct_refresh w h s) hd

theorem distinct_slots_after (hd : e.cache.slots.Distinct) (c : Call) :
    (e.after c).cache.slots.Distinct := by
  cases c with
  | normal w => exact Cache.distinct_purge _ (distinct_refreshAll hd w _)
  | urgent w => exact distinct_refreshAll hd w _
  | evaluate w name => exact distinct_evaluate w hd name

/-! ### The slot of a signal -/

section Slot

variable {t : Signal} {w : World}

/-- What a cycle measures leaves the slots alone of which no valid signal has the name. -/
theorem slot_refreshAll_of_invalid {ss : List Signal} {name : String}
    (h : ∀ s ∈ ss, s.name = name → ¬e.registry.isValidSignal s.name = true) :
    (e.refreshAll w ss).2.cache.slots.get? name = e.cache.slots.get? name := by
  refine (refreshAll_induct w (P := fun f => f.registry = e.registry ∧
    f.cache.slots.get? name = e.cache.slots.get? name) (fun f s hs hf => ?_) ⟨rfl, rfl⟩).2
  obtain ⟨hreg, hslot⟩ := hf
  refine ⟨(congrArg Setup.registry (f.setup_refresh w s)).trans hreg, ?_⟩
  rw [slot_refresh, if_neg fun hn => h s hs hn.1.symm (hreg ▸ hn.2), hslot]

theorem slot_refreshAll_of_unnamed {ss : List Signal} {name : String}
    (hname : ∀ s ∈ ss, s.name ≠ name) :
    (e.refreshAll w ss).2.cache.slots.get? name = e.cache.slots.get? name :=
  slot_refreshAll_of_invalid fun s hs hn => absurd hn (hname s hs)

/-- Of the signals that a cycle measures each has its value in its slot. -/
theorem slot_refreshAll_of_mem {ss : List Signal} (hd : (ss.map (·.name)).Nodup) (ht : t ∈ ss)
    (hv : e.registry.isValidSignal t.name = true) :
    (e.refreshAll w ss).2.cache.slots.get? t.name = some (w.tick, (e.refresh w t).1) := by
  induction ss generalizing e with
  | nil => exact absurd ht List.not_mem_nil
  | cons s ss ih =>
    rw [List.map_cons, List.nodup_cons] at hd
    have hvalid : (e.refresh w s).2.registry.isValidSignal t.name = true := by
      rw [registry, setup_refresh]
      exact hv
    rw [refreshAll_cons]
    rcases List.mem_cons.1 ht with rfl | hmem
    · -- No later signal has the name of this one.
      have hlater : ∀ s ∈ ss, s.name ≠ t.name := fun s hs hn => hd.1 (hn ▸ List.mem_map_of_mem hs)
      rw [slot_refreshAll_of_unnamed hlater, slot_refresh, if_pos ⟨rfl, hv⟩]
    · have hne : t.name ≠ s.name := fun hn => hd.1 (hn ▸ List.mem_map_of_mem hmem)
      rw [ih hd.2 hmem hvalid, refresh_congr w (e.setup_refresh w s) (e.slot_refresh_of_ne w hne)]

/-- A cycle that covers a signal leaves in its slot what it publishes. What was put
    there in the cycle itself is alive, so it is not dropped. -/
theorem slot_after_of_covered (hr : e.registry.Distinct) (hd : e.cache.slots.Distinct)
    (hl : 0 < e.cache.lifetime) (hv : e.registry.isValidSignal t.name = true) {c : Call}
    (ht : t ∈ c.signals e.registry) : (e.after c).cache.slots.get? t.name =
      some (c.world.tick, (e.refresh c.world t).1) := by
  have hnames := Call.nodup_signals hr c
  cases c with
  | normal w =>
    have hslot := slot_refreshAll_of_mem (w := w) hnames ht hv
    rw [cache_after_normal, Cache.slot_purge (distinct_refreshAll hd w _),
      Option.filter_eq_some_iff]
    refine ⟨hslot, ?_⟩
    rw [Cache.isAlive, lifetime_refreshAll, decide_eq_true_eq, Call.world, Nat.sub_self]
    exact hl
  | urgent w => exact slot_refreshAll_of_mem hnames ht hv
  | evaluate w name => exact absurd ht List.not_mem_nil

/-- A question about a signal puts into its slot what it has to measure. -/
theorem slot_after_evaluate (hfound : e.registry.signal? t.name = some t)
    (hv : e.registry.isValidSignal t.name = true) (w : World) :
    (e.after (.evaluate w t.name)).cache.slots.get? t.name =
      if e.cache.get? t.name w.tick = none then some (w.tick, e.setup.evaluators.valueOrZero w t)
      else e.cache.slots.get? t.name := by
  rw [after, slot_evaluate, hfound]
  simp only [hv, true_and]

/-- A call that does not ask for a signal leaves its slot alone. -/
theorem slot_after_of_unasked (hr : e.registry.Distinct) (ht : t ∈ e.registry.signals) {c : Call}
    (hc : ¬c.AsksFor e.registry t) :
    (e.after c).cache.slots.get? t.name = e.cache.slots.get? t.name := by
  rw [Call.AsksFor, not_or] at hc
  cases c with
  | normal w => exact absurd ht hc.1
  | urgent w =>
    rw [cache_after_urgent]
    refine slot_refreshAll_of_unnamed fun s hs hn => ?_
    -- Only `t` itself has its name.
    have hst : s = t := hr.eq_of_signal ((Call.urgent w).signals_subset hs) ht hn
    exact hc.1 (hst ▸ hs)
  | evaluate w name =>
    rw [after, slot_evaluate]
    have hne : t.name ≠ name := fun hn => hc.2 ⟨w, hn ▸ rfl⟩
    cases e.registry.signal? name with
    | none => rfl
    | some s => exact if_neg fun hn => hne hn.1

/-- What a question on demand is answered with. -/
theorem evaluate_fst (hfound : e.registry.signal? t.name = some t)
    (hv : e.registry.isValidSignal t.name = true) (w : World) : (e.evaluate w t.name).1 =
      some ((e.cache.get? t.name w.tick).getD (e.setup.evaluators.valueOrZero w t)) := by
  rw [evaluate, hfound]
  simp only [hv, if_true, Cache.getOrCompute_fst]

end Slot

/-! ### Where values come from -/

section Run

variable {s : Setup} {t : Signal}

theorem distinct_slots_run (s : Setup) (cs : List Call) :
    ((start s).run cs).cache.slots.Distinct :=
  run_induct (P := fun e => e.cache.slots.Distinct) (fun _ c _ h => distinct_slots_after h c)
    Keyed.distinct_empty

variable (hs : s.registry.Distinct) (ht : t ∈ s.registry.signals)
  (hv : s.registry.isValidSignal t.name = true)

include hs ht hv

/-- What is in a slot was measured in the world of a call that asked for it, and
    has the tick of that world. -/
theorem measured_of_slot (hl : 0 < s.config.cacheLifetime) {cs : List Call} {tick : Nat}
    {v : SignalValue Float}
    (h : ((start s).run cs).cache.slots.get? t.name = some (tick, v)) :
    ∃ c ∈ cs, c.AsksFor s.registry t ∧ c.world.tick = tick ∧
      v = s.evaluators.valueOrZero c.world t := by
  induction cs using List.reverseRecOn generalizing tick v with
  | nil => exact absurd h.symm (Option.some_ne_none _)
  | append_singleton cs c ih =>
    have hsetup : ((start s).run cs).setup = s := setup_run _ cs
    have hreg : ((start s).run cs).registry = s.registry := registry_run _ cs
    have hlife : 0 < ((start s).run cs).cache.lifetime := (lifetime_run s cs).symm ▸ hl
    -- A value that was in the slot before comes from a call before.
    have hbefore {tick : Nat} {v : SignalValue Float}
        (h : ((start s).run cs).cache.slots.get? t.name = some (tick, v)) :
        ∃ d ∈ cs ++ [c], d.AsksFor s.registry t ∧ d.world.tick = tick ∧
          v = s.evaluators.valueOrZero d.world t := by
      obtain ⟨d, hd, hrest⟩ := ih h
      exact ⟨d, List.mem_append_left _ hd, hrest⟩
    have hlast : c ∈ cs ++ [c] := List.mem_append_right _ (List.mem_singleton_self c)
    rw [run_concat] at h
    by_cases hasks : c.AsksFor s.registry t
    · rcases hasks with hcov | ⟨w, rfl⟩
      · rw [slot_after_of_covered (hreg ▸ hs) (distinct_slots_run s cs) hlife (hreg ▸ hv)
          (hreg ▸ hcov)] at h
        obtain ⟨rfl, rfl⟩ := Prod.mk.inj (Option.some.inj h)
        rw [refresh_fst, hreg, if_pos hv, hsetup]
        -- The cycle may have taken what an earlier call of its tick has left.
        cases hstored : ((start s).run cs).cache.stored? t.name c.world.tick with
        | none => exact ⟨c, hlast, .inl hcov, rfl, rfl⟩
        | some v => exact hbefore (Cache.stored?_eq_some_iff.1 hstored)
      · rw [slot_after_evaluate (hreg ▸ hs.signal?_of_mem ht) (hreg ▸ hv), hsetup] at h
        split at h
        · obtain ⟨rfl, rfl⟩ := Prod.mk.inj (Option.some.inj h)
          exact ⟨_, hlast, .inr ⟨w, rfl⟩, rfl, rfl⟩
        · exact hbefore h
    · rw [slot_after_of_unasked (hreg ▸ hs) (hreg ▸ ht) (hreg ▸ hasks)] at h
      exact hbefore h

/-! ### What the last cycle has published -/

/-- What an engine has in the slot of a signal, from a cycle at a tick, is the value that it
    publishes for the signal. -/
structure SlotPublished (s : Setup) (t : Signal) (tick : Nat) (v : SignalValue Float)
    (e : Engine) : Prop where
  registry : e.registry = s.registry
  lifetime : e.cache.lifetime = s.config.cacheLifetime
  slot : e.cache.slots.get? t.name = some (tick, v)
  value : e.signals.value? t.name = some v

omit ht in
/-- A cycle that covers the signal sees to it. -/
theorem slotPublished_after_of_covered (hl : 0 < s.config.cacheLifetime) (cs : List Call)
    {c : Call} (hcov : t ∈ c.signals s.registry) :
    SlotPublished s t c.world.tick (((start s).run cs).refresh c.world t).1
      (((start s).run cs).after c) := by
  have hreg : ((start s).run cs).registry = s.registry := registry_run _ cs
  have hlife := lifetime_run s cs
  refine ⟨(registry_after ..).trans hreg, (lifetime_after ..).trans hlife, ?_, ?_⟩
  · exact slot_after_of_covered (hreg ▸ hs) (distinct_slots_run s cs) (hlife ▸ hl) (hreg ▸ hv)
      (hreg ▸ hcov)
  · exact value?_after_of_covered (hreg ▸ hs) (hreg ▸ hcov)

/-- While the value is alive, only a cycle that covers the signal changes that. -/
theorem SlotPublished.after {tick : Nat} {v : SignalValue Float} {e : Engine}
    (h : SlotPublished s t tick v e) {c : Call} (huncov : t ∉ c.signals s.registry)
    (halive : c.world.tick - tick < s.config.cacheLifetime) :
    SlotPublished s t tick v (e.after c) := by
  have hreg := h.registry
  refine ⟨(e.registry_after c).trans hreg, (e.lifetime_after c).trans h.lifetime, ?_, ?_⟩
  · by_cases hasks : c.AsksFor e.registry t
    · rcases hasks with hmem | ⟨w, rfl⟩
      · exact absurd (hreg ▸ hmem) huncov
      · -- The question finds the value alive, and so it has nothing to measure.
        have hfound : e.cache.get? t.name w.tick = some v :=
          Cache.get?_eq_some_iff.2 ⟨tick, h.slot, h.lifetime ▸ halive⟩
        rw [slot_after_evaluate (hreg ▸ hs.signal?_of_mem ht) (hreg ▸ hv), hfound, if_neg
          (Option.some_ne_none _)]
        exact h.slot
    · rw [slot_after_of_unasked (hreg ▸ hs) (hreg ▸ ht) hasks]
      exact h.slot
  · rw [value?_after_of_uncovered (hreg ▸ hs) (hreg ▸ ht) (hreg ▸ huncov)]
    exact h.value

/-- While what the last cycle that covered a signal has published is alive, it is
    in the slot of the signal. -/
theorem slotPublished_of_isLast {cs before after : List Call} {c : Call}
    (hlast : IsLast (fun c => t ∈ c.signals s.registry) cs before c after) {now : Nat}
    (hafter : ∀ d ∈ after, d.world.tick ≤ now)
    (halive : now - c.world.tick < s.config.cacheLifetime) :
    ∃ v, SlotPublished s t c.world.tick v ((start s).run cs) := by
  have hrun : (start s).run cs = (((start s).run before).after c).run after := by
    rw [hlast.split, run, List.foldl_append]
    rfl
  rw [hrun]
  refine ⟨_, run_induct (fun e d hd h => ?_) (slotPublished_after_of_covered hs hv
    (Nat.zero_lt_of_lt halive) before hlast.holds)⟩
  refine h.after hs ht hv (hlast.last d hd) (Nat.lt_of_le_of_lt ?_ halive)
  exact Nat.sub_le_sub_right (hafter d hd) _

end Run

/-! ### What is dropped -/

/-- Two engines are built from the same, and have the same in the slot of a signal. -/
structure SameSlot (t : Signal) (e f : Engine) : Prop where
  setup : f.setup = e.setup
  lifetime : f.cache.lifetime = e.cache.lifetime
  slot : f.cache.slots.get? t.name = e.cache.slots.get? t.name

section Sparing

variable {f : Engine} {t : Signal}

/-- Engines with the same in a slot give the same answer. -/
theorem SameSlot.evaluate_fst (h : SameSlot t e f) (hfound : e.registry.signal? t.name = some t)
    (hv : e.registry.isValidSignal t.name = true) (w : World) :
    (f.evaluate w t.name).1 = (e.evaluate w t.name).1 := by
  have hreg : f.registry = e.registry := congrArg Setup.registry h.setup
  rw [Engine.evaluate_fst (hreg ▸ hfound) (hreg ▸ hv), Engine.evaluate_fst hfound hv, h.setup,
    Cache.get?_congr w.tick h.lifetime h.slot]

variable (hr : e.registry.Distinct) (ht : t ∈ e.registry.signals)
  (hv : e.registry.isValidSignal t.name = true) (hl : 0 < e.cache.lifetime)

include hr ht hv hl

theorem SameSlot.after (h : SameSlot t e f) (hde : e.cache.slots.Distinct)
    (hdf : f.cache.slots.Distinct) (c : Call) : SameSlot t (e.after c) (f.after c) := by
  have hreg : f.registry = e.registry := congrArg Setup.registry h.setup
  refine ⟨?_, ?_, ?_⟩
  · rw [setup_after, setup_after, h.setup]
  · rw [lifetime_after, lifetime_after, h.lifetime]
  by_cases hasks : c.AsksFor e.registry t
  · rcases hasks with hcov | ⟨w, rfl⟩
    · rw [slot_after_of_covered hr hde hl hv hcov, slot_after_of_covered (hreg ▸ hr) hdf
        (h.lifetime ▸ hl) (hreg ▸ hv) (hreg ▸ hcov), refresh_congr c.world h.setup h.slot]
    · have hfound := hr.signal?_of_mem ht
      rw [slot_after_evaluate hfound hv, slot_after_evaluate (hreg ▸ hfound) (hreg ▸ hv), h.setup,
        Cache.get?_congr w.tick h.lifetime h.slot, h.slot]
  · rw [slot_after_of_unasked hr ht hasks, slot_after_of_unasked (hreg ▸ hr) (hreg ▸ ht)
      (hreg ▸ hasks), h.slot]

/-- A normal cycle that spares the cache leaves the same in the slot. -/
theorem sameSlot_afterSparing (hd : e.cache.slots.Distinct) (m : Call × Bool) :
    SameSlot t (e.after m.1) (e.afterSparing m) ∧ (e.afterSparing m).cache.slots.Distinct := by
  obtain ⟨c, spares⟩ := m
  by_cases hm : spares = true ∧ c.IsNormal
  · obtain ⟨rfl, hc⟩ := hm
    cases c with
    | normal w =>
      refine ⟨⟨rfl, ?_, ?_⟩, distinct_refreshAll hd w _⟩
      · rw [lifetime_after]
        exact e.lifetime_refreshAll w _
      · rw [slot_after_of_covered hr hd hl hv (c := .normal w) ht]
        exact slot_refreshAll_of_mem hr.signals ht hv
    | urgent w => exact hc.elim
    | evaluate w name => exact hc.elim
  · have hsame : e.afterSparing (c, spares) = e.after c := by
      cases c with
      | normal w =>
        cases spares with
        | true => exact absurd ⟨rfl, trivial⟩ hm
        | false => rfl
      | urgent w => rfl
      | evaluate w name => rfl
    rw [hsame]
    exact ⟨⟨rfl, rfl, rfl⟩, distinct_slots_after hd c⟩

end Sparing

theorem SameSlot.trans {t : Signal} {f g : Engine} (h : SameSlot t e f) (h' : SameSlot t f g) :
    SameSlot t e g :=
  ⟨h'.setup.trans h.setup, h'.lifetime.trans h.lifetime, h'.slot.trans h.slot⟩

section Answers

variable {s : Setup} {t : Signal}

theorem parts_runSparing (s : Setup) (ms : List (Call × Bool)) :
    ((start s).runSparing ms).setup = s ∧
      ((start s).runSparing ms).cache.lifetime = s.config.cacheLifetime := by
  induction ms using List.reverseRecOn with
  | nil => exact ⟨rfl, rfl⟩
  | append_singleton ms m ih =>
    obtain ⟨cache, hlife, h⟩ := ((start s).runSparing ms).afterSparing_eq m
    have hrun : (start s).runSparing (ms ++ [m]) = ((start s).runSparing ms).afterSparing m := by
      rw [runSparing, List.foldl_append]
      rfl
    rw [hrun, h]
    exact ⟨(setup_after _ m.1).trans ih.1, hlife.trans ih.2⟩

/-- Whatever the cycles of a run spare, they leave the same in a slot. -/
theorem sameSlot_runSparing (hs : s.registry.Distinct) (ht : t ∈ s.registry.signals)
    (hv : s.registry.isValidSignal t.name = true) (hl : 0 < s.config.cacheLifetime)
    (ms : List (Call × Bool)) :
    SameSlot t ((start s).run (ms.map Prod.fst)) ((start s).runSparing ms) ∧
      ((start s).runSparing ms).cache.slots.Distinct := by
  induction ms using List.reverseRecOn with
  | nil => exact ⟨⟨rfl, rfl, rfl⟩, Keyed.distinct_empty⟩
  | append_singleton ms m ih =>
    obtain ⟨hsame, hdf⟩ := ih
    have hreg : ((start s).run (ms.map Prod.fst)).registry = s.registry := registry_run ..
    have hregf : ((start s).runSparing ms).registry = s.registry :=
      (congrArg Setup.registry hsame.setup).trans hreg
    have hlife : 0 < ((start s).run (ms.map Prod.fst)).cache.lifetime := by
      rw [lifetime_run]
      exact hl
    have hafter := hsame.after (hreg ▸ hs) (hreg ▸ ht) (hreg ▸ hv) hlife
      (distinct_slots_run ..) hdf m.1
    obtain ⟨hspared, hd⟩ := sameSlot_afterSparing (hregf ▸ hs) (hregf ▸ ht) (hregf ▸ hv)
      (hsame.lifetime ▸ hlife) hdf m
    rw [List.map_append, List.map_singleton, run_concat, runSparing, List.foldl_append]
    exact ⟨hafter.trans hspared, hd⟩

/-- Whatever the cycles of a run spare, questions are answered in the same way. -/
theorem evaluate_fst_runSparing (hs : s.registry.Distinct) (ms : List (Call × Bool)) (w : World)
    (name : String) : (((start s).runSparing ms).evaluate w name).1 =
      (((start s).run (ms.map Prod.fst)).evaluate w name).1 := by
  obtain ⟨hsetup, hlife⟩ := parts_runSparing s ms
  have hreg : ((start s).run (ms.map Prod.fst)).registry = s.registry := registry_run ..
  have hregf : ((start s).runSparing ms).registry = s.registry := congrArg Setup.registry hsetup
  cases hfound : s.registry.signal? name with
  | none => rw [evaluate, evaluate, hreg, hregf, hfound]
  | some t =>
    obtain ⟨ht, rfl⟩ := hs.signal?_eq_some_iff.1 hfound
    by_cases hv : s.registry.isValidSignal t.name = true
    · by_cases hl : 0 < s.config.cacheLifetime
      · exact (sameSlot_runSparing hs ht hv hl ms).1.evaluate_fst (hreg ▸ hfound) (hreg ▸ hv) w
      · -- Nothing is ever alive, so whatever is in the slots, the answer is measured.
        have hzero : s.config.cacheLifetime = 0 := Nat.eq_zero_of_not_pos hl
        rw [evaluate_fst (hregf ▸ hfound) (hregf ▸ hv), evaluate_fst (hreg ▸ hfound) (hreg ▸ hv),
          hsetup, setup_run, Cache.get?_eq_none_of_lifetime (hlife.trans hzero),
          Cache.get?_eq_none_of_lifetime ((lifetime_run ..).trans hzero)]
        rfl
    · rw [evaluate, evaluate, hreg, hregf, hfound]
      simp only [hv, if_false, Bool.false_eq_true]

/-- What a question about a valid signal is answered with after a run whose worlds
    never go back in time. The answer was measured in the world of the question, or
    in that of a call that asked for the signal so late that what was measured is
    still alive. If what the last cycle that covered the signal has published is
    alive, then that is the answer. And whatever the cycles of the run drop from the
    cache, no question is answered differently for it. -/
theorem answers_run (hs : s.registry.Loaded) (ht : t ∈ s.registry.signals)
    (hv : s.registry.isValidSignal t.name = true) {cs : List Call} {w : World}
    (horder : Call.InOrder (cs ++ [.evaluate w t.name])) :
    let e := (start s).run cs
    (∃ v, (e.evaluate w t.name).1 = some v ∧
      (v = s.evaluators.valueOrZero w t ∨
        ∃ c ∈ cs, c.AsksFor s.registry t ∧ c.world.tick ≤ w.tick ∧
          w.tick - c.world.tick < s.config.cacheLifetime ∧
          v = s.evaluators.valueOrZero c.world t) ∧
      ∀ before c after, IsLast (fun c => t ∈ c.signals s.registry) cs before c after →
        w.tick - c.world.tick < s.config.cacheLifetime → e.signals.value? t.name = some v) ∧
    ∀ ms : List (Call × Bool), ms.map Prod.fst = cs → ∀ name,
      (((start s).runSparing ms).evaluate w name).1 = (e.evaluate w name).1 := by
  intro e
  have hd := hs.distinct
  have hreg : e.registry = s.registry := registry_run _ cs
  have hlife : e.cache.lifetime = s.config.cacheLifetime := lifetime_run s cs
  have hpast : ∀ c ∈ cs, c.world.tick ≤ w.tick := by
    intro c hc
    exact (List.pairwise_append.1 horder).2.2 c hc _ (List.mem_singleton_self _)
  refine ⟨⟨(e.cache.get? t.name w.tick).getD (s.evaluators.valueOrZero w t), ?_, ?_, ?_⟩, ?_⟩
  · rw [evaluate_fst (hreg ▸ hd.signal?_of_mem ht) (hreg ▸ hv), setup_run]
    rfl
  · cases hget : e.cache.get? t.name w.tick with
    | none => exact .inl rfl
    | some v =>
      obtain ⟨tick, hslot, halive⟩ := Cache.get?_eq_some_iff.1 hget
      rw [hlife] at halive
      obtain ⟨c, hc, hasks, rfl, hvalue⟩ :=
        measured_of_slot hd ht hv (Nat.zero_lt_of_lt halive) hslot
      exact .inr ⟨c, hc, hasks, hpast c hc, halive, hvalue⟩
  · intro before c after hlast halive
    have hafter : ∀ d ∈ after, d.world.tick ≤ w.tick := fun d hmem =>
      hpast d (hlast.split ▸ List.mem_append_right _ (List.mem_cons_of_mem _ hmem))
    obtain ⟨v, hv⟩ := slotPublished_of_isLast hd ht hv hlast hafter halive
    have hget : e.cache.get? t.name w.tick = some v :=
      Cache.get?_eq_some_iff.2 ⟨_, hv.slot, hlife ▸ halive⟩
    rw [hv.value, hget]
    rfl
  · rintro ms rfl name
    exact evaluate_fst_runSparing hd ms w name

/-- At tick 20 the workers of a farm were last counted at tick 12, and then someone
    asked for the stores, which were last looked at in the normal cycle of tick 3.
    All of that is alive, and both answers are those that were published. -/
theorem answers_run_farm :
    let w := Farm.world 20 []
    let cs : List Call := [.normal (Farm.world 3 [Farm.worker 1]),
      .urgent (Farm.world 12 [Farm.worker 1, Farm.worker 2]), .evaluate w "stores"]
    let e := (start Farm.setup).run cs
    let f := (start Farm.setup).runSparing (cs.map (·, true))
    (∃ v, (e.evaluate w "headcount").1 = some v ∧ e.signals.value? "headcount" = some v) ∧
      (∃ v, (e.evaluate w "stores").1 = some v ∧ e.signals.value? "stores" = some v) ∧
      (f.evaluate w "stores").1 = (e.evaluate w "stores").1 := by
  intro w cs e f
  have horder (name : String) : Call.InOrder (cs ++ [.evaluate w name]) := by
    simp [Call.InOrder, cs, w, Call.world, Farm.world]
  have hheadcount : Farm.headcount ∈ Farm.setup.registry.signals := List.mem_cons_self
  have hstores : Farm.stores ∈ Farm.setup.registry.signals :=
    List.mem_cons_of_mem _ List.mem_cons_self
  have hcalm : Farm.stores ∉ Farm.setup.registry.urgentSignals := fun h =>
    Bool.false_ne_true (List.mem_filter.1 h).2
  obtain ⟨⟨v, hv, -, hlast⟩, -⟩ := answers_run Farm.registry_loaded hheadcount rfl (horder _)
  obtain ⟨⟨u, hu, -, hlast'⟩, hsparing⟩ := answers_run Farm.registry_loaded hstores rfl (horder _)
  refine ⟨⟨v, hv, hlast [_] _ [_] ⟨rfl, List.mem_cons_self, ?_⟩ (by decide)⟩,
    ⟨u, hu, hlast' [] _ [_, _] ⟨rfl, hstores, ?_⟩ (by decide)⟩, hsparing _ rfl _⟩
  · simp [Call.signals]
  · simp [Call.signals, hcalm]

end Answers

end Engine
end WorkPriority
