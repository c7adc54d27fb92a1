import WorkPriority.Proofs.Measuring
import Mathlib.Data.List.Induction

/-!
# What caches serve

A cache is *used* at ticks: a value is stored under a name or looked for there, one is computed
where there is none to be taken, or what is not alive is dropped (`Cache.Use`). What comes of a
use depends on the uses before it. It is an *event*: a value was written, say, or one was served
(`Cache.Event`).

The events of uses in a row tell what the cache has after them. Under each name there is what
was last written there, unless it was dropped since (`Cache.slots_run`), and so nothing else is
ever served (`Cache.serves_last_written`).

Whether it is served in its lifetime is a question of the clock. What was written at a later
tick than that of the question has no age, as the age of a value is never below zero. Such a
value is served however far the clock has gone back (`Cache.not_always_in_lifetime`). There is
no other way out of a lifetime, and none at all if the clock never goes back.
-/

namespace WorkPriority

namespace Cache

variable {α : Type}

/-! ### Uses and events -/

/-- A use of a cache, at a tick. -/
inductive Use (α : Type) where
  /-- To store a value under a name. -/
  | store (name : String) (a : α) (now : Nat)
  /-- To look for a value under a name. -/
  | get (name : String) (now : Nat)
  /-- To look for a value under a name, and compute and store one if there is none. -/
  | getOrCompute (name : String) (now : Nat) (compute : Unit → α)
  /-- To compute and store a value under a name, unless one was stored at this tick. -/
  | refresh (name : String) (now : Nat) (compute : Unit → α)
  /-- To drop what is not alive. -/
  | purge (now : Nat)

/-- What comes of a use, at its tick. -/
inductive Event (α : Type) where
  /-- A value was written under a name. -/
  | written (name : String) (tick : Nat) (a : α)
  /-- A value was served that was looked for. -/
  | served (name : String) (tick : Nat) (a : α)
  /-- A value of the very tick was taken again. -/
  | reused (name : String) (tick : Nat) (a : α)
  /-- Nothing was served under a name. -/
  | missed (name : String) (tick : Nat)
  /-- What was not alive was dropped. -/
  | purged (tick : Nat)

namespace Use

/-- The tick of a use. -/
def tick : Use α → Nat
  | store _ _ now | get _ now | getOrCompute _ now _ | refresh _ now _ | purge now => now

/-- The use looks for a value under a name at a tick. -/
def LooksFor (name : String) (now : Nat) : Use α → Prop
  | get n t | getOrCompute n t _ => n = name ∧ t = now
  | store .. | refresh .. | purge _ => False

/-- The use refreshes the value under a name at a tick. -/
def Refreshes (name : String) (now : Nat) : Use α → Prop
  | refresh n t _ => n = name ∧ t = now
  | store .. | get .. | getOrCompute .. | purge _ => False

end Use

namespace Event

/-- The tick of an event. -/
def tick : Event α → Nat
  | written _ t _ | served _ t _ | reused _ t _ | missed _ t | purged t => t

/-- What an event writes under a name, and when. -/
def writes? (name : String) : Event α → Option (Nat × α)
  | written n t a => if n = name then some (t, a) else none
  | served .. | reused .. | missed .. | purged _ => none

/-- When an event drops what is not alive. -/
def purges? : Event α → Option Nat
  | purged t => some t
  | written .. | served .. | reused .. | missed .. => none

/-- What an event makes of a cache. -/
def leave (c : Cache α) : Event α → Cache α
  | written n t a => c.store n a t
  | purged t => c.purge t
  | served .. | reused .. | missed .. => c

theorem tick_of_writes? {e : Event α} {name : String} {tick : Nat} {a : α}
    (h : e.writes? name = some (tick, a)) : e.tick = tick := by
  cases e with
  | written n t b =>
    exact congrArg Prod.fst (Option.some.inj (Option.ite_none_right_eq_some.1 h).2)
  | served | reused | missed | purged => exact absurd h.symm (Option.some_ne_none _)

end Event

/-- The cache after a use. -/
def after (c : Cache α) : Use α → Cache α
  | .store name a now => c.store name a now
  | .get .. => c
  | .getOrCompute name now compute => (c.getOrCompute name now compute).2
  | .refresh name now compute => (c.refresh name now compute).2
  | .purge now => c.purge now

/-- What comes of a use of a cache. A value is computed just if there is none to be taken. -/
def event (c : Cache α) : Use α → Event α
  | .store name a now => .written name now a
  | .get name now =>
    match c.get? name now with
    | some a => .served name now a
    | none => .missed name now
  | .getOrCompute name now compute =>
    let a := (c.getOrCompute name now compute).1
    if (c.get? name now).isSome then .served name now a else .written name now a
  | .refresh name now compute =>
    let a := (c.refresh name now compute).1
    if (c.stored? name now).isSome then .reused name now a else .written name now a
  | .purge now => .purged now

/-- The cache after uses, one after the other. -/
def run (c : Cache α) (us : List (Use α)) : Cache α := us.foldl after c

/-- What comes of uses, one after the other. -/
def events (c : Cache α) : List (Use α) → List (Event α)
  | [] => []
  | u :: us => c.event u :: (c.after u).events us

/-! ### What events tell -/

/-- What was last written under a name, and when. -/
def lastWritten? (es : List (Event α)) (name : String) : Option (Nat × α) :=
  es.reverse.findSome? (Event.writes? name)

/-- When things were dropped since something was last written under a name. -/
def purgesSince (es : List (Event α)) (name : String) : List Nat :=
  (es.reverse.takeWhile fun e => (e.writes? name).isNone).filterMap Event.purges?

/-- A tick is in the lifetime of what was written at another. -/
def InLifetime (lifetime written now : Nat) : Prop := written ≤ now ∧ now - written < lifetime

/-- At a tick, the lifetime of what was written at another is not over: the tick is in the
    lifetime, or before it. -/
def NotOver (lifetime written now : Nat) : Prop :=
  InLifetime lifetime written now ∨ 0 < lifetime ∧ now < written

/-- A value is what was last written under a name, and its lifetime was not over whenever things
    were dropped since. -/
def Stands (lifetime : Nat) (es : List (Event α)) (name : String) (tick : Nat) (a : α) : Prop :=
  lastWritten? es name = some (tick, a) ∧ ∀ p ∈ purgesSince es name, NotOver lifetime tick p

theorem sub_lt_iff_notOver {lifetime written now : Nat} :
    now - written < lifetime ↔ NotOver lifetime written now := by
  simp only [NotOver, InLifetime]
  omega

theorem isAlive_iff {c : Cache α} {now written : Nat} :
    c.isAlive now written = true ↔ NotOver c.lifetime written now := by
  rw [isAlive, decide_eq_true_eq, sub_lt_iff_notOver]

/-! ### One use -/

section Step

variable (c : Cache α) (u : Use α)

theorem event_get (name : String) (now : Nat) : c.event (.get name now) =
    ((c.get? name now).map (Event.served name now)).getD (.missed name now) := by
  rw [event]
  cases c.get? name now <;> rfl

/-- What is looked for is served if it is there, and what is computed otherwise is written. -/
theorem event_getOrCompute (name : String) (now : Nat) (compute : Unit → α) :
    c.event (.getOrCompute name now compute) =
      ((c.get? name now).map (Event.served name now)).getD (.written name now (compute ())) := by
  rw [event, getOrCompute_fst]
  cases c.get? name now <;> rfl

theorem event_refresh (name : String) (now : Nat) (compute : Unit → α) :
    c.event (.refresh name now compute) =
      ((c.stored? name now).map (Event.reused name now)).getD (.written name now (compute ())) := by
  rw [event, refresh_fst]
  cases c.stored? name now <;> rfl

theorem tick_event : (c.event u).tick = u.tick := by
  cases u with
  | store name a now => rfl
  | get name now => rw [event_get]; cases c.get? name now <;> rfl
  | getOrCompute name now compute => rw [event_getOrCompute]; cases c.get? name now <;> rfl
  | refresh name now compute => rw [event_refresh]; cases c.stored? name now <;> rfl
  | purge now => rfl

/-- A use makes of the cache what its event does. -/
theorem after_eq : c.after u = (c.event u).leave c := by
  cases u with
  | store name a now => rfl
  | get name now => rw [event_get]; cases c.get? name now <;> rfl
  | getOrCompute name now compute =>
    rw [event_getOrCompute, after, getOrCompute]
    cases c.get? name now <;> rfl
  | refresh name now compute =>
    rw [event_refresh, after, refresh]
    cases c.stored? name now <;> rfl
  | purge now => rfl

theorem lifetime_after : (c.after u).lifetime = c.lifetime := by
  rw [after_eq]
  cases c.event u <;> rfl

variable {c}

theorem distinct_after (hd : c.slots.Distinct) : (c.after u).slots.Distinct := by
  rw [after_eq]
  cases c.event u with
  | written name tick a => exact Keyed.distinct_set hd _ _
  | purged tick => exact distinct_purge _ hd
  | served | reused | missed => exact hd

/-- After a use there is under a name what was written by it, or what was there before and was
    not dropped. -/
theorem slots_after (hd : c.slots.Distinct) (name : String) (tick : Nat) (a : α) :
    (c.after u).slots.get? name = some (tick, a) ↔
      (c.event u).writes? name = some (tick, a) ∨
        (c.event u).writes? name = none ∧
          (∀ p, (c.event u).purges? = some p → NotOver c.lifetime tick p) ∧
          c.slots.get? name = some (tick, a) := by
  rw [after_eq]
  cases c.event u with
  | written n t b =>
    rw [Event.leave, store, Keyed.get?_set]
    by_cases hn : n = name <;> simp [Event.writes?, Event.purges?, hn]
  | purged t =>
    rw [Event.leave, slot_purge hd, Option.filter_eq_some_iff, isAlive_iff]
    simp [Event.writes?, Event.purges?, and_comm]
  | served | reused | missed => simp [Event.leave, Event.writes?, Event.purges?]

end Step

/-! ### Uses in a row -/

section Run

variable (c : Cache α) (us : List (Use α)) (u : Use α)

theorem run_concat : c.run (us ++ [u]) = (c.run us).after u := by
  rw [run, List.foldl_append]
  rfl

theorem events_concat : c.events (us ++ [u]) = c.events us ++ [(c.run us).event u] := by
  induction us generalizing c with
  | nil => rfl
  | cons v us ih => exact congrArg (c.event v :: ·) (ih (c.after v))

theorem map_tick_events : (c.events us).map Event.tick = us.map Use.tick := by
  induction us generalizing c with
  | nil => rfl
  | cons u us ih => exact congrArg₂ List.cons (c.tick_event u) (ih _)

theorem lifetime_run : (c.run us).lifetime = c.lifetime := by
  induction us generalizing c with
  | nil => rfl
  | cons u us ih => exact (ih _).trans (c.lifetime_after u)

theorem distinct_run {c : Cache α} (hd : c.slots.Distinct) : (c.run us).slots.Distinct := by
  induction us generalizing c with
  | nil => exact hd
  | cons u us ih => exact ih (distinct_after u hd)

theorem lastWritten?_concat (es : List (Event α)) (e : Event α) (name : String) :
    lastWritten? (es ++ [e]) name = (e.writes? name).or (lastWritten? es name) := by
  rw [lastWritten?, List.reverse_concat, List.findSome?_cons]
  cases e.writes? name <;> rfl

theorem purgesSince_concat (es : List (Event α)) (e : Event α) (name : String) :
    purgesSince (es ++ [e]) name =
      if (e.writes? name).isNone then e.purges?.toList ++ purgesSince es name else [] := by
  rw [purgesSince, List.reverse_concat, List.takeWhile_cons]
  split
  · rw [List.filterMap_cons]
    cases e.purges? <;> rfl
  · rfl

/-- One more event is the last write, or else what stood before stands still if it is spared. -/
theorem stands_concat {lifetime : Nat} {es : List (Event α)} {e : Event α} {name : String}
    {tick : Nat} {a : α} : Stands lifetime (es ++ [e]) name tick a ↔
      e.writes? name = some (tick, a) ∨
        e.writes? name = none ∧ (∀ p, e.purges? = some p → NotOver lifetime tick p) ∧
          Stands lifetime es name tick a := by
  rw [Stands, Stands, lastWritten?_concat, purgesSince_concat]
  cases e.writes? name with
  | none =>
    simp only [Option.none_or, Option.isNone_none, if_true, List.mem_append, Option.mem_toList,
      or_imp, forall_and]
    simp [and_left_comm]
  | some x => simp

/-- Under a name there is what was last written there, if it was not dropped since. -/
theorem slots_run (lifetime : Nat) (us : List (Use α)) (name : String) (tick : Nat) (a : α) :
    (run { lifetime } us).slots.get? name = some (tick, a) ↔
      Stands lifetime (events { lifetime } us) name tick a := by
  induction us using List.reverseRecOn with
  | nil =>
    constructor
    · exact fun h => absurd h.symm (Option.some_ne_none _)
    · exact fun h => absurd h.1.symm (Option.some_ne_none _)
  | append_singleton us u ih =>
    -- A use changes what is there in the way in which its event changes what stands.
    have hd : (run { lifetime } us : Cache α).slots.Distinct := distinct_run us Keyed.distinct_empty
    rw [run_concat, events_concat, slots_after u hd, stands_concat, lifetime_run, ih]

end Run

/-! ### What is served -/

section Served

variable {c : Cache α} {u : Use α} {name : String} {now : Nat} {a : α}

/-- What is looked for is served if it is there and alive. -/
theorem event_eq_served_iff : c.event u = .served name now a ↔
    u.LooksFor name now ∧ c.get? name now = some a := by
  -- Both ways of looking come to this, or else to an event of another kind.
  have hfound {n : String} {t : Nat} {e : Event α} (he : e ≠ .served name now a) :
      ((c.get? n t).map (Event.served n t)).getD e = .served name now a ↔
        (n = name ∧ t = now) ∧ c.get? name now = some a := by
    rw [Option.getD_eq_iff, or_iff_left fun h => he h.2, Option.map_eq_some_iff]
    constructor
    · rintro ⟨b, hb, ⟨⟩⟩
      exact ⟨⟨rfl, rfl⟩, hb⟩
    · rintro ⟨⟨rfl, rfl⟩, ha⟩
      exact ⟨a, ha, rfl⟩
  cases u with
  | store n b t => simp [event, Use.LooksFor]
  | get n t =>
    rw [event_get]
    exact hfound (by simp)
  | getOrCompute n t compute =>
    rw [event_getOrCompute]
    exact hfound (by simp)
  | refresh n t compute =>
    rw [event_refresh]
    cases c.stored? n t <;> simp [Use.LooksFor]
  | purge t => simp [event, Use.LooksFor]

theorem event_eq_reused_iff : c.event u = .reused name now a ↔
    u.Refreshes name now ∧ c.stored? name now = some a := by
  cases u with
  | store n b t => simp [event, Use.Refreshes]
  | get n t =>
    rw [event_get]
    cases c.get? n t <;> simp [Use.Refreshes]
  | getOrCompute n t compute =>
    rw [event_getOrCompute]
    cases c.get? n t <;> simp [Use.Refreshes]
  | refresh n t compute =>
    rw [event_refresh, Option.getD_eq_iff, or_iff_left (by simp), Option.map_eq_some_iff]
    constructor
    · rintro ⟨b, hb, ⟨⟩⟩
      exact ⟨⟨rfl, rfl⟩, hb⟩
    · rintro ⟨⟨rfl, rfl⟩, ha⟩
      exact ⟨a, ha, rfl⟩
  | purge t => simp [event, Use.Refreshes]

/-- What was last written was written in one of the uses. -/
theorem exists_tick_of_lastWritten? {us : List (Use α)} {tick : Nat}
    (h : lastWritten? (c.events us) name = some (tick, a)) : ∃ d ∈ us, d.tick = tick := by
  obtain ⟨e, he, hw⟩ := List.exists_of_findSome?_eq_some h
  rw [← List.mem_map, ← c.map_tick_events, ← Event.tick_of_writes? hw]
  exact List.mem_map_of_mem (List.mem_reverse.1 he)

variable (u name now a)

/-- What comes of a use of a cache, after uses at whatever ticks. A value that is looked for is
    served just if it is what was last written under the name, it was not dropped since, and the
    tick is in its lifetime or before it. If all uses before were at that tick or earlier ones,
    it is in its lifetime. A value is taken again in a refresh just if it is what was last
    written under the name, it was written at this very tick, and it was not dropped since. -/
theorem serves_last_written (lifetime : Nat) (us : List (Use α)) :
    let es := events { lifetime } us
    let e := (run { lifetime } us).event u
    (e = .served name now a ↔ u.LooksFor name now ∧ ∃ tick, Stands lifetime es name tick a ∧
      (InLifetime lifetime tick now ∨ 0 < lifetime ∧ now < tick)) ∧
    ((∀ d ∈ us, d.tick ≤ now) → e = .served name now a →
      ∃ tick, lastWritten? es name = some (tick, a) ∧ InLifetime lifetime tick now) ∧
    (e = .reused name now a ↔ u.Refreshes name now ∧ Stands lifetime es name now a) := by
  intro es e
  have hserved : e = .served name now a ↔ u.LooksFor name now ∧
      ∃ tick, Stands lifetime es name tick a ∧ NotOver lifetime tick now := by
    rw [event_eq_served_iff, get?_eq_some_iff, lifetime_run]
    simp only [slots_run, sub_lt_iff_notOver, es]
  refine ⟨hserved, fun hpast he => ?_, ?_⟩
  · obtain ⟨-, tick, ⟨hlast, -⟩, halive⟩ := hserved.1 he
    obtain ⟨d, hd, rfl⟩ := exists_tick_of_lastWritten? hlast
    exact ⟨d.tick, hlast, halive.resolve_right fun h => Nat.not_lt.2 (hpast d hd) h.2⟩
  · rw [event_eq_reused_iff, stored?_eq_some_iff, slots_run]

end Served

/-- The meals are counted at tick 3. After things were dropped they are still served at tick 12,
    the last one of their lifetime, and when the clock has gone back to tick 0. -/
theorem serves_last_written_meals :
    let us : List (Use Nat) := [.getOrCompute "meals" 3 fun _ => 4, .purge 7,
      .refresh "beds" 8 fun _ => 2]
    let c := run { lifetime := 10 } us
    (∀ d ∈ us, d.tick ≤ 12) ∧ c.event (.get "meals" 12) = .served "meals" 12 4 ∧
      (∃ tick, lastWritten? (events { lifetime := 10 } us) "meals" = some (tick, 4) ∧
        InLifetime 10 tick 12) ∧
      c.event (.get "meals" 0) = .served "meals" 0 4 ∧
      c.event (.refresh "beds" 8 fun _ => 5) = .reused "beds" 8 2 := by
  intro us c
  have hpast : ∀ d ∈ us, d.tick ≤ 12 := by simp [us, Use.tick]
  have hserved : c.event (.get "meals" 12) = .served "meals" 12 4 := rfl
  have hspared : ∀ p ∈ purgesSince (events { lifetime := 10 } us) "meals", NotOver 10 3 p := by
    have hpurges : purgesSince (events { lifetime := 10 } us) "meals" = [7] := rfl
    simp [hpurges, NotOver, InLifetime]
  refine ⟨hpast, hserved, ?_, ?_, ?_⟩
  · exact (serves_last_written (.get "meals" 12) "meals" 12 4 10 us).2.1 hpast hserved
  · exact (serves_last_written (.get "meals" 0) "meals" 0 4 10 us).1.2
      ⟨⟨rfl, rfl⟩, 3, ⟨rfl, hspared⟩, .inr ⟨by decide, by decide⟩⟩
  · refine (serves_last_written (.refresh "beds" 8 fun _ => 5) "beds" 8 2 10 us).2.2.2
      ⟨⟨rfl, rfl⟩, rfl, fun p hp => ?_⟩
    exact absurd hp List.not_mem_nil

/-- Not all that is served is in its lifetime. At tick 50, after the clock went back, someone
    is served the meals that will be counted at tick 100. -/
theorem not_always_in_lifetime : ¬∀ (lifetime : Nat) (us : List (Use Nat)) (u : Use Nat)
    (name : String) (now a : Nat), (run { lifetime } us).event u = .served name now a →
      ∃ tick, lastWritten? (events { lifetime } us) name = some (tick, a) ∧
        InLifetime lifetime tick now := by
  intro h
  obtain ⟨tick, hlast, hle, -⟩ :=
    h 10 [.store "meals" 4 100] (.get "meals" 50) "meals" 50 4 rfl
  obtain ⟨rfl, -⟩ := Prod.mk.inj (Option.some.inj hlast)
  exact absurd hle (by decide)

end Cache
end WorkPriority
