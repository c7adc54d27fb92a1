import WorkPriority.Rule.Evaluation
import Mathlib.Data.List.Basic

/-!
# What the conditions of a rule come to

A rule goes through its conditions in their order, but what it comes to is told by each kind
of them on its own. The filters decide whether there is a score at all. The modifiers, unless
the provider refuses one of them, have ranges that apply, of which the score gets its factors
and its summands. The look-ups have ranges that they find, of which the last gives the score
that is scaled and shifted (`Rule.scoreFor_eq`).

So the three kinds do not mix, and how they are mixed in a rule does not matter
(`Rule.scoreFor_of_rearranges`).
-/

namespace WorkPriority

/-! ### What the conditions say -/

/-- The modifier that a condition looks up, with its ranges. -/
def Condition.modifier? : Condition → Option (String × List ModifierRange)
  | modifier key ranges => some (key, ranges)
  | gate _ | lookup .. => none

/-- The signal that a condition looks up, and how. -/
def Condition.lookup? : Condition → Option (String × RequestMode)
  | lookup signal mode => some (signal, mode)
  | gate _ | modifier .. => none

/-- The modifiers that a rule looks up, with their ranges. -/
def Rule.modifiers (r : Rule) : List (String × List ModifierRange) :=
  r.conditions.filterMap Condition.modifier?

theorem Rule.lookups_eq (r : Rule) : r.lookups = r.conditions.filterMap Condition.lookup? :=
  List.filterMap_congr fun k _ => by cases k <;> rfl

namespace Context

variable (c : Context) (a : Agent)

/-- What the provider says against the look-up of a modifier. -/
def refusal? (m : String × List ModifierRange) : Option EvaluationError :=
  match c.modifiers.lookup a m.1 with
  | .error err => some err
  | .ok _ => none

theorem refusal?_of_error {m : String × List ModifierRange} {err : EvaluationError}
    (h : c.modifiers.lookup a m.1 = .error err) : c.refusal? a m = some err := by
  rw [refusal?, h]

theorem refusal?_eq_none_iff (m : String × List ModifierRange) :
    c.refusal? a m = none ↔ ∃ x?, c.modifiers.lookup a m.1 = .ok x? := by
  rw [refusal?]
  cases c.modifiers.lookup a m.1 with
  | error err => simp
  | ok x? => simp

/-- The range that applies of a modifier: the first that its number lies in, if it has one. -/
def applied? (m : String × List ModifierRange) : Option ModifierRange :=
  match c.modifiers.lookup a m.1 with
  | .ok (some x) => m.2.find? fun range => range.validity.contains x
  | .ok none | .error _ => none

/-- What a look-up finds: the first of some ranges that the value read lies in, and that
    value. What is not a number is as good as no value. -/
def found? (ranges : List (ScoreRange Float)) (l : String × RequestMode) :
    Option (ScoreRange Float × Float) := do
  let x ← (c.resolve? l.1 l.2 a).filter fun x => !x.isNaN
  let range ← ScoreRange.find? ranges x
  return (range, x)

theorem mem_of_found? {ranges : List (ScoreRange Float)} {l : String × RequestMode}
    {f : ScoreRange Float × Float} (h : c.found? a ranges l = some f) : f.1 ∈ ranges := by
  obtain ⟨x, -, h⟩ := Option.bind_eq_some_iff.1 h
  obtain ⟨range, hrange, h⟩ := Option.bind_eq_some_iff.1 h
  obtain rfl := Option.some.inj h
  exact List.mem_of_find?_eq_some hrange

end Context

/-! ### One kind at a time -/

/-- A tally after ranges of modifiers were applied, and ranges of scores found. -/
def Tally.after (t : Tally) (applied : List ModifierRange)
    (found : List (ScoreRange Float × Float)) (lookedUp : Bool) : Tally where
  base := (found.getLast?.map fun f => f.1.scoreFor f.2).getD t.base
  multiplier := (applied.map (·.multiplier)).foldl (· * ·) t.multiplier
  offset := (applied.map (·.offset)).foldl (· + ·) t.offset
  found := (found.getLast?.map fun f => f.1.description).or t.found
  lookedUp := t.lookedUp || lookedUp

theorem Tally.after_after (t : Tally) (applied applied' : List ModifierRange)
    (found found' : List (ScoreRange Float × Float)) (lookedUp lookedUp' : Bool) :
    (t.after applied found lookedUp).after applied' found' lookedUp' =
      t.after (applied ++ applied') (found ++ found') (lookedUp || lookedUp') := by
  simp only [after, List.map_append, List.foldl_append, List.getLast?_append, Bool.or_assoc,
    Tally.mk.injEq, true_and, and_true]
  -- What is found last counts, and without it what was found before.
  cases found'.getLast? with
  | none => exact ⟨rfl, rfl⟩
  | some f => exact ⟨rfl, rfl⟩

theorem Tally.after_nothing (t : Tally) : t.after [] [] false = t := by
  rw [after, Bool.or_false]
  rfl

namespace Rule

variable (r : Rule) (c : Context) (a : Agent)

theorem step_modifier (t : Tally) (m : String × List ModifierRange) :
    r.step c a t (.modifier m.1 m.2) =
      match c.refusal? a m with
      | some err => .error err
      | none => .ok (t.after (c.applied? a m).toList [] false) := by
  simp only [step, Context.refusal?, Context.applied?, bind, Except.bind, pure, Except.pure]
  cases c.modifiers.lookup a m.1 with
  | error err => rfl
  | ok x? =>
    cases x? with
    | none => exact congrArg Except.ok t.after_nothing.symm
    | some x =>
      dsimp only
      cases m.2.find? fun range => range.validity.contains x with
      | none => exact congrArg Except.ok t.after_nothing.symm
      | some range => exact congrArg Except.ok (by rw [Tally.after, Bool.or_false]; rfl)

theorem step_lookup (t : Tally) (l : String × RequestMode) :
    r.step c a t (.lookup l.1 l.2) = .ok (t.after [] (c.found? a r.ranges l).toList true) := by
  simp only [step, Context.found?, rangeFor?]
  cases (c.resolve? l.1 l.2 a).filter fun x => !x.isNaN with
  | none => exact congrArg Except.ok (by rw [Tally.after, Bool.or_true]; rfl)
  | some x =>
    dsimp only [bind, Option.bind]
    cases ScoreRange.find? r.ranges x with
    | none => exact congrArg Except.ok (by rw [Tally.after, Bool.or_true]; rfl)
    | some range => exact congrArg Except.ok (by rw [Tally.after, Bool.or_true]; rfl)

theorem filterMap_cons_toList {α β : Type} (f : α → Option β) (x : α) (xs : List α) :
    (x :: xs).filterMap f = (f x).toList ++ xs.filterMap f := by
  cases h : f x with
  | none => rw [List.filterMap_cons_none h, Option.toList_none, List.nil_append]
  | some y => rw [List.filterMap_cons_some h, Option.toList_some, List.singleton_append]

/-- Some conditions: the first refusal of a modifier ends them; without one, the modifiers
    and the look-ups have each done their part. -/
theorem foldlM_step (ks : List Condition) (t : Tally) :
    ks.foldlM (r.step c a) t =
      match (ks.filterMap Condition.modifier?).findSome? (c.refusal? a) with
      | some err => .error err
      | none => .ok (t.after ((ks.filterMap Condition.modifier?).filterMap (c.applied? a))
          ((ks.filterMap Condition.lookup?).filterMap (c.found? a r.ranges))
          !(ks.filterMap Condition.lookup?).isEmpty) := by
  induction ks generalizing t with
  | nil => exact congrArg Except.ok t.after_nothing.symm
  | cons k ks ih =>
    rw [List.foldlM_cons, filterMap_cons_toList Condition.modifier?,
      filterMap_cons_toList Condition.lookup?]
    cases k with
    | gate f => exact ih t
    | modifier key ranges =>
      rw [step_modifier r c a t (key, ranges), Condition.modifier?, Condition.lookup?,
        Option.toList_some, List.singleton_append, List.findSome?_cons, filterMap_cons_toList]
      cases c.refusal? a (key, ranges) with
      | some err => rfl
      | none =>
        refine (ih _).trans ?_
        rw [Tally.after_after, List.nil_append, Bool.false_or]
        rfl
    | lookup signal mode =>
      rw [step_lookup r c a t (signal, mode), Condition.modifier?, Condition.lookup?,
        Option.toList_some, List.singleton_append, filterMap_cons_toList (c.found? a r.ranges)]
      refine (ih _).trans ?_
      rw [Tally.after_after, List.nil_append, Bool.true_or]
      rfl

theorem scoreFor_eq : r.scoreFor c a =
    if r.passesGates c.world a then
      match r.modifiers.findSome? (c.refusal? a) with
      | some err => .error err
      | none => r.finish ((r.start c).after (r.modifiers.filterMap (c.applied? a))
          (r.lookups.filterMap (c.found? a r.ranges)) !r.lookups.isEmpty)
    else .ok .gated := by
  rw [scoreFor, foldlM_step, lookups_eq, modifiers]
  split
  · cases (r.conditions.filterMap Condition.modifier?).findSome? (c.refusal? a) with
    | some err => rfl
    | none => rfl
  · rfl

/-! ### Mixing the conditions -/

/-- Two rules are alike up to how their conditions of different kinds are mixed, and up to
    the order and the number of their filters. -/
structure Rearranges (p q : Rule) : Prop where
  name : p.name = q.name
  ranges : p.ranges = q.ranges
  defaultScore : p.defaultScore = q.defaultScore
  gates : ∀ f, f ∈ p.gates ↔ f ∈ q.gates
  modifiers : p.modifiers = q.modifiers
  lookups : p.lookups = q.lookups

/-- How conditions of different kinds are mixed does not matter, nor do the order and the
    number of the filters. -/
theorem scoreFor_of_rearranges {p q : Rule} (h : p.Rearranges q) (c : Context) (a : Agent) :
    p.scoreFor c a = q.scoreFor c a := by
  have hgates : p.passesGates c.world a = q.passesGates c.world a := by
    rw [Bool.eq_iff_iff, passesGates, passesGates, List.all_eq_true, List.all_eq_true]
    exact forall_congr' fun f => imp_congr_left (h.gates f)
  have hstart : p.start c = q.start c := by rw [start, start, h.defaultScore]
  have hfinish : p.finish = q.finish := by
    funext t
    rw [finish, finish, h.name]
  rw [scoreFor_eq, scoreFor_eq, hgates, h.modifiers, h.lookups, h.ranges, hstart, hfinish]

end Rule

namespace Kitchen

/-- Someone who has to wash up. -/
def weary : Agent := { id := ⟨1⟩, name := "Ida" }

/-- The fewer meals there were, the less there is to wash up. -/
def washing : Rule where
  name := "washing"
  conditions := [.lookup "meals" .total, .modifier "mood" [⟨⟨0.0, 1.0⟩, 2.0, 0.5⟩],
    .gate { excludes := [[.flag .paused]] }, .modifier "tools" [], .lookup "guests" .total]
  ranges := [⟨⟨0.0, 10.0⟩, ⟨-50.0, 0.0⟩, "few meals"⟩]

/-- There were two and a half meals for twenty guests. -/
def kitchen (modifiers : ModifierProvider) : Context where
  world := {}
  signals := .ofValues 1 [("meals", .scalar 2.5), ("guests", .scalar 20.0)]
  neutralScore := 0.0
  modifiers := modifiers

/-- Of what is asked about someone only the mood is known. -/
def moods : ModifierProvider := .ofEntries [((⟨1⟩, "mood"), 0.25)]

/-- Nobody answers for the tools. -/
def toolless : ModifierProvider where
  name := "toolless"
  lookup _ key := if key = "tools" then .error (.provider key "no reply") else .ok none

end Kitchen

namespace Rule

open Kitchen

/-- The mood and the tools may come first, and the filter twice, as long as the meals come
    before the guests. -/
theorem scoreFor_of_rearranges_washing :
    let q : Rule := { washing with
      conditions := [.modifier "mood" [⟨⟨0.0, 1.0⟩, 2.0, 0.5⟩], .modifier "tools" [],
        .gate { excludes := [[.flag .paused]] }, .lookup "meals" .total, .lookup "guests" .total,
        .gate { excludes := [[.flag .paused]] }] }
    q.conditions.length = 6 ∧
      washing.scoreFor (kitchen moods) weary = q.scoreFor (kitchen moods) weary ∧
      washing.scoreFor (kitchen toolless) weary = q.scoreFor (kitchen toolless) weary := by
  intro q
  have h : washing.Rearranges q := by
    refine ⟨rfl, rfl, rfl, fun f => ?_, rfl, rfl⟩
    change f ∈ [_] ↔ f ∈ [_, _]
    simp
  exact ⟨rfl, scoreFor_of_rearranges h _ _, scoreFor_of_rearranges h _ _⟩

end Rule
end WorkPriority
