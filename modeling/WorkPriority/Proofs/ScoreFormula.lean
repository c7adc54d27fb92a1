import WorkPriority.Proofs.Conditions
import WorkPriority.Proofs.FloatArithmetic

/-!
# The formula of a score

What a rule says of an agent, without going through its conditions one by one: whether it is
gated or refused, and otherwise the number that its modifiers and look-ups give, rounded to a
whole one in exact arithmetic, with its description (`Rule.scoreFor_formula`).
-/

namespace WorkPriority.Rule

open Kitchen

variable (r : Rule) (c : Context) (a : Agent)

theorem roundScore_eq (x : Float) : roundScore x =
    max (-2 ^ 31) (min (2 ^ 31 - 1) (Decimal.wholeNear (Decimal.exactValue x))) := by
  rw [roundScore, Decimal.Binary.roundAway_eq]
  rfl

theorem describe_eq (score : Int) (description : Option String) : describe score description =
    (description.filter (· ≠ "")).getD ("Priority " ++ Text.ofInt score) := by
  cases description with
  | none => rfl
  | some d =>
    by_cases hd : d = ""
    · subst hd
      rfl
    · have hempty : d.isEmpty = false := by simpa using hd
      rw [describe, hempty, Option.filter_some, if_pos (decide_eq_true hd)]
      rfl

open Decimal in
/-- The score of a rule for an agent.

    If a filter does not admit the agent, the agent is gated. If all admit it, and the
    provider refuses a modifier, the first refusal is the result. Otherwise the ranges that
    apply of the modifiers give a factor and a summand, multiplied and added up from the
    left, and the last range that a look-up finds gives the score that is scaled and shifted,
    which without such a range is the rule's own or the neutral one. The result has to be
    finite. Then it is rounded to the nearest whole number, halves away from zero, and kept
    within 32 bits. It matches if a look-up found a range or if there was none to find one,
    and its description is that of the last range found, or a general one. -/
theorem scoreFor_formula :
    ((∃ f ∈ r.gates, f.admits c.world (.agent a) = false) → r.scoreFor c a = .ok .gated) ∧
    ((∀ f ∈ r.gates, f.admits c.world (.agent a) = true) →
      (∀ before m later err, r.modifiers = before ++ m :: later →
        (∀ n ∈ before, ∃ x?, c.modifiers.lookup a n.1 = .ok x?) →
        c.modifiers.lookup a m.1 = .error err → r.scoreFor c a = .error err) ∧
      ((∀ m ∈ r.modifiers, ∃ x?, c.modifiers.lookup a m.1 = .ok x?) →
        let applied := r.modifiers.filterMap (c.applied? a)
        let found := r.lookups.filterMap (c.found? a r.ranges)
        let base := (found.getLast?.map fun f => f.1.scoreFor f.2).getD
          (r.defaultScore.getD c.neutralScore)
        let raw := base * (applied.map (·.multiplier)).foldl (· * ·) 1.0 +
          (applied.map (·.offset)).foldl (· + ·) 0.0
        (raw.isFinite = false → r.scoreFor c a = .error (.score r.name raw)) ∧
        (raw.isFinite = true → ∃ s, r.scoreFor c a = .ok s ∧
          s.score = max (-2 ^ 31) (min (2 ^ 31 - 1) (wholeNear (exactValue raw))) ∧
          (s.matched = true ↔ r.lookups = [] ∨ found ≠ []) ∧
          s.description = ((found.getLast?.map (·.1.description)).filter (· ≠ "")).getD
            ("Priority " ++ Text.ofInt s.score)))) := by
  rw [scoreFor_eq]
  refine ⟨fun ⟨f, hf, hadmits⟩ => ?_, fun hadmits => ?_⟩
  · have hgates : r.passesGates c.world a = false := by
      rw [passesGates, List.all_eq_false]
      exact ⟨f, hf, Bool.eq_false_iff.1 hadmits⟩
    rw [hgates]
    rfl
  have hgates : r.passesGates c.world a = true := List.all_eq_true.2 hadmits
  rw [if_pos hgates]
  refine ⟨fun before m later err hmodifiers hbefore herr => ?_, fun hok => ?_⟩
  · have hrefusal : r.modifiers.findSome? (c.refusal? a) = some err := by
      have hnone : before.findSome? (c.refusal? a) = none :=
        List.findSome?_eq_none_iff.2 fun n hn => (c.refusal?_eq_none_iff a n).2 (hbefore n hn)
      rw [hmodifiers, List.findSome?_append, hnone, Option.none_or, List.findSome?_cons,
        c.refusal?_of_error a herr]
    rw [hrefusal]
  intro applied found base raw
  have hrefusal : r.modifiers.findSome? (c.refusal? a) = none :=
    List.findSome?_eq_none_iff.2 fun m hm => (c.refusal?_eq_none_iff a m).2 (hok m hm)
  rw [hrefusal]
  refine ⟨fun hfinite => if_neg (Bool.eq_false_iff.1 hfinite), fun hfinite => ?_⟩
  refine ⟨_, if_pos hfinite, roundScore_eq raw, ?_, ?_⟩
  · simp only [Tally.after, start, Bool.false_or, Bool.not_not, Option.or_none, Option.isSome_map,
      List.getLast?_isSome, Bool.or_eq_true, List.isEmpty_iff]
    rfl
  · exact (congrArg _ (Option.or_none ..)).trans (describe_eq ..)

/-- The guests are too many for the range, which the meals are in: so the score is the
    double of -37.5 and a half more, which is halfway between two whole numbers. -/
theorem scoreFor_formula_washing :
    washing.scoreFor (kitchen moods) weary = .ok ⟨-75, "few meals", true⟩ ∧
    washing.scoreFor (kitchen toolless) weary = .error (.provider "tools" "no reply") ∧
    washing.scoreFor (kitchen toolless) { weary with paused := true } = .ok .gated := by
  have hgates : ∀ f ∈ washing.gates, f.admits {} (.agent weary) = true := by decide
  refine ⟨?_, ?_, ?_⟩
  · obtain ⟨-, hformula⟩ := ((scoreFor_formula washing (kitchen moods) weary).2 hgates)
    obtain ⟨-, hformula⟩ := hformula fun _ _ => ⟨_, rfl⟩
    obtain ⟨s, hs, hscore, hmatched, hdescription⟩ := hformula (by decide +kernel)
    have hfound : (washing.lookups.filterMap ((kitchen moods).found? weary washing.ranges)).map
        (·.1.description) = ["few meals"] := by decide +kernel
    have hscore : s.score = -75 := by
      rw [hscore, ← roundScore_eq]
      decide +kernel
    have hmatched : s.matched = true := by
      refine hmatched.2 (.inr fun hnone => ?_)
      rw [hnone] at hfound
      exact absurd hfound (by decide)
    have hdescription : s.description = "few meals" := by
      rw [hdescription, ← List.getLast?_map, hfound]
      rfl
    rw [hs]
    obtain ⟨score, description, matched⟩ := s
    dsimp only at hscore hmatched hdescription
    rw [hscore, hmatched, hdescription]
  · obtain ⟨hrefused, -⟩ := ((scoreFor_formula washing (kitchen toolless) weary).2 hgates)
    exact hrefused [("mood", _)] ("tools", []) [] _ rfl (by simp [kitchen, toolless]) rfl
  · obtain ⟨hgated, -⟩ := scoreFor_formula washing (kitchen toolless) { weary with paused := true }
    exact hgated ⟨_, List.mem_cons_self, by decide⟩

end WorkPriority.Rule
