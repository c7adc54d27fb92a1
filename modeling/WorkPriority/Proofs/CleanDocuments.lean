import WorkPriority.Proofs.Conditions
import WorkPriority.Proofs.FloatArithmetic
import WorkPriority.Proofs.NothingLost
import WorkPriority.Proofs.WholeCycles

/-!
# Clean documents

A rule whose score is not finite is not evaluated: it is an error, and what is published
is zero. That nothing is reported of a document does not rule this out. Numbers of a
document may be infinite, be it that they are written so or that an interval of scores is
left open, and there are finite bounds whose distance is not.

This is all that can go wrong. If the rules of a document start from finite scores, and
each of their ranges has a finite score at the upper end of its validity
(`Rule.FiniteScores`), then every agent of every world is scored by all of them, as long as
there are no modifiers (`Engine.scores_of_clean`). It is enough to look at the upper end,
since there the interpolation takes in the whole interval of scores
(`ScoreRange.isFinite_scoreFor_iff`); anywhere else it takes a fraction of it, and rounding
does not lead beyond what lies between finite numbers.
-/

namespace WorkPriority

open Decimal Float.Model

/-! ### Fractions of one -/

section Interpolation

variable {x : Float}

/-- A number cut off to a fraction of one. -/
def unitClamp (x : Float) : Float := Scalar.clamp (Float.ofNat 0) (Float.ofNat 1) x

/-- What is left of a number that is cut off. -/
theorem unitClamp_cases (x : Float) :
    (x < Float.ofNat 0 ∧ unitClamp x = Float.ofNat 0) ∨
      (Float.ofNat 1 < x ∧ unitClamp x = Float.ofNat 1) ∨
      ¬x < Float.ofNat 0 ∧ ¬Float.ofNat 1 < x ∧ unitClamp x = x := by
  rw [unitClamp, Scalar.clamp]
  by_cases hlow : x < Float.ofNat 0
  · exact .inl ⟨hlow, if_pos hlow⟩
  by_cases hhigh : Float.ofNat 1 < x
  · exact .inr (.inl ⟨hhigh, (if_neg hlow).trans (if_pos hhigh)⟩)
  · exact .inr (.inr ⟨hlow, hhigh, (if_neg hlow).trans (if_neg hhigh)⟩)

theorem unitClamp_one : unitClamp (Float.ofNat 1) = Float.ofNat 1 := by
  obtain ⟨h, -⟩ | ⟨-, h⟩ | ⟨-, -, h⟩ := unitClamp_cases (Float.ofNat 1)
  · exact absurd h (by decide)
  · exact h
  · exact h

theorem isFinite_of_isNaN_of_not_lt (hn : x.isNaN = false) (hlow : ¬x < Float.ofNat 0)
    (hhigh : ¬Float.ofNat 1 < x) : x.isFinite = true := by
  rw [lt_iff_lt_unpack] at hlow hhigh
  change x.toModel.unpack.isNaN = false at hn
  change x.toModel.unpack.isFinite = true
  generalize x.toModel.unpack = u at hn hlow hhigh ⊢
  cases u with
  | infinity s =>
    cases s with
    | negative => exact absurd (by decide) hlow
    | positive => exact absurd (by decide) hhigh
  | notANumber => exact absurd hn.symm Bool.false_ne_true
  | zero s => rfl
  | finite s m e hm => rfl

/-- What is not a number has no fraction. -/
theorem isNaN_of_isFinite_unitClamp (h : (unitClamp x).isFinite = true) : x.isNaN = false := by
  obtain ⟨hlow, -⟩ | ⟨hhigh, -⟩ | ⟨-, -, hself⟩ := unitClamp_cases x
  · exact (isNaN_of_lt hlow).1
  · exact (isNaN_of_lt hhigh).2
  · rw [hself] at h
    exact isNaN_of_isFinite h

theorem unitClamp_unit (h : x.isNaN = false) : (unitClamp x).isFinite = true ∧
    0 ≤ exactValue (unitClamp x) ∧ exactValue (unitClamp x) ≤ 1 := by
  have hzero : (Float.ofNat 0).isFinite = true := rfl
  have hone : (Float.ofNat 1).isFinite = true := rfl
  obtain ⟨-, hclamp⟩ | ⟨-, hclamp⟩ | ⟨hlow, hhigh, hclamp⟩ := unitClamp_cases x
  · rw [hclamp, exactValue_zero]
    exact ⟨hzero, le_rfl, zero_le_one⟩
  · rw [hclamp, exactValue_one]
    exact ⟨hone, zero_le_one, le_rfl⟩
  · have hx := isFinite_of_isNaN_of_not_lt h hlow hhigh
    rw [lt_iff_exactValue_lt hx hzero, exactValue_zero] at hlow
    rw [lt_iff_exactValue_lt hone hx, exactValue_one] at hhigh
    rw [hclamp]
    exact ⟨hx, not_lt.1 hlow, not_lt.1 hhigh⟩

/-! ### Interpolation -/

variable {validity score : Interval Float}

theorem interpolate_of_isDegenerate (h : validity.isDegenerate = true) (x : Float) :
    interpolate validity score x = score.lo := by
  rw [interpolate, h]
  rfl

theorem interpolate_of_isNaN (h : x.isNaN = true) : interpolate validity score x = score.lo := by
  have hcond : (validity.isDegenerate || Scalar.isNaN x) = true := by
    rw [Bool.or_eq_true]
    exact .inr h
  rw [interpolate, if_pos hcond]

theorem interpolate_of_slope (hd : validity.isDegenerate = false) (hx : x.isNaN = false) :
    interpolate validity score x = score.lo +
      unitClamp ((x - validity.min) / (validity.max - validity.min)) * (score.hi - score.lo) := by
  have hcond : (validity.isDegenerate || Scalar.isNaN x) = false := by
    rw [Bool.or_eq_false_iff]
    exact ⟨hd, hx⟩
  rw [interpolate, hcond]
  rfl

theorem isFinite_of_slope (hd : validity.isDegenerate = false) :
    validity.min.isFinite = true ∧ validity.max.isFinite = true := by
  rw [Interval.isDegenerate, Bool.or_eq_false_iff, Bool.or_eq_false_iff, Bool.not_eq_false',
    Bool.not_eq_false'] at hd
  exact hd.1

/-- If the score at the upper end of the validity is finite, all scores are. -/
theorem isFinite_interpolate (h : (interpolate validity score validity.max).isFinite = true)
    (x : Float) : (interpolate validity score x).isFinite = true := by
  cases hd : validity.isDegenerate with
  | true =>
    rw [interpolate_of_isDegenerate hd] at h ⊢
    exact h
  | false =>
    obtain ⟨hmin, hmax⟩ := isFinite_of_slope hd
    rw [interpolate_of_slope hd (isNaN_of_isFinite hmax)] at h
    obtain ⟨hlo, hproduct⟩ := isFinite_of_isFinite_add h
    -- So the length of the validity is a number that divides itself.
    obtain ⟨hw, hw0⟩ := isFinite_of_isNaN_div_self
      (isNaN_of_isFinite_unitClamp (isFinite_of_isFinite_mul hproduct).1)
    rw [div_self_eq_one hw hw0, unitClamp_one] at h hproduct
    cases hx : x.isNaN with
    | true =>
      rw [interpolate_of_isNaN hx]
      exact hlo
    | false =>
      obtain ⟨ht, h0, h1⟩ := unitClamp_unit (isNaN_div (isNaN_sub hx hmin) hw hw0)
      obtain ⟨hpart, hbetween⟩ := mul_mem_uIcc ht h0 h1 hproduct
      rw [interpolate_of_slope hd hx]
      exact isFinite_add_of_mem_uIcc hlo hpart h hbetween

end Interpolation

/-- The scores of a range are finite just if the one at the upper end of its validity is. -/
theorem ScoreRange.isFinite_scoreFor_iff (r : ScoreRange Float) :
    (∀ x, (r.scoreFor x).isFinite = true) ↔ (r.scoreFor r.validity.max).isFinite = true :=
  ⟨fun h => h _, isFinite_interpolate⟩

/-! ### Rules -/

/-- A rule starts from a finite score, and each of its ranges has one at the upper end
    of its validity. -/
structure Rule.FiniteScores (q : Rule) : Prop where
  initial : ∀ x ∈ q.defaultScore, x.isFinite = true
  ranges : ∀ r ∈ q.ranges, (r.scoreFor r.validity.max).isFinite = true

instance (q : Rule) : Decidable q.FiniteScores :=
  decidable_of_iff ((∀ x ∈ q.defaultScore, x.isFinite = true) ∧
      ∀ r ∈ q.ranges, (r.scoreFor r.validity.max).isFinite = true)
    ⟨fun h => ⟨h.1, h.2⟩, fun h => ⟨h.initial, h.ranges⟩⟩

/-- A score that is finite so far, and was neither scaled nor shifted. -/
structure Tally.Plain (t : Tally) : Prop where
  base : t.base.isFinite = true
  multiplier : t.multiplier = 1.0
  offset : t.offset = 0.0

namespace Rule

variable {q : Rule} {c : Context} {a : Agent}

/-- Ranges that a rule finds leave its score finite. -/
theorem plain_after (hq : q.FiniteScores) (hc : c.neutralScore.isFinite = true)
    {found : List (ScoreRange Float × Float)} (hfound : ∀ f ∈ found, f.1 ∈ q.ranges)
    (lookedUp : Bool) : ((q.start c).after [] found lookedUp).Plain := by
  refine ⟨?_, rfl, rfl⟩
  rw [Tally.after]
  cases h : found.getLast? with
  | some f =>
    have hrange := hq.ranges f.1 (hfound f (List.mem_of_getLast? h))
    exact f.1.isFinite_scoreFor_iff.2 hrange f.2
  | none =>
    change (q.defaultScore.getD c.neutralScore).isFinite = true
    cases hd : q.defaultScore with
    | none => exact hc
    | some x => exact hq.initial x hd

theorem isFinite_raw {x : Float} (h : x.isFinite = true) : (x * 1.0 + 0.0).isFinite = true := by
  have hone : (1.0 : Float) = Float.ofNat 1 := rfl
  have hzero : (0.0 : Float) = Float.ofNat 0 := rfl
  rw [hone, hzero]
  have hproduct : (x * Float.ofNat 1).isFinite = true := by
    rw [Binary.isFinite_iff_bits, bits_mul h rfl, exactValue_one, mul_one, bitsNear_exactValue h]
    exact bits_lt_infinite h
  rw [Binary.isFinite_iff_bits, bits_add hproduct rfl, exactValue_zero, add_zero,
    bitsNear_exactValue hproduct]
  exact bits_lt_infinite hproduct

theorem finish_of_plain {t : Tally} (ht : t.Plain) : ∃ s, q.finish t = .ok s := by
  rw [finish, ht.multiplier, ht.offset]
  exact ⟨_, if_pos (isFinite_raw ht.base)⟩

theorem scoreFor_ok (hq : q.FiniteScores) (hneutral : c.neutralScore.isFinite = true)
    (hmodifiers : c.modifiers = .none) : ∃ s, q.scoreFor c a = .ok s := by
  have hlookup (m : String × List ModifierRange) : c.modifiers.lookup a m.1 = .ok none := by
    rw [hmodifiers]
    rfl
  have hrefusal : q.modifiers.findSome? (c.refusal? a) = none :=
    List.findSome?_eq_none_iff.2 fun m _ => (c.refusal?_eq_none_iff a m).2 ⟨none, hlookup m⟩
  have happlied : q.modifiers.filterMap (c.applied? a) = [] :=
    List.filterMap_eq_nil_iff.2 fun m _ => by rw [Context.applied?, hlookup]
  rw [scoreFor_eq, hrefusal, happlied]
  split
  · refine finish_of_plain (plain_after hq hneutral (fun f hf => ?_) _)
    obtain ⟨l, -, hl⟩ := List.mem_filterMap.1 hf
    exact c.mem_of_found? a hl
  · exact ⟨_, rfl⟩

end Rule

/-! ### A kitchen -/

namespace Kitchen

/-- A document on stew: there is a rule that looks up how many cooks there are, with the
    scores that it gives from one up to ten, and one with the score that it starts from. -/
def stewLines (scores initial : String) : List String := [
  "[[category]]", "name = \"Stew\"",
  "[[signal]]", "name = \"cooks\"", "source.kind = \"agent-count\"",
  "[[rule]]", "name = \"crowd\"", "targets = [\x7bcategory = \"Stew\"\x7d]",
  "conditions = [\x7btype = \"signal-lookup\", signal = \"cooks\"\x7d]",
  "ranges = [\x7bvalidity = \"1~10\", score = \"" ++ scores ++ "\"\x7d]",
  "[[rule]]", "name = \"habit\"", "targets = [\x7bcategory = \"Stew\"\x7d]",
  "default_score = " ++ initial]

/-- The lines as a text. -/
def stewText (scores initial : String) : String :=
  String.ofList <| (stewLines scores initial).flatMap fun line => line.toList ++ ['\n']

theorem toList_stewText (scores initial : String) : (stewText scores initial).toList =
    (stewLines scores initial).flatMap fun line => line.toList ++ ['\n'] :=
  String.toList_ofList

/-- An engine of definitions with one cook in front of it. -/
def cooking (r : Registry) : Engine :=
  (Engine.start { config := {}, registry := r }).after (.normal (Farm.world 1 [Farm.worker 1]))

end Kitchen

/-! ### Documents -/

theorem Config.isFinite_of_check {c : Config} (h : c.check = .ok ()) :
    c.neutralScore.isFinite = true := by
  rw [check] at h
  split at h
  · cases h
  split at h
  · cases h
  split at h
  · cases h
  · rename_i hfinite
    simpa using hfinite

/-- If there is no issue with a document, all its rules are evaluated. -/
theorem Registry.validRules_of_issues {d : Document} (h : (ofDocument d).issues = []) :
    (ofDocument d).validRules = (ofDocument d).rules := by
  have hinvalid := ((issues_ofDocument_iff d).1 h).2
  have hnone : (ofDocument d).invalidRules = [] :=
    List.length_eq_zero_iff.1 (Nat.add_eq_zero_iff.1 hinvalid).2
  rw [validRules, hnone]
  simp

namespace Engine

open Kitchen

/-- If nothing is reported of a document, and the scores of its rules are finite, then a
    normal cycle scores every agent of its world by every rule. What is published under
    the name of the rule and the id of the agent is such a score: that of the last agent
    of the id. -/
theorem scores_of_clean {text : String} {r : Registry} (hr : Registry.ofText text = .ok r)
    (hissues : r.issues = []) (hfinite : ∀ q ∈ r.rules, q.FiniteScores) {e : Engine}
    (hreg : e.registry = r) (hconfig : e.setup.config.check = .ok ())
    (hmodifiers : e.setup.modifiers = .none) (w : World) :
    let f := e.after (.normal w)
    ∀ q ∈ r.rules, ∀ a ∈ w.agents,
      (∃ s, q.scoreFor (f.context w) a = .ok s) ∧
        ∃ b, (w.agents.reverse.find? fun b => b.id == a.id) = some b ∧
          ∃ s, q.scoreFor (f.context w) b = .ok s ∧ f.score? a.id q.name = some s := by
  obtain ⟨d, -, rfl⟩ := Registry.ofText_eq_ok_iff.1 hr
  intro f q hq a ha
  have hsetup : f.setup = e.setup := e.setup_after _
  have hscored (b : Agent) : ∃ s, q.scoreFor (f.context w) b = .ok s := by
    refine Rule.scoreFor_ok (hfinite q hq) ?_ ?_
    · rw [context, hsetup]
      exact Config.isFinite_of_check hconfig
    · rw [context, hsetup]
      exact hmodifiers
  have hvalid := Registry.validRules_of_issues hissues
  have hnames : (e.registry.validRules.map (·.name)).Nodup := by
    rw [hreg, hvalid]
    exact (Registry.Loaded.ofDocument d).distinct.rules
  obtain ⟨b, hb, hscore⟩ := ScoreTable.exists_get?_ofRules (c := f.context w) hnames ha
    (hreg ▸ hvalid ▸ hq)
  obtain ⟨s, hs⟩ := hscored b
  refine ⟨hscored a, b, hb, s, hs, ?_⟩
  rw [score?, scores_after_normal, hscore, Rule.scoreOrZero, hs]

/-- With scores from 5 to 50, and one of 3.5 to start from, both rules score the cook. -/
theorem scores_of_clean_stew :
    ∃ r, Registry.ofText (stewText "5~50" "3.5") = .ok r ∧ r.issues = [] ∧
      r.rules.map (·.name) = ["crowd", "habit"] ∧ ∀ q ∈ r.rules, ∃ s,
        q.scoreFor ((cooking r).context (Farm.world 1 [Farm.worker 1])) (Farm.worker 1) = .ok s ∧
          (cooking r).score? ⟨1⟩ q.name = some s := by
  have hclean : ((Registry.documentOf? (stewText "5~50" "3.5")).any fun d =>
      let r := Registry.ofDocument d
      r.issues.isEmpty && r.rules.map (·.name) == ["crowd", "habit"] &&
        decide (∀ q ∈ r.rules, q.FiniteScores)) = true := by
    rw [Registry.documentOf?, Toml.read?, toList_stewText]
    decide +kernel
  obtain ⟨d, hd, h⟩ := (Option.any_eq_true _ _).1 hclean
  simp only [Bool.and_eq_true, List.isEmpty_iff, beq_iff_eq, decide_eq_true_eq] at h
  obtain ⟨⟨hissues, hnames⟩, hfinite⟩ := h
  have hr := Registry.ofText_eq_ok_iff.2 ⟨d, hd, rfl⟩
  have hconfig : ({} : Config).check = .ok () := by decide
  refine ⟨_, hr, hissues, hnames, fun q hq => ?_⟩
  have hscores := scores_of_clean hr hissues hfinite
    (e := start { config := {}, registry := Registry.ofDocument d }) rfl hconfig rfl
    (Farm.world 1 [Farm.worker 1]) q hq (Farm.worker 1) List.mem_cons_self
  obtain ⟨-, b, hb, hs⟩ := hscores
  have hcook : b ∈ [Farm.worker 1] := List.mem_reverse.1 (List.mem_of_find?_eq_some hb)
  rwa [List.mem_singleton.1 hcook] at hs

/-- With scores that are infinite nothing is reported either, but the cook is not scored,
    and it is zero that is published. There is no number in the world that could be at
    fault. -/
theorem zero_of_infinite_stew :
    ∃ r, Registry.ofText (stewText "5~" "inf") = .ok r ∧ r.issues = [] ∧
      r.rules.map (·.name) = ["crowd", "habit"] ∧ ({} : Config).check = .ok () ∧ ∀ q ∈ r.rules,
        (∃ err, q.scoreFor ((cooking r).context (Farm.world 1 [Farm.worker 1])) (Farm.worker 1) =
          .error err) ∧ (cooking r).score? ⟨1⟩ q.name = some .zero := by
  have hclean : ((Registry.documentOf? (stewText "5~" "inf")).any fun d =>
      let r := Registry.ofDocument d
      r.issues.isEmpty && r.rules.map (·.name) == ["crowd", "habit"] && r.rules.all fun q =>
        !(q.scoreFor ((cooking r).context (Farm.world 1 [Farm.worker 1])) (Farm.worker 1)).isOk &&
          (cooking r).score? ⟨1⟩ q.name == some .zero) = true := by
    rw [Registry.documentOf?, Toml.read?, toList_stewText]
    decide +kernel
  obtain ⟨d, hd, h⟩ := (Option.any_eq_true _ _).1 hclean
  simp only [Bool.and_eq_true, List.isEmpty_iff, beq_iff_eq, List.all_eq_true] at h
  obtain ⟨⟨hissues, hnames⟩, hall⟩ := h
  refine ⟨_, Registry.ofText_eq_ok_iff.2 ⟨d, hd, rfl⟩, hissues, hnames, by decide, fun q hq => ?_⟩
  obtain ⟨herror, hzero⟩ := hall q hq
  refine ⟨?_, hzero⟩
  cases hs : q.scoreFor ((cooking (Registry.ofDocument d)).context
      (Farm.world 1 [Farm.worker 1])) (Farm.worker 1) with
  | error err => exact ⟨err, rfl⟩
  | ok s =>
    rw [hs] at herror
    exact absurd herror Bool.false_ne_true

end Engine
end WorkPriority
