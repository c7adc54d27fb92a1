import WorkPriority.Ranking.Breakdown
import Mathlib

/-!
# What totals are made of

The total of a category is counted rule by rule, while two lists are kept of what is
shown: what counted, and what would have counted again. The two tallies agree, since a
score that is not shown is zero, and since all the places of a rule have one score
(`Count.Accounts`). So the total is the sum of what is listed
(`Plan.breakdown_accounts`).

Which rules count is a matter of which are attached, and not of where or how often. Nor
does it matter in what order passions are compared, of which no two are equally strong.
So plans of one category with the same rules and the same skills have the same total
(`Plan.breakdown_of_same_rules`).

A rule whose score is not shown adds nothing, but it has counted: a bonus under its name
does not (`Plan.hidden_rule_blocks_bonus`).
-/

namespace WorkPriority

/-! ### Scores that are shown -/

theorem RuleScore.score_of_not_isVisible {s : RuleScore} (h : s.isVisible = false) :
    s.score = 0 := by
  simp only [isVisible, Bool.or_eq_false_iff, bne_eq_false_iff_eq] at h
  exact h.2

namespace ScoreRow

variable (scores : ScoreRow) (rule : String)

/-- Whether a rule has a score that is shown. -/
def shows : Bool := (scores.get? rule).any (·.isVisible)

/-- Whether a rule has a score that is not shown. -/
def hides : Bool := (scores.get? rule).any fun s => !s.isVisible

/-- What a rule adds to a total in which it counts. -/
def scoreOf : Int := ((scores.get? rule).map (·.score)).getD 0

variable {scores rule} {s : RuleScore}

theorem scoreOf_of_some (h : scores.get? rule = some s) : scores.scoreOf rule = s.score := by
  rw [scoreOf, h]
  rfl

theorem shows_of_some (h : scores.get? rule = some s) : scores.shows rule = s.isVisible := by
  rw [shows, h]
  rfl

theorem shows_of_none (h : scores.get? rule = none) : scores.shows rule = false := by
  rw [shows, h]
  rfl

/-- A rule that has a score shows or hides it. -/
theorem hides_of_isSome (h : (scores.get? rule).isSome = true) (hs : scores.shows rule = false) :
    scores.hides rule = true := by
  obtain ⟨s, hget⟩ := Option.isSome_iff_exists.1 h
  rw [shows_of_some hget] at hs
  rw [hides, hget, Option.any_some, hs]
  rfl

/-- A rule whose score is not shown adds nothing. -/
theorem scoreOf_of_not_shows (h : scores.shows rule = false) : scores.scoreOf rule = 0 := by
  cases hget : scores.get? rule with
  | none =>
    rw [scoreOf, hget]
    rfl
  | some s =>
    rw [shows_of_some hget] at h
    rw [scoreOf_of_some hget, RuleScore.score_of_not_isVisible h]

/-- So a total is that of the scores that are shown. -/
theorem sum_filter_shows (scores : ScoreRow) (rules : List String) :
    ((rules.filter scores.shows).map scores.scoreOf).sum = (rules.map scores.scoreOf).sum := by
  induction rules with
  | nil => rfl
  | cons r rules ih =>
    cases hr : scores.shows r with
    | true =>
      rw [List.filter_cons_of_pos hr, List.map_cons, List.sum_cons, ih, List.map_cons,
        List.sum_cons]
    | false =>
      rw [List.filter_cons_of_neg (ne_true_of_eq_false hr), ih, List.map_cons, List.sum_cons,
        scoreOf_of_not_shows hr, zero_add]

end ScoreRow

/-- A part says what the score of its rule says, which is shown. -/
structure Contribution.Shows (scores : ScoreRow) (x : Contribution) : Prop where
  shows : scores.shows x.rule = true
  agrees : (scores.get? x.rule).map (fun s => (s.score, s.description)) =
    some (x.score, x.description)

namespace Contribution.Shows

variable {scores : ScoreRow} {x y : Contribution}

theorem scoreOf (h : x.Shows scores) : scores.scoreOf x.rule = x.score := by
  obtain ⟨s, hget, hs⟩ := Option.map_eq_some_iff.1 h.agrees
  rw [ScoreRow.scoreOf_of_some hget]
  exact congrArg Prod.fst hs

/-- Parts of one rule say the same. -/
theorem eq_of_rule (hx : x.Shows scores) (hy : y.Shows scores) (h : x.rule = y.rule) :
    x.score = y.score ∧ x.description = y.description := by
  have hboth := hx.agrees
  rw [h, hy.agrees, Option.some.injEq, Prod.mk.injEq] at hboth
  exact ⟨hboth.1.symm, hboth.2.symm⟩

end Contribution.Shows

/-! ### Counting -/

namespace Count

/-- What is counted of the rules `rules`. -/
structure Accounts (scores : ScoreRow) (rules : List String) (c : Count) : Prop where
  nodup : c.counted.Nodup
  mem_counted : ∀ r, r ∈ c.counted ↔ r ∈ rules ∧ (scores.get? r).isSome = true
  total : c.total = (c.counted.map scores.scoreOf).sum
  listed : c.contributions.map (·.rule) = c.counted.filter scores.shows
  duplicates : ∀ x ∈ c.duplicates, x.rule ∈ c.counted
  faithful : ∀ x, x ∈ c.contributions ∨ x ∈ c.duplicates → x.Shows scores
  length : c.contributions.length + c.duplicates.length = rules.countP scores.shows

/-- What counting a rule adds to one of the lists. -/
def part (rule : String) (target : Target) (s : RuleScore) : List Contribution :=
  if s.isVisible then [⟨rule, target, s.score, s.description⟩] else []

variable {scores : ScoreRow} {rules : List String} {c : Count} {rule : String} {s : RuleScore}

theorem shows_of_mem_part (hs : scores.get? rule = some s) {target : Target} {x : Contribution}
    (hx : x ∈ part rule target s) : x.rule = rule ∧ x.Shows scores := by
  rw [part] at hx
  split at hx
  · rename_i hv
    obtain rfl := List.mem_singleton.1 hx
    refine ⟨rfl, (ScoreRow.shows_of_some hs).trans hv, ?_⟩
    rw [hs]
    rfl
  · exact absurd hx List.not_mem_nil

theorem map_rule_part (hs : scores.get? rule = some s) (target : Target) :
    (part rule target s).map (·.rule) = [rule].filter scores.shows := by
  rw [part, List.filter_singleton, ScoreRow.shows_of_some hs]
  cases s.isVisible with
  | true => rfl
  | false => rfl

theorem length_part (hs : scores.get? rule = some s) (target : Target) :
    (part rule target s).length = [rule].countP scores.shows := by
  rw [List.countP_eq_length_filter, ← map_rule_part hs target, List.length_map]

theorem add_of_mem (h : rule ∈ c.counted) (target : Target) (s : RuleScore) :
    c.add rule target s = { c with duplicates := c.duplicates ++ part rule target s } :=
  if_pos h

theorem add_of_not_mem (h : rule ∉ c.counted) (target : Target) (s : RuleScore) :
    c.add rule target s =
      { c with
        counted := c.counted ++ [rule]
        total := c.total + s.score
        contributions := c.contributions ++ part rule target s } :=
  if_neg h

namespace Accounts

variable (h : c.Accounts scores rules)

include h

/-- A rule that has counted, or that has no score, changes nothing in what has counted. -/
theorem mem_counted_append (hr : (scores.get? rule).isSome = true → rule ∈ c.counted) (r : String) :
    r ∈ c.counted ↔ r ∈ rules ++ [rule] ∧ (scores.get? r).isSome = true := by
  rw [List.mem_append, List.mem_singleton]
  constructor
  · exact fun hmem => ⟨.inl ((h.mem_counted r).1 hmem).1, ((h.mem_counted r).1 hmem).2⟩
  · rintro ⟨hmem | rfl, hsome⟩
    · exact (h.mem_counted r).2 ⟨hmem, hsome⟩
    · exact hr hsome

/-- The total is the sum of the parts that count. -/
theorem total_eq_sum : c.total = (c.contributions.map (·.score)).sum := by
  have hscores : c.contributions.map (·.score) =
      (c.contributions.map (·.rule)).map scores.scoreOf := by
    rw [List.map_map]
    exact List.map_congr_left fun x hx => (h.faithful x (.inl hx)).scoreOf.symm
  rw [hscores, h.listed, ScoreRow.sum_filter_shows, h.total]

/-- A rule without a score is passed over. -/
theorem pass (hs : scores.get? rule = none) : c.Accounts scores (rules ++ [rule]) where
  __ := h
  mem_counted := h.mem_counted_append fun hsome => by
    rw [hs] at hsome
    exact absurd hsome Bool.false_ne_true
  length := by
    rw [List.countP_append, List.countP_singleton, ScoreRow.shows_of_none hs, h.length]
    rfl

/-- A rule that has counted becomes a duplicate. -/
theorem add_duplicate (hs : scores.get? rule = some s) (hr : rule ∈ c.counted) (target : Target) :
    (c.add rule target s).Accounts scores (rules ++ [rule]) := by
  rw [add_of_mem hr]
  refine ⟨h.nodup, h.mem_counted_append fun _ => hr, h.total, h.listed, fun x hx => ?_,
    fun x hx => ?_, ?_⟩
  · rcases List.mem_append.1 hx with hx | hx
    · exact h.duplicates x hx
    · rw [(shows_of_mem_part hs hx).1]
      exact hr
  · rcases hx with hx | hx
    · exact h.faithful x (.inl hx)
    · rcases List.mem_append.1 hx with hx | hx
      · exact h.faithful x (.inr hx)
      · exact (shows_of_mem_part hs hx).2
  · rw [List.length_append, ← Nat.add_assoc, h.length, length_part hs, List.countP_append]

/-- Any other rule counts. -/
theorem add_first (hs : scores.get? rule = some s) (hr : rule ∉ c.counted) (target : Target) :
    (c.add rule target s).Accounts scores (rules ++ [rule]) := by
  rw [add_of_not_mem hr]
  refine ⟨?_, fun r => ?_, ?_, ?_, fun x hx => ?_, fun x hx => ?_, ?_⟩
  · exact List.nodup_append.2 ⟨h.nodup, List.nodup_singleton _, fun a ha b hb hab =>
      hr (List.mem_singleton.1 hb ▸ hab ▸ ha)⟩
  · rw [List.mem_append, List.mem_append, List.mem_singleton, h.mem_counted, or_and_right]
    refine or_congr_right ⟨?_, And.left⟩
    rintro rfl
    rw [hs]
    exact ⟨rfl, rfl⟩
  · simp only [List.map_append, List.sum_append, List.map_singleton, List.sum_singleton, h.total,
      ScoreRow.scoreOf_of_some hs]
  · simp only [List.map_append, List.filter_append, h.listed, map_rule_part hs]
  · exact List.mem_append_left _ (h.duplicates x hx)
  · rcases hx with hx | hx
    · rcases List.mem_append.1 hx with hx | hx
      · exact h.faithful x (.inl hx)
      · exact (shows_of_mem_part hs hx).2
    · exact h.faithful x (.inr hx)
  · rw [List.length_append, length_part hs, List.countP_append, ← h.length, Nat.add_right_comm]

end Accounts

theorem ofEntries_concat_of_some {scores : ScoreRow} {e : String × Target} {s : RuleScore}
    (hs : scores.get? e.1 = some s) (entries : List (String × Target)) :
    ofEntries scores (entries ++ [e]) = (ofEntries scores entries).add e.1 e.2 s := by
  rw [ofEntries, List.foldl_concat, hs]
  rfl

theorem ofEntries_concat_of_none {scores : ScoreRow} {e : String × Target}
    (hs : scores.get? e.1 = none) (entries : List (String × Target)) :
    ofEntries scores (entries ++ [e]) = ofEntries scores entries := by
  rw [ofEntries, List.foldl_concat, hs]
  rfl

/-- Whatever is counted accounts for itself. -/
theorem accounts_ofEntries (scores : ScoreRow) (entries : List (String × Target)) :
    (ofEntries scores entries).Accounts scores (entries.map Prod.fst) := by
  induction entries using List.reverseRecOn with
  | nil => constructor <;> simp [ofEntries]
  | append_singleton entries e ih =>
    rw [List.map_append, List.map_singleton]
    cases hs : scores.get? e.1 with
    | some s =>
      rw [ofEntries_concat_of_some hs]
      by_cases hr : e.1 ∈ (ofEntries scores entries).counted
      · exact ih.add_duplicate hs hr e.2
      · exact ih.add_first hs hr e.2
    | none =>
      rw [ofEntries_concat_of_none hs]
      exact ih.pass hs

end Count

/-! ### The strongest passion -/

namespace Passion

theorem magnitude_injective : Function.Injective magnitude := by
  intro p q h
  cases p <;> cases q <;> first | rfl | cases h

/-- A passion is the strongest of some: it is one of them, and none exceeds it. -/
def IsStrongest (p : Passion) (ps : List Passion) : Prop :=
  p ∈ ps ∧ ∀ q ∈ ps, q.magnitude ≤ p.magnitude

/-- There are no two, since equally strong passions are equal. -/
theorem IsStrongest.unique {p q : Passion} {ps : List Passion} (hp : p.IsStrongest ps)
    (hq : q.IsStrongest ps) : p = q :=
  magnitude_injective (le_antisymm (hq.2 p hp.1) (hp.2 q hq.1))

theorem isStrongest_stronger (p q : Passion) : (p.stronger q).IsStrongest [p, q] := by
  rw [stronger]
  split
  · rename_i h
    exact ⟨by simp, by simpa using h⟩
  · rename_i h
    exact ⟨by simp, by simpa using le_of_not_ge h⟩

/-- Passions compared one by one end in the strongest of them all. -/
theorem isStrongest_foldl (p : Passion) (ps : List Passion) :
    (ps.foldl stronger p).IsStrongest (p :: ps) := by
  induction ps generalizing p with
  | nil => exact ⟨List.mem_cons_self, by simp⟩
  | cons q ps ih =>
    obtain ⟨hmem, hmax⟩ := ih (p.stronger q)
    obtain ⟨hone, hboth⟩ := isStrongest_stronger p q
    have hfirst := hmax (p.stronger q) List.mem_cons_self
    rw [List.foldl_cons]
    refine ⟨?_, fun r hr => ?_⟩
    · rcases List.mem_cons.1 hmem with he | hmem
      · rw [he]
        exact List.mem_append_left ps hone
      · exact List.mem_cons_of_mem _ (List.mem_cons_of_mem _ hmem)
    · rcases List.mem_append.1 (show r ∈ [p, q] ++ ps from hr) with hr | hr
      · exact (hboth r hr).trans hfirst
      · exact hmax r (List.mem_cons_of_mem _ hr)

end Passion

theorem Agent.strongestPassion?_eq_some_iff (a : Agent) (skills : List String) (p : Passion) :
    a.strongestPassion? skills = some p ↔ p.IsStrongest (skills.map a.passion) := by
  cases skills with
  | nil =>
    exact ⟨fun h => absurd h.symm (Option.some_ne_none p), fun h => absurd h.1 List.not_mem_nil⟩
  | cons s ss =>
    have hfold : a.strongestPassion? (s :: ss) =
        some ((ss.map a.passion).foldl Passion.stronger (a.passion s)) := by
      rw [List.foldl_map]
      rfl
    have hstrongest := Passion.isStrongest_foldl (a.passion s) (ss.map a.passion)
    rw [hfold, Option.some.injEq]
    exact ⟨fun h => h ▸ hstrongest, hstrongest.unique⟩

/-- The order of the skills does not matter, nor that some are repeated. -/
theorem Agent.strongestPassion?_congr (a : Agent) {skills others : List String}
    (h : ∀ s, s ∈ skills ↔ s ∈ others) :
    a.strongestPassion? skills = a.strongestPassion? others := by
  ext p
  simp only [strongestPassion?_eq_some_iff, Passion.IsStrongest, List.mem_map, h]

/-! ### Plans -/

namespace Plan

/-- The rules of a plan, as often as they are attached. -/
def rules (p : Plan) : List String := (p.subTaskRules.flatMap fun s => s.2) ++ p.categoryRules

theorem map_fst_entries (p : Plan) : p.entries.map Prod.fst = p.rules := by
  simp [entries, rules, List.map_flatMap, Function.comp_def]

/-- What is counted of a plan. -/
def count (p : Plan) (scores : ScoreRow) : Count := .ofEntries scores p.entries

theorem accounts_count (p : Plan) (scores : ScoreRow) :
    (p.count scores).Accounts scores p.rules := by
  rw [← map_fst_entries]
  exact Count.accounts_ofEntries scores p.entries

/-- The bonus that counts. -/
def bonus? (p : Plan) (bonuses : List AffinityBonus) (a : Agent) (scores : ScoreRow) :
    Option AffinityBonus :=
  (AffinityBonus.find? bonuses a p.category.skills).filter fun b =>
    b.name ∉ (p.count scores).counted

variable (p : Plan) (bonuses : List AffinityBonus) (a : Agent) (scores : ScoreRow)

theorem total_breakdown : (p.breakdown bonuses a scores).total =
    (p.count scores).total + ((p.bonus? bonuses a scores).map (·.score)).getD 0 := rfl

theorem affinity_breakdown : (p.breakdown bonuses a scores).affinity =
    (p.bonus? bonuses a scores).map fun b =>
      ⟨b.name, .category p.name, b.score, b.description⟩ := rfl

theorem score_affinity_breakdown : (p.breakdown bonuses a scores).affinity.map (·.score) =
    (p.bonus? bonuses a scores).map (·.score) := by
  rw [affinity_breakdown, Option.map_map]
  rfl

variable {p bonuses a scores} {q : Plan}

/-- Plans that agree on the rules whose scores are shown count to the same total. -/
theorem total_count_congr (h : ∀ r, scores.shows r = true → (r ∈ p.rules ↔ r ∈ q.rules)) :
    (p.count scores).total = (q.count scores).total := by
  have hp := p.accounts_count scores
  have hq := q.accounts_count scores
  have hperm : ((p.count scores).counted.filter scores.shows).Perm
      ((q.count scores).counted.filter scores.shows) := by
    refine (List.perm_ext_iff_of_nodup (hp.nodup.filter _) (hq.nodup.filter _)).2 fun r => ?_
    rw [List.mem_filter, List.mem_filter, hp.mem_counted, hq.mem_counted]
    exact and_congr_left fun hr => and_congr_left fun _ => h r hr
  rw [hp.total, hq.total, ← scores.sum_filter_shows,
    ← scores.sum_filter_shows (q.count scores).counted]
  exact (hperm.map _).sum_eq

/-- For the bonus, they have to agree on a rule of its name even if that is hidden. -/
theorem bonus?_congr (hskills : ∀ s, s ∈ p.category.skills ↔ s ∈ q.category.skills)
    (hshown : ∀ r, scores.shows r = true → (r ∈ p.rules ↔ r ∈ q.rules))
    (hhidden : ∀ b, AffinityBonus.find? bonuses a p.category.skills = some b →
      scores.hides b.name = true → (b.name ∈ p.rules ↔ b.name ∈ q.rules)) :
    p.bonus? bonuses a scores = q.bonus? bonuses a scores := by
  have hfind : AffinityBonus.find? bonuses a q.category.skills =
      AffinityBonus.find? bonuses a p.category.skills := by
    rw [AffinityBonus.find?, AffinityBonus.find?, a.strongestPassion?_congr hskills]
  rw [bonus?, bonus?, hfind]
  cases hb : AffinityBonus.find? bonuses a p.category.skills with
  | none => rfl
  | some b =>
    have hcounted : b.name ∈ (p.count scores).counted ↔ b.name ∈ (q.count scores).counted := by
      rw [(p.accounts_count scores).mem_counted, (q.accounts_count scores).mem_counted]
      refine and_congr_left fun hsome => ?_
      cases hs : scores.shows b.name with
      | true => exact hshown _ hs
      | false => exact hhidden b hb (ScoreRow.hides_of_isSome hsome hs)
    simp only [Option.filter_some, hcounted]

/-- The total and the bonus of a category are settled by which rules are attached, of those
    that are hidden only by whether the one of the name of the bonus is. -/
theorem total_breakdown_congr (hname : p.name = q.name)
    (hskills : ∀ s, s ∈ p.category.skills ↔ s ∈ q.category.skills)
    (hshown : ∀ r, scores.shows r = true → (r ∈ p.rules ↔ r ∈ q.rules))
    (hhidden : ∀ b, AffinityBonus.find? bonuses a p.category.skills = some b →
      scores.hides b.name = true → (b.name ∈ p.rules ↔ b.name ∈ q.rules)) :
    (p.breakdown bonuses a scores).total = (q.breakdown bonuses a scores).total ∧
      (p.breakdown bonuses a scores).affinity = (q.breakdown bonuses a scores).affinity := by
  rw [total_breakdown, total_breakdown, affinity_breakdown, affinity_breakdown,
    total_count_congr hshown, bonus?_congr hskills hshown hhidden, hname]
  exact ⟨rfl, rfl⟩

/-- The breakdown of a category accounts for its total. The total is the sum of the
    scores that are listed, and of the bonus. No rule is listed twice, nor under the name
    of the bonus. Every duplicate repeats what is listed. Every place of a rule whose score
    is shown is listed, as the one or as the other. Duplicates and rules that are not shown
    do nothing to the total, but that there is no bonus under the name of one: plans that
    agree on the rules that are shown, and on one of the name of the bonus, have the same
    total. -/
theorem breakdown_accounts (p : Plan) (bonuses : List AffinityBonus) (a : Agent)
    (scores : ScoreRow) :
    let b := p.breakdown bonuses a scores
    b.total = (b.contributions.map (·.score)).sum + (b.affinity.map (·.score)).getD 0 ∧
    (b.contributions.map (·.rule)).Nodup ∧
    (∀ x ∈ b.affinity, x.rule ∉ b.contributions.map (·.rule)) ∧
    (∀ d ∈ b.duplicates, ∃ x ∈ b.contributions,
      x.rule = d.rule ∧ x.score = d.score ∧ x.description = d.description) ∧
    b.contributions.length + b.duplicates.length = p.rules.countP scores.shows ∧
    ∀ q : Plan, q.category = p.category →
      (∀ r, scores.shows r = true → (r ∈ p.rules ↔ r ∈ q.rules)) →
      (∀ x, AffinityBonus.find? bonuses a p.category.skills = some x →
        scores.hides x.name = true → (x.name ∈ p.rules ↔ x.name ∈ q.rules)) →
      (q.breakdown bonuses a scores).total = b.total ∧
        (q.breakdown bonuses a scores).affinity = b.affinity := by
  intro b
  have h := p.accounts_count scores
  have hlisted (r : String) : r ∈ b.contributions.map (·.rule) ↔
      r ∈ (p.count scores).counted ∧ scores.shows r = true := by
    rw [show b.contributions = (p.count scores).contributions from rfl, h.listed, List.mem_filter]
  refine ⟨?_, ?_, fun x hx hmem => ?_, fun d hd => ?_, h.length, fun q hq hshown hhidden => ?_⟩
  · rw [score_affinity_breakdown, total_breakdown, h.total_eq_sum]
    rfl
  · exact h.listed ▸ h.nodup.filter _
  · -- A bonus under the name of a rule that has counted was left out.
    obtain ⟨y, hy, rfl⟩ := Option.mem_map.1 hx
    have hcounts := (Option.filter_eq_some_iff.1 hy).2
    exact of_decide_eq_true hcounts ((hlisted _).1 hmem).1
  · -- The rule of a duplicate has counted, and it is shown: so it is listed.
    have hd' := h.faithful d (.inr hd)
    obtain ⟨x, hx, hrule⟩ := List.mem_map.1 ((hlisted d.rule).2 ⟨h.duplicates d hd, hd'.shows⟩)
    obtain ⟨hscore, hdescription⟩ := (h.faithful x (.inl hx)).eq_of_rule hd' hrule
    exact ⟨x, hx, hrule, hscore, hdescription⟩
  · obtain ⟨htotal, haffinity⟩ := total_breakdown_congr (by rw [name, name, hq])
      (fun s => by rw [hq]) hshown hhidden
    exact ⟨htotal.symm, haffinity.symm⟩

end Plan

namespace Kitchen

/-- Someone who loves to cook. -/
def cook : Agent := { id := ⟨1⟩, name := "Ada", passions := .ofList [("Cooking", .major)] }

/-- Cooking, with rules for the stew and for the category as a whole. -/
def plan (stew rules : List String) : Plan where
  category := { name := "Cooking", skills := ["Cooking", "Plants"] }
  subTaskRules := [("Stew", stew)]
  categoryRules := rules

/-- They are hungry, and nothing is burning. -/
def scores : ScoreRow := .ofList [("hungry", ⟨7, "hungry", true⟩), ("burning", ⟨0, "", false⟩)]

/-- A bonus for those who love to cook. -/
def bonuses (name : String) : List AffinityBonus := [{ name, passion := .major, score := 20 }]

end Kitchen

namespace Plan

open Kitchen

/-- That they are hungry is listed once and repeated once. That nothing is burning does
    nothing to the total. -/
theorem breakdown_accounts_kitchen :
    let b := (plan ["hungry"] ["hungry"]).breakdown (bonuses "cook") cook scores
    let c := (plan ["burning"] ["hungry"]).breakdown (bonuses "cook") cook scores
    b.total = 27 ∧ b.contributions.length + b.duplicates.length = 2 ∧ c.total = b.total := by
  intro b c
  obtain ⟨-, -, -, -, hlength, hsame⟩ :=
    breakdown_accounts (plan ["hungry"] ["hungry"]) (bonuses "cook") cook scores
  refine ⟨by decide, hlength, (hsame (plan ["burning"] ["hungry"]) rfl (fun r hr => ?_)
    fun x hx hhides => ?_).1⟩
  · have hburning : r ≠ "burning" := by
      rintro rfl
      exact absurd hr (by decide)
    simp [rules, plan, hburning]
  · obtain rfl : x = ⟨"cook", .major, 20, ""⟩ := Option.some.inj (hx.symm.trans rfl)
    exact absurd hhides (by decide)

/-- A rule that is not shown takes the place of a bonus of its name. -/
theorem hidden_rule_blocks_bonus :
    scores.hides "burning" = true ∧
      ((plan [] ["burning"]).breakdown (bonuses "burning") cook scores).total = 0 ∧
      ((plan [] []).breakdown (bonuses "burning") cook scores).total = 20 := by
  decide

/-- Where the rules of a category are attached does not matter to its total and its bonus,
    nor in what order and how often, nor in what order it has its skills. -/
theorem breakdown_of_same_rules {p q : Plan} (hname : p.name = q.name)
    (hrules : ∀ r, r ∈ p.rules ↔ r ∈ q.rules)
    (hskills : ∀ s, s ∈ p.category.skills ↔ s ∈ q.category.skills)
    (bonuses : List AffinityBonus) (a : Agent) (scores : ScoreRow) :
    (p.breakdown bonuses a scores).total = (q.breakdown bonuses a scores).total ∧
      (p.breakdown bonuses a scores).affinity = (q.breakdown bonuses a scores).affinity :=
  total_breakdown_congr hname hskills (fun r _ => hrules r) fun b _ _ => hrules b.name

/-- The rules of the stew and of the category changed places, and the skills too. -/
theorem breakdown_of_same_rules_kitchen :
    let p := plan ["hungry", "hungry"] ["burning"]
    let q : Plan := { plan ["burning"] ["hungry"] with
      category := { name := "Cooking", skills := ["Plants", "Cooking", "Plants"] } }
    (p.breakdown (bonuses "burning") cook scores).total = 7 ∧
      (q.breakdown (bonuses "burning") cook scores).total = 7 := by
  intro p q
  have hrules (r : String) : r ∈ p.rules ↔ r ∈ q.rules := by
    change r ∈ ["hungry", "hungry", "burning"] ↔ r ∈ ["burning", "hungry"]
    simp only [List.mem_cons, List.not_mem_nil]
    tauto
  have hskills (s : String) : s ∈ p.category.skills ↔ s ∈ q.category.skills := by
    simp only [p, q, plan, List.mem_cons, List.not_mem_nil]
    tauto
  have hp : (p.breakdown (bonuses "burning") cook scores).total = 7 := by decide
  exact ⟨hp, (breakdown_of_same_rules (p := p) (q := q) rfl hrules hskills (bonuses "burning") cook
    scores).1.symm.trans hp⟩

end Plan
end WorkPriority
