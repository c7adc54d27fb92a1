import WorkPriority.Proofs.Registries

/-!
# Plans and targets

A plan is made of the rules that target its category, attached rule by rule and
target by target. What it comes to does not depend on how it is made: for every
target a plan has, in the order of the rules, each of them as often as it has that
target (`Plan.holds_ofRules`). A sub-task that is declared twice has its rules at
the first place only.

A rule that is valid has targets, and all of them are declared: else its check
would have found something. So in a loaded registry each valid rule, and no other
one, is in a plan (`Registry.plans_exact`).
-/

namespace WorkPriority
namespace Plan

/-! ### Attaching to the first sub-task of a name -/

theorem map_fst_addToFirst (subTask rule : String) (xs : List (String × List String)) :
    (addToFirst subTask rule xs).map Prod.fst = xs.map Prod.fst := by
  induction xs with
  | nil => rfl
  | cons x xs ih =>
    rw [addToFirst]
    split
    · rfl
    · rw [List.map_cons, List.map_cons, ih]

/-- A rule is added at the first place of a name, and nowhere else. -/
theorem getElem?_addToFirst (subTask rule : String) (xs : List (String × List String)) (i : Nat) :
    (addToFirst subTask rule xs)[i]? = xs[i]?.map fun x =>
      if x.1 = subTask ∧ subTask ∉ (xs.map Prod.fst).take i then (x.1, x.2 ++ [rule]) else x := by
  induction xs generalizing i with
  | nil => rfl
  | cons x xs ih =>
    rw [addToFirst]
    by_cases hx : x.1 = subTask
    · rw [if_pos hx]
      cases i with
      | zero => simp [hx]
      | succ i => simp [hx]
    · rw [if_neg hx]
      cases i with
      | zero => simp [hx]
      | succ i => simp [ih, Ne.symm hx]

/-! ### What a plan holds -/

/-- A plan of a category has the rules that belong to each target. Those of a
    sub-task that is declared again are at its first place. -/
structure Holds (c : Category) (rules : Target → List String) (p : Plan) : Prop where
  category : p.category = c
  categoryRules : p.categoryRules = rules (.category c.name)
  subTasks : p.subTaskRules.map Prod.fst = c.subTasks
  subTaskRules : ∀ i s, c.subTasks[i]? = some s →
    p.subTaskRules[i]? = some (s, if s ∈ c.subTasks.take i then [] else rules (.subTask s))

variable {c : Category} {rules : Target → List String} {p : Plan}

theorem holds_ofCategory (c : Category) : (ofCategory c).Holds c fun _ => [] where
  category := rfl
  categoryRules := rfl
  subTasks := by
    rw [ofCategory, List.map_map]
    exact List.map_id c.subTasks
  subTaskRules i s hs := by
    rw [ofCategory, List.getElem?_map, hs, ite_self]
    rfl

/-- A target adds its rule to those that belong to it. -/
theorem Holds.attach (h : p.Holds c rules) (rule : String) (t : Target) :
    (p.attach rule t).Holds c fun u => rules u ++ if u = t then [rule] else [] := by
  cases t with
  | category name =>
    have hother (s : String) : ¬Target.subTask s = .category name := nofun
    have hname : p.name = c.name := congrArg Category.name h.category
    rw [Plan.attach, hname]
    split
    · rename_i he
      refine ⟨h.category, ?_, h.subTasks, fun i s hs => ?_⟩
      · rw [attachToCategory, h.categoryRules, he, if_pos rfl]
      · rw [attachToCategory, h.subTaskRules i s hs, if_neg (hother s), List.append_nil]
    · rename_i hne
      refine ⟨h.category, ?_, h.subTasks, fun i s hs => ?_⟩
      · rw [h.categoryRules, if_neg fun he => hne (Target.category.inj he), List.append_nil]
      · rw [h.subTaskRules i s hs, if_neg (hother s), List.append_nil]
  | subTask name =>
    rw [Plan.attach, attachToSubTask]
    refine ⟨h.category, ?_, (map_fst_addToFirst name rule _).trans h.subTasks, fun i s hs => ?_⟩
    · rw [h.categoryRules, if_neg Target.noConfusion, List.append_nil]
    · rw [getElem?_addToFirst, h.subTaskRules i s hs, h.subTasks, Option.map_some]
      by_cases hname : s = name
      · -- The rule is added here only if this is the first place of the name.
        subst hname
        by_cases hseen : s ∈ c.subTasks.take i
        · simp [hseen]
        · simp [hseen]
      · simp [hname]

/-- The rules that have a target, each as often as it has it. -/
def rulesOf (rules : List Rule) (t : Target) : List String :=
  rules.flatMap fun q => List.replicate (q.targets.count t) q.name

theorem Holds.attachRule (h : p.Holds c rules) (q : Rule) :
    (p.attachRule q).Holds c fun u => rules u ++ List.replicate (q.targets.count u) q.name := by
  rw [Plan.attachRule]
  induction q.targets generalizing p rules with
  | nil => simpa using h
  | cons t ts ih =>
    rw [List.foldl_cons]
    have hnext := ih (h.attach q.name t)
    have hcount (u : Target) : List.replicate ((t :: ts).count u) q.name =
        (if u = t then [q.name] else []) ++ List.replicate (ts.count u) q.name := by
      rw [List.count_cons]
      by_cases hu : u = t
      · subst hu
        simp [List.replicate_succ]
      · simp [hu, Ne.symm hu]
    simpa only [hcount, List.append_assoc] using hnext

/-- A plan has the rules that have its targets. -/
theorem holds_ofRules (rules : List Rule) (c : Category) :
    (ofRules rules c).Holds c (rulesOf rules) := by
  have hall (p : Plan) (before : Target → List String) (h : p.Holds c before) :
      (rules.foldl Plan.attachRule p).Holds c fun u => before u ++ rulesOf rules u := by
    induction rules generalizing p before with
    | nil => simpa [rulesOf] using h
    | cons q rules ih =>
      have hnext := ih _ _ (h.attachRule q)
      simpa only [List.foldl_cons, rulesOf, List.flatMap_cons, List.append_assoc] using hnext
  exact hall _ _ (holds_ofCategory c)

theorem category_ofRules (rules : List Rule) (c : Category) : (ofRules rules c).category = c :=
  (holds_ofRules rules c).category

theorem mem_rulesOf {rules : List Rule} {t : Target} {name : String} :
    name ∈ rulesOf rules t ↔ ∃ q ∈ rules, q.name = name ∧ t ∈ q.targets := by
  rw [rulesOf, List.mem_flatMap]
  refine exists_congr fun q => and_congr_right fun _ => ?_
  rw [List.mem_replicate, ← Nat.pos_iff_ne_zero, List.count_pos_iff, and_comm, eq_comm]

/-- The rules of a plan are those of its category and those of its sub-tasks, each
    of which has a first place. -/
theorem Holds.mem_entries_iff (h : p.Holds c rules) (name : String) :
    name ∈ p.entries.map Prod.fst ↔
      name ∈ rules (.category c.name) ∨ ∃ s ∈ c.subTasks, name ∈ rules (.subTask s) := by
  have hentries : name ∈ p.entries.map Prod.fst ↔
      (∃ x ∈ p.subTaskRules, name ∈ x.2) ∨ name ∈ p.categoryRules := by
    simp [entries]
  rw [hentries, h.categoryRules, or_comm]
  refine or_congr_right ⟨?_, ?_⟩
  · rintro ⟨⟨s, attached⟩, hx, hname⟩
    obtain ⟨i, hi⟩ := List.mem_iff_getElem?.1 hx
    have hs : c.subTasks[i]? = some s := by rw [← h.subTasks, List.getElem?_map, hi]; rfl
    refine ⟨s, List.mem_of_getElem? hs, ?_⟩
    have hplace := (h.subTaskRules i s hs).symm.trans hi
    rw [Option.some.injEq, Prod.mk.injEq] at hplace
    rw [← hplace.2] at hname
    split at hname
    · exact absurd hname List.not_mem_nil
    · exact hname
  · rintro ⟨s, hs, hname⟩
    obtain ⟨before, after, hsplit, hfirst⟩ := List.eq_append_cons_of_mem hs
    have hplace := h.subTaskRules before.length s (by simp [hsplit])
    rw [if_neg (by simpa [hsplit] using hfirst)] at hplace
    exact ⟨_, List.mem_of_getElem? hplace, hname⟩

end Plan

namespace Registry

/-! ### Plans of loaded registries -/

/-- Plans can be made of all categories at once, rule by rule and target by target. -/
theorem plans_eq_foldl (r : Registry) : r.plans = r.validRules.foldl
    (fun ps q => q.targets.foldl (fun ps t => ps.map (·.attach q.name t)) ps)
    (r.categories.map Plan.ofCategory) := by
  have hpointwise {α : Type} (f : Plan → α → Plan) (xs : List α) (ps : List Plan) :
      xs.foldl (fun ps x => ps.map (f · x)) ps = ps.map fun p => xs.foldl f p := by
    induction xs generalizing ps with
    | nil => exact (List.map_id ps).symm
    | cons x xs ih => rw [List.foldl_cons, ih, List.map_map]; rfl
  have hrule (q : Rule) (ps : List Plan) :
      q.targets.foldl (fun ps t => ps.map (·.attach q.name t)) ps = ps.map (·.attachRule q) :=
    hpointwise (fun p t => p.attach q.name t) q.targets ps
  simp only [hrule]
  rw [hpointwise, List.map_map]
  rfl

/-- Nothing is wrong with the targets of a rule just if there is one, and all are declared. -/
theorem targetIssues_eq_nil_iff (r : Registry) (q : Rule) :
    r.targetIssues q = [] ↔ q.targets ≠ [] ∧ ∀ t ∈ q.targets, r.hasTarget t = true := by
  rw [targetIssues, List.append_eq_nil_iff, List.map_eq_nil_iff, List.filter_eq_nil_iff]
  refine and_congr ?_ (forall₂_congr fun t _ => by simp)
  cases q.targets <;> simp

/-- A valid rule has a target that a category has. -/
theorem Loaded.exists_target {r : Registry} (h : r.Loaded) {q : Rule} (hq : q ∈ r.validRules) :
    ∃ c ∈ r.categories,
      .category c.name ∈ q.targets ∨ ∃ s ∈ c.subTasks, .subTask s ∈ q.targets := by
  have hissues := h.ruleIssues_of_valid hq
  rw [ruleIssues, List.append_eq_nil_iff, List.append_eq_nil_iff,
    targetIssues_eq_nil_iff] at hissues
  obtain ⟨⟨⟨hsome, hdeclared⟩, -⟩, -⟩ := hissues
  obtain ⟨t, ht⟩ := List.exists_mem_of_ne_nil q.targets hsome
  have hhas := hdeclared t ht
  cases t with
  | category name =>
    obtain ⟨c, hc, hname⟩ := List.any_eq_true.1 hhas
    exact ⟨c, hc, .inl (eq_of_beq hname ▸ ht)⟩
  | subTask name =>
    obtain ⟨c, hc, hname⟩ := List.any_eq_true.1 hhas
    exact ⟨c, hc, .inr ⟨name, List.contains_iff_mem.1 hname, ht⟩⟩

/-- In a loaded registry there is a plan for each category, in order, and it has
    for each target the valid rules that have the target. A name is in some plan
    just if it is that of a valid rule. -/
theorem plans_exact (r : Registry) (hr : r.Loaded) :
    r.plans.map (·.category) = r.categories ∧
      (∀ p ∈ r.plans, p.Holds p.category (Plan.rulesOf r.validRules)) ∧
      ∀ name, (∃ p ∈ r.plans, name ∈ p.entries.map Prod.fst) ↔ r.isValidRule name = true := by
  have hholds (c : Category) := Plan.holds_ofRules r.validRules c
  refine ⟨?_, List.forall_mem_map.2 fun c _ => ?_, fun name => ?_⟩
  · rw [plans, List.map_map]
    exact (List.map_congr_left fun c _ => Plan.category_ofRules _ c).trans (List.map_id _)
  · exact (hholds c).category.symm ▸ hholds c
  · rw [hr.distinct.isValidRule_iff]
    constructor
    · rintro ⟨p, hp, hname⟩
      obtain ⟨c, -, rfl⟩ := List.mem_map.1 hp
      rcases ((hholds c).mem_entries_iff name).1 hname with hmem | ⟨s, -, hmem⟩
      · obtain ⟨q, hq, hqname, -⟩ := Plan.mem_rulesOf.1 hmem
        exact ⟨q, hq, hqname⟩
      · obtain ⟨q, hq, hqname, -⟩ := Plan.mem_rulesOf.1 hmem
        exact ⟨q, hq, hqname⟩
    · rintro ⟨q, hq, rfl⟩
      obtain ⟨c, hc, htarget⟩ := hr.exists_target hq
      refine ⟨_, List.mem_map_of_mem hc, ((hholds c).mem_entries_iff q.name).2 ?_⟩
      rcases htarget with ht | ⟨s, hs, ht⟩
      · exact .inl (Plan.mem_rulesOf.2 ⟨q, hq, rfl, ht⟩)
      · exact .inr ⟨s, hs, Plan.mem_rulesOf.2 ⟨q, hq, rfl, ht⟩⟩

/-- A sub-task of two categories, declared twice by one of them: a rule that has it
    as its target twice is in both plans twice, and in none at the second place. A
    rule without targets is in no plan. -/
theorem plans_exact_stew :
    let stew : Category := { name := "Stew", subTasks := ["stir", "salt", "stir"] }
    let soup : Category := { name := "Soup", subTasks := ["stir"] }
    let cook : Rule := { name := "cook", targets := [.subTask "stir", .subTask "stir"] }
    let r := ofParts [] [cook, { name := "idle" }] [stew, soup] []
    r.Loaded ∧
      (∀ p ∈ r.plans, p.category.name = "Stew" →
        p.subTaskRules = [("stir", ["cook", "cook"]), ("salt", []), ("stir", [])]) ∧
      (∃ p ∈ r.plans, "cook" ∈ p.entries.map Prod.fst) ∧
      ¬∃ p ∈ r.plans, "idle" ∈ p.entries.map Prod.fst := by
  intro stew soup cook r
  have hr : r.Loaded := .ofParts _ _ _ _
  obtain ⟨-, -, hiff⟩ := plans_exact r hr
  refine ⟨hr, ?_, (hiff "cook").2 (by decide +kernel), fun h => ?_⟩
  · decide +kernel
  · exact absurd ((hiff "idle").1 h) (by decide +kernel)

end Registry
end WorkPriority
