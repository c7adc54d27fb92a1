import WorkPriority.Ranking.Pass
import WorkPriority.Proofs.Plans
import WorkPriority.Proofs.Scores

/-!
# Laws of passes

What a pass makes of the scores. Ranking moves the breakdowns of categories and
gives each its place, and leaves the rest of it as it was counted
(`AgentBreakdown.category?_ofPlans`): what a total is made of depends on the
scores of the rules in the plan alone (`Plan.breakdown_congr`).

After a pass the breakdown of an agent is the one that the pass made of it, or
kept (`Pass.agent?_breakdownsOf`). The levels handed out are those of the
agents that are not paused (`Pass.mem_assignments`). Levels that do not
contradict each other are all in place once they are taken, in whatever order
(`AssignedLevels.level?_applyAll`), and who gets none keeps the row it had
(`AssignedLevels.row_applyAll`).
-/

namespace WorkPriority

/-! ### Plans -/

/-- The plans are of different categories. -/
theorem Registry.Distinct.plans {r : Registry} (hr : r.Distinct) :
    (r.plans.map (·.name)).Nodup := by
  have h : r.plans.map (·.name) = r.categories.map (·.name) := by
    rw [Registry.plans, List.map_map]
    refine List.map_congr_left fun c _ => ?_
    exact congrArg Category.name (Plan.category_ofRules r.validRules c)
  rw [h]
  exact hr.categories

/-! ### Counting -/

/-- What a total is made of depends on the scores of the rules in the plan. -/
theorem Plan.breakdown_congr {p : Plan} {s t : ScoreRow}
    (h : ∀ e ∈ p.entries, s.get? e.1 = t.get? e.1) (bonuses : List AffinityBonus) (a : Agent) :
    p.breakdown bonuses a s = p.breakdown bonuses a t := by
  have hcount : Count.ofEntries s p.entries = Count.ofEntries t p.entries := by
    refine List.foldl_ext _ _ _ fun c e he => ?_
    rw [h e he]
  rw [breakdown, breakdown, hcount]

/-! ### Ranking -/

/-- The breakdown of a category without its place: neither its rank nor its level. -/
def CategoryBreakdown.unranked (c : CategoryBreakdown) : CategoryBreakdown :=
  { c with rank := 0, level := .disabled }

theorem map_withRanks {β : Type} {f : CategoryBreakdown → β}
    (hf : ∀ c rank level, f { c with rank, level } = f c) (mode : LevelMode)
    (bs : List CategoryBreakdown) : (withRanks mode bs).map f = bs.map f := by
  rw [withRanks, List.map_map]
  have h : (f ∘ fun e : CategoryBreakdown × Nat =>
      { e.1 with rank := e.2, level := Level.atRank mode e.2 bs.length }) = f ∘ Prod.fst := by
    funext e
    exact hf _ _ _
  exact (congrArg (bs.zipIdx.map ·) h).trans (by rw [← List.map_map, List.zipIdx_map_fst])

/-- Ranking gives the breakdowns their places, and changes nothing else. -/
theorem rankBreakdowns_perm {β : Type} {f : CategoryBreakdown → β}
    (hf : ∀ c rank level, f { c with rank, level } = f c) (mode : LevelMode)
    (bs : List CategoryBreakdown) : ((rankBreakdowns mode bs).map f).Perm (bs.map f) := by
  rw [rankBreakdowns, map_withRanks hf]
  exact (List.mergeSort_perm bs _).map f

namespace AgentBreakdown

variable {plans : List Plan} (hd : (plans.map (·.name)).Nodup) (mode : LevelMode)
  (bonuses : List AffinityBonus) (tick : Nat) (a : Agent) (scores : ScoreRow)

include hd

/-- No category is ranked twice. -/
theorem nodup_categories_ofPlans :
    ((ofPlans mode plans bonuses tick a scores).categories.map (·.category)).Nodup := by
  refine (rankBreakdowns_perm (fun _ _ _ => rfl) mode _).nodup_iff.2 ?_
  rw [List.map_map]
  exact hd.sublist (List.filter_sublist.map _)

/-- The breakdown of a category is that of its plan, if the category is open to
    the agent, and has a place besides. -/
theorem category?_ofPlans (name : String) :
    ((ofPlans mode plans bonuses tick a scores).category? name).map (·.unranked) =
      (plans.find? fun p => p.isOpenTo a && p.name == name).map
        fun p => p.breakdown bonuses a scores := by
  let counted := (plans.filter fun p => p.isOpenTo a).map fun p => p.breakdown bonuses a scores
  have hperm : ((rankBreakdowns mode counted).map (·.unranked)).Perm counted := by
    have h : counted.map (·.unranked) = counted := by
      rw [List.map_map]
      exact List.map_congr_left fun p _ => rfl
    exact (rankBreakdowns_perm (fun _ _ _ => rfl) mode counted).trans (.of_eq h)
  have hnames : (counted.map (·.category)).Nodup := by
    rw [List.map_map]
    exact hd.sublist (List.filter_sublist.map _)
  calc ((ofPlans mode plans bonuses tick a scores).category? name).map (·.unranked)
      = ((rankBreakdowns mode counted).map (·.unranked)).find? fun c => c.category == name :=
        by rw [List.find?_map]; rfl
    _ = counted.find? fun c => c.category == name := Keyed.find?_perm hnames hperm name
    _ = _ := by
        rw [List.find?_map, List.find?_filter]
        simp only [Bool.decide_and, Bool.decide_eq_true]
        rfl

end AgentBreakdown

/-! ### Taking levels -/

namespace AssignedLevels

variable (l : AssignedLevels)

theorem row_apply (x : Assignment) (id : AgentId) : (l.apply x).levels.get? id =
    if x.agent = id then some (((l.levels.get? x.agent).getD .empty).set x.category x.level)
    else l.levels.get? id :=
  Keyed.get?_set ..

theorem level?_apply (x : Assignment) (id : AgentId) (category : String) :
    (l.apply x).level? id category =
      if x.agent = id ∧ x.category = category then some x.level else l.level? id category := by
  rw [level?, row_apply]
  by_cases hid : x.agent = id
  · subst hid
    simp only [if_true, true_and, Option.bind_some]
    rw [Keyed.get?_set, level?]
    cases l.levels.get? x.agent with
    | none => rfl
    | some row => rfl
  · simp only [hid, if_false, false_and]
    rfl

/-- Who is handed no level keeps its row. -/
theorem row_applyAll {as : List Assignment} {id : AgentId} (h : ∀ x ∈ as, x.agent ≠ id) :
    (l.applyAll as).levels.get? id = l.levels.get? id := by
  induction as generalizing l with
  | nil => rfl
  | cons x as ih =>
    rw [applyAll, List.foldl_cons]
    refine (ih (l.apply x) fun y hy => h y (List.mem_cons_of_mem _ hy)).trans ?_
    rw [row_apply, if_neg (h x List.mem_cons_self)]

/-- A level that is handed out is in place at the end, if no other one is handed
    out for the same agent and category. -/
theorem level?_applyAll {as : List Assignment} {x : Assignment} (hx : x ∈ as)
    (h : ∀ y ∈ as, y.agent = x.agent → y.category = x.category → y.level = x.level) :
    (l.applyAll as).level? x.agent x.category = some x.level := by
  induction as using List.reverseRecOn with
  | nil => exact absurd hx List.not_mem_nil
  | append_singleton as y ih =>
    rw [applyAll, List.foldl_append, List.foldl_cons, List.foldl_nil, level?_apply]
    split
    · rename_i hy
      rw [h y (List.mem_append_right _ (List.mem_singleton_self y)) hy.1 hy.2]
    · -- The last level is another one, so `x` has been in place before.
      rename_i hy
      refine ih ?_ fun z hz => h z (List.mem_append_left _ hz)
      rcases List.mem_append.1 hx with hx | hx
      · exact hx
      · exact absurd ⟨rfl, rfl⟩ (List.mem_singleton.1 hx ▸ hy)

end AssignedLevels

/-! ### Breakdowns after a pass -/

namespace Pass

variable (p : RankingPolicy) (w : World) (scores : ScoreTable) (previous : BreakdownSet)

theorem breakdownOf_of_paused (tick : Nat) {a : Agent} (hp : a.paused = true) :
    breakdownOf p tick scores previous a = previous.agent? a.id :=
  if_pos hp

theorem breakdownOf_of_unpaused (tick : Nat) {a : Agent} (hp : a.paused = false) :
    breakdownOf p tick scores previous a = some (p.rank tick scores a) := by
  rw [breakdownOf, hp]
  rfl

/-- After a pass an agent has the breakdown that the pass made of it, or kept. Of
    agents with one id the last counts. -/
theorem agent?_breakdownsOf (id : AgentId) :
    (breakdownsOf p w scores previous).agent? id = w.agents.reverse.findSome? fun a =>
      if a.id = id then breakdownOf p w.tick scores previous a else none := by
  rw [BreakdownSet.agent?, breakdownsOf, Keyed.get?_ofList, ← List.filterMap_reverse]
  exact Keyed.lookup_filterMap ..

theorem agent?_breakdownsOf_of_mem {w : World} (hw : w.DistinctAgents) {a : Agent}
    (ha : a ∈ w.agents) : (breakdownsOf p w scores previous).agent? a.id =
      breakdownOf p w.tick scores previous a := by
  rw [agent?_breakdownsOf, Keyed.findSome?_of_mem (List.mem_reverse.2 ha), if_pos rfl]
  intro b hb hne
  exact if_neg fun hid => hne (hw.eq_of_id (List.mem_reverse.1 hb) ha hid)

/-- Who is not in the world has no breakdown. -/
theorem agent?_breakdownsOf_of_not_mem {w : World} {id : AgentId} (hid : id ∉ w.agentIds) :
    (breakdownsOf p w scores previous).agent? id = none := by
  rw [agent?_breakdownsOf, List.findSome?_eq_none_iff]
  intro a ha
  refine if_neg fun h => hid ?_
  rw [← h]
  exact World.mem_agentIds (List.mem_reverse.1 ha)

theorem assignmentsOf_congr {b c : BreakdownSet} {id : AgentId} (h : b.agent? id = c.agent? id) :
    assignmentsOf b id = assignmentsOf c id := by
  rw [assignmentsOf, assignmentsOf, h]

/-- The levels handed out are those of the categories of agents that are not paused. -/
theorem mem_assignments (x : Assignment) : x ∈ (run p w scores previous).assignments ↔
    ∃ a ∈ w.agents, a.paused = false ∧ a.id = x.agent ∧
      ∃ b, (breakdownsOf p w scores previous).agent? a.id = some b ∧
        ∃ c ∈ b.categories, c.category = x.category ∧ c.level = x.level := by
  have hof (id : AgentId) : x ∈ assignmentsOf (breakdownsOf p w scores previous) id ↔
      id = x.agent ∧ ∃ b, (breakdownsOf p w scores previous).agent? id = some b ∧
        ∃ c ∈ b.categories, c.category = x.category ∧ c.level = x.level := by
    rw [assignmentsOf]
    cases (breakdownsOf p w scores previous).agent? id with
    | none => simp
    | some b =>
      simp only [AgentBreakdown.levels, List.map_map, List.mem_map, Function.comp_apply,
        Option.some.injEq, exists_eq_left']
      constructor
      · rintro ⟨c, hc, rfl⟩
        exact ⟨rfl, c, hc, rfl, rfl⟩
      · rintro ⟨rfl, c, hc, hcategory, hlevel⟩
        exact ⟨c, hc, by rw [hcategory, hlevel]⟩
  simp only [run, List.mem_flatMap, List.mem_map, List.mem_filter, hof]
  constructor
  · rintro ⟨_, ⟨a, ⟨ha, hp⟩, rfl⟩, hx⟩
    exact ⟨a, ha, by simpa using hp, hx⟩
  · rintro ⟨a, ha, hp, hx⟩
    exact ⟨a.id, ⟨a, ⟨ha, by simpa using hp⟩, rfl⟩, hx⟩

end Pass
end WorkPriority
