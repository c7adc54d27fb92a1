import WorkPriority.Proofs.Runs

/-!
# Agents are ranked apart

What an agent is scored and ranked as is settled by its own record, and not by who
else is in the world (`Pass.ranked_apart`). All agents share one table of scores,
one set of breakdowns and one list of levels, but each has its own place in them:
the row of an agent is made of its own scores alone (`ScoreTable.row?_ofRules`), and
its levels are handed out one after the other, with none in between that is not its
own (`Pass.filter_assignments`).

Of the rest of the world a rule reads the zones: a filter may ask where an agent is,
and so may a look-up.
-/

namespace WorkPriority

/-! ### What is read of a world -/

section Zones

variable {v w : World} (h : v.zones = w.zones)

include h

theorem World.zone?_congr : v.zone? = w.zone? := by
  funext id
  rw [zone?, zone?, h]

theorem ZoneKey.resolve_congr (zone : Option ZoneId) : resolve v zone = resolve w zone := by
  rw [resolve, resolve, World.zone?_congr h]

theorem Candidate.hasFlag_congr (c : Candidate) (f : Flag) : c.hasFlag v f = c.hasFlag w f := by
  cases f with
  | outdoors => rw [hasFlag, hasFlag, ZoneKey.resolve_congr h]
  | _ => rfl

theorem Tag.isTrueOf_congr (c : Candidate) (t : Tag) : t.isTrueOf v c = t.isTrueOf w c := by
  induction t with
  | not t ih => rw [isTrueOf, isTrueOf, ih]
  | flag f => exact c.hasFlag_congr h f
  | zone k => rw [isTrueOf, isTrueOf, World.zone?_congr h]
  | _ => rfl

theorem groupHolds_congr (c : Candidate) (group : List Tag) :
    groupHolds v c group = groupHolds w c group := by
  have hholds : Tag.holds v c = Tag.holds w c := by
    funext t
    rw [Tag.holds, Tag.holds, t.isTrueOf_congr h]
  rw [groupHolds, groupHolds, hholds]

theorem Filter.admits_congr (c : Candidate) (f : Filter) : f.admits v c = f.admits w c := by
  have hgroups : groupHolds v c = groupHolds w c := funext (groupHolds_congr h c)
  rw [admits, admits, includesCandidate, includesCandidate, hgroups]

theorem Rule.passesGates_congr (q : Rule) (a : Agent) : q.passesGates v a = q.passesGates w a := by
  have hadmits : (fun f : Filter => f.admits v (.agent a)) = fun f => f.admits w (.agent a) :=
    funext (Filter.admits_congr h (.agent a))
  rw [passesGates, passesGates, hadmits]

end Zones

/-- What rules read about an agent is the same: all but the world, of which it is the
    zones. -/
structure Context.SameZones (c d : Context) : Prop where
  zones : c.world.zones = d.world.zones
  signals : c.signals = d.signals
  neutralScore : c.neutralScore = d.neutralScore
  modifiers : c.modifiers = d.modifiers

/-- Then every rule gives an agent the same score. -/
theorem Context.SameZones.scoreOrZero {c d : Context} (h : c.SameZones d) (q : Rule) (a : Agent) :
    q.scoreOrZero c a = q.scoreOrZero d a := by
  refine Rule.scoreOrZero_congr (q.passesGates_congr h.zones a) h.neutralScore ?_ ?_
  · intro name mode _
    rw [resolve?, resolve?, h.signals, ZoneKey.resolve_congr h.zones]
  · intro key ranges _
    rw [h.modifiers]

/-! ### Rows of scores -/

namespace ScoreTable

/-- A row with the scores of rules set, one after the other. -/
def scoredRow (score : Rule → RuleScore) (rules : List Rule) (row : Option ScoreRow) :
    Option ScoreRow :=
  rules.foldl (fun row r => some ((row.getD .empty).set r.name (score r))) row

theorem row?_foldl_set (t : ScoreTable) (b : AgentId) (score : Rule → RuleScore)
    (rules : List Rule) (id : AgentId) :
    (rules.foldl (fun t r => t.set b r.name (score r)) t).row? id =
      if b = id then scoredRow score rules (t.row? id) else t.row? id := by
  induction rules generalizing t with
  | nil =>
    split
    · rfl
    · rfl
  | cons r rules ih =>
    rw [List.foldl_cons, ih, row?_set]
    split
    · rename_i hb
      rw [hb]
      rfl
    · rfl

/-- The table with the scores of one agent by some rules. -/
def addAgent (c : Context) (rules : List Rule) (t : ScoreTable) (a : Agent) : ScoreTable :=
  rules.foldl (fun t r => t.set a.id r.name (r.scoreOrZero c a)) t

/-- Scoring an agent leaves the rows of others alone. -/
theorem row?_addAgent (c : Context) (rules : List Rule) (t : ScoreTable) (a : Agent)
    (id : AgentId) : (addAgent c rules t a).row? id =
      if a.id = id then scoredRow (fun r => r.scoreOrZero c a) rules (t.row? id) else t.row? id :=
  row?_foldl_set ..

theorem row?_foldl_addAgent_of_absent {c : Context} {rules : List Rule} {agents : List Agent}
    {id : AgentId} (h : ∀ b ∈ agents, b.id ≠ id) (t : ScoreTable) :
    (agents.foldl (addAgent c rules) t).row? id = t.row? id := by
  induction agents generalizing t with
  | nil => rfl
  | cons b agents ih =>
    rw [List.foldl_cons, ih fun b hb => h b (List.mem_cons_of_mem _ hb), row?_addAgent,
      if_neg (h b List.mem_cons_self)]

theorem row?_foldl_addAgent_of_mem {c : Context} {rules : List Rule} {agents : List Agent}
    (hd : (agents.map (·.id)).Nodup) {a : Agent} (ha : a ∈ agents) (t : ScoreTable) :
    (agents.foldl (addAgent c rules) t).row? a.id =
      scoredRow (fun r => r.scoreOrZero c a) rules (t.row? a.id) := by
  induction agents generalizing t with
  | nil => exact absurd ha List.not_mem_nil
  | cons b agents ih =>
    rw [List.map_cons, List.nodup_cons] at hd
    rw [List.foldl_cons]
    rcases List.mem_cons.1 ha with rfl | hmem
    · have hlater : ∀ b ∈ agents, b.id ≠ a.id := fun b hb he => hd.1 (he ▸ List.mem_map_of_mem hb)
      rw [row?_foldl_addAgent_of_absent hlater, row?_addAgent, if_pos rfl]
    · have hne : b.id ≠ a.id := fun he => hd.1 (he ▸ List.mem_map_of_mem hmem)
      rw [ih hd.2 hmem, row?_addAgent, if_neg hne]

/-- The row of an agent is made of its own scores. -/
theorem row?_ofRules {c : Context} (hw : c.world.DistinctAgents) (rules : List Rule) {a : Agent}
    (ha : a ∈ c.world.agents) :
    (ofRules c rules).row? a.id = scoredRow (fun r => r.scoreOrZero c a) rules none :=
  row?_foldl_addAgent_of_mem hw ha _

end ScoreTable

/-! ### Levels handed out -/

namespace Pass

theorem agent_of_mem_assignmentsOf {b : BreakdownSet} {id : AgentId} {x : Assignment}
    (hx : x ∈ assignmentsOf b id) : x.agent = id := by
  rw [assignmentsOf] at hx
  cases h : b.agent? id with
  | none =>
    rw [h] at hx
    exact absurd hx List.not_mem_nil
  | some c =>
    rw [h] at hx
    obtain ⟨_, -, rfl⟩ := List.mem_map.1 hx
    rfl

/-- Of the levels of some agents, those of one of them. -/
theorem filter_flatMap_assignmentsOf (b : BreakdownSet) {ids : List AgentId} (hd : ids.Nodup)
    (id : AgentId) : (ids.flatMap (assignmentsOf b)).filter (·.agent = id) =
      if id ∈ ids then assignmentsOf b id else [] := by
  induction ids with
  | nil => rfl
  | cons i ids ih =>
    rw [List.nodup_cons] at hd
    rw [List.flatMap_cons, List.filter_append, ih hd.2]
    by_cases hi : i = id
    · subst hi
      have hall : (assignmentsOf b i).filter (·.agent = i) = assignmentsOf b i :=
        List.filter_eq_self.2 fun x hx => decide_eq_true (agent_of_mem_assignmentsOf hx)
      rw [hall, if_neg hd.1, List.append_nil, if_pos List.mem_cons_self]
    · have hnone : (assignmentsOf b i).filter (·.agent = id) = [] :=
        List.filter_eq_nil_iff.2 fun x hx he =>
          hi ((agent_of_mem_assignmentsOf hx).symm.trans (of_decide_eq_true he))
      rw [hnone, List.nil_append]
      simp only [List.mem_cons, Ne.symm hi, false_or]

variable (p : RankingPolicy) (scores : ScoreTable) (previous : BreakdownSet)

/-- An agent that is not paused is handed the levels of its breakdown, in order, and no
    others; a paused one is handed none. -/
theorem filter_assignments {w : World} (hw : w.DistinctAgents) {a : Agent} (ha : a ∈ w.agents) :
    (run p w scores previous).assignments.filter (·.agent = a.id) =
      if a.paused then []
      else assignmentsOf (breakdownsOf p w scores previous) a.id := by
  have hd : ((w.agents.filter fun a => !a.paused).map (·.id)).Nodup :=
    hw.sublist (List.filter_sublist.map _)
  have hmem : a.id ∈ (w.agents.filter fun a => !a.paused).map (·.id) ↔ a.paused = false := by
    rw [List.mem_map]
    constructor
    · rintro ⟨b, hb, hba⟩
      obtain ⟨hb, hp⟩ := List.mem_filter.1 hb
      rw [hw.eq_of_id hb ha hba] at hp
      simpa using hp
    · exact fun hp => ⟨a, List.mem_filter.2 ⟨ha, by simpa using hp⟩, rfl⟩
  rw [run, filter_flatMap_assignmentsOf _ hd]
  cases hp : a.paused with
  | true => rw [if_neg fun h => Bool.false_ne_true ((hmem.1 h).symm.trans hp), if_pos rfl]
  | false => rw [if_pos (hmem.2 hp), if_neg Bool.false_ne_true]

end Pass

/-! ### Two worlds -/

/-- Two worlds of one tick and with the same zones, in both of which an agent is. Who else
    is there may differ, and so may the order. -/
structure World.Share (a : Agent) (v w : World) : Prop where
  tick : v.tick = w.tick
  zones : v.zones = w.zones
  distinct : v.DistinctAgents ∧ w.DistinctAgents
  mem : a ∈ v.agents ∧ a ∈ w.agents

namespace World.Share

variable {a : Agent} {v w : World} (h : World.Share a v w)

include h

/-- The agent has the same row of scores in both worlds. -/
theorem row?_ofRules (signals : Snapshot) (neutralScore : Float) (modifiers : ModifierProvider)
    (rules : List Rule) :
    (ScoreTable.ofRules ⟨v, signals, neutralScore, modifiers⟩ rules).row? a.id =
      (ScoreTable.ofRules ⟨w, signals, neutralScore, modifiers⟩ rules).row? a.id := by
  have hsame : Context.SameZones ⟨v, signals, neutralScore, modifiers⟩
      ⟨w, signals, neutralScore, modifiers⟩ := ⟨h.zones, rfl, rfl, rfl⟩
  rw [ScoreTable.row?_ofRules h.distinct.1 rules h.mem.1,
    ScoreTable.row?_ofRules h.distinct.2 rules h.mem.2]
  simp only [hsame.scoreOrZero]

variable (p : RankingPolicy) {s t : ScoreTable} (hrow : s.row? a.id = t.row? a.id)
  {b c : BreakdownSet} (hbefore : b.agent? a.id = c.agent? a.id)

include hrow hbefore

theorem agent?_breakdownsOf : (Pass.breakdownsOf p v s b).agent? a.id =
    (Pass.breakdownsOf p w t c).agent? a.id := by
  rw [Pass.agent?_breakdownsOf_of_mem _ _ _ h.distinct.1 h.mem.1,
    Pass.agent?_breakdownsOf_of_mem _ _ _ h.distinct.2 h.mem.2, Pass.breakdownOf, Pass.breakdownOf,
    hbefore, RankingPolicy.rank, RankingPolicy.rank, hrow, h.tick]

theorem filter_assignments :
    (Pass.run p v s b).assignments.filter (·.agent = a.id) =
      (Pass.run p w t c).assignments.filter (·.agent = a.id) := by
  rw [Pass.filter_assignments _ _ _ h.distinct.1 h.mem.1,
    Pass.filter_assignments _ _ _ h.distinct.2 h.mem.2,
    Pass.assignmentsOf_congr (h.agent?_breakdownsOf p hrow hbefore)]

end World.Share

/-- An agent is in two worlds of one tick and with the same zones, with the same record
    but otherwise among arbitrary others. By the same rules, and what they look up, it
    has the same row of scores in both. And a pass over tables and breakdowns that agree
    on the agent, as those tables do, gives it the same breakdown, and hands it out the
    same levels in the same order. -/
theorem Pass.ranked_apart {a : Agent} {v w : World} (h : World.Share a v w) :
    (∀ (signals : Snapshot) (neutralScore : Float) (modifiers : ModifierProvider)
      (rules : List Rule),
      (ScoreTable.ofRules ⟨v, signals, neutralScore, modifiers⟩ rules).row? a.id =
        (ScoreTable.ofRules ⟨w, signals, neutralScore, modifiers⟩ rules).row? a.id) ∧
    ∀ (p : RankingPolicy) (s t : ScoreTable) (b c : BreakdownSet),
      s.row? a.id = t.row? a.id → b.agent? a.id = c.agent? a.id →
      (run p v s b).breakdowns.agent? a.id = (run p w t c).breakdowns.agent? a.id ∧
        (run p v s b).assignments.filter (·.agent = a.id) =
          (run p w t c).assignments.filter (·.agent = a.id) :=
  ⟨h.row?_ofRules, fun p _ _ _ _ hrow hbefore =>
    ⟨h.agent?_breakdownsOf p hrow hbefore, h.filter_assignments p hrow hbefore⟩⟩

/-- A worker is alone in one world, and in the other behind one who has a rest; only in
    the other was there a pass before. -/
theorem Pass.ranked_apart_farm :
    let v := Farm.world 5 [Farm.worker 1]
    let w := Farm.world 5 [Farm.resting 2, Farm.worker 1]
    let p : RankingPolicy := { plans := Farm.registry.plans, bonuses := [] }
    let before : BreakdownSet := { agents := .ofList [(⟨2⟩, ⟨⟨2⟩, 4, []⟩)] }
    let s := ScoreTable.ofRules ⟨v, {}, 0.0, .none⟩ Farm.registry.validRules
    let t := ScoreTable.ofRules ⟨w, {}, 0.0, .none⟩ Farm.registry.validRules
    s.row? ⟨1⟩ = t.row? ⟨1⟩ ∧
      (run p v s {}).breakdowns.agent? ⟨1⟩ = (run p w t before).breakdowns.agent? ⟨1⟩ ∧
      (run p v s {}).assignments.filter (·.agent = ⟨1⟩) =
        (run p w t before).assignments.filter (·.agent = ⟨1⟩) := by
  intro v w p before s t
  have h : World.Share (Farm.worker 1) v w :=
    ⟨rfl, rfl, ⟨(by decide : [(⟨1⟩ : AgentId)].Nodup), (by decide : [(⟨2⟩ : AgentId), ⟨1⟩].Nodup)⟩,
      List.mem_cons_self, List.mem_cons_of_mem _ List.mem_cons_self⟩
  obtain ⟨hrows, hpass⟩ := Pass.ranked_apart h
  have hrow := hrows {} 0.0 .none Farm.registry.validRules
  exact ⟨hrow, hpass p s t {} before hrow rfl⟩

end WorkPriority
