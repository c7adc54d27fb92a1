import WorkPriority.Rule.Evaluation
import WorkPriority.Proofs.Tables
import Mathlib.Data.List.Induction

/-!
# Laws of scores

What a score depends on, which is what the conditions of the rule read and no more
(`Rule.scoreOrZero_congr`), and what a table of scores says after it was made of
rules, and after another was laid over it. Scores are found by the id of an agent
and the name of a rule; of agents with one id, as of rules with one name, the last
counts (`ScoreTable.get?_ofRules`). Laying one table over another replaces single
scores, never rows (`ScoreTable.get?_merge`).
-/

namespace WorkPriority

/-- The ids of the agents. -/
def World.agentIds (w : World) : List AgentId := w.agents.map (·.id)

/-- No two agents share an id. -/
def World.DistinctAgents (w : World) : Prop := w.agentIds.Nodup

theorem World.DistinctAgents.eq_of_id {w : World} (hw : w.DistinctAgents) {a b : Agent}
    (ha : a ∈ w.agents) (hb : b ∈ w.agents) (h : a.id = b.id) : a = b :=
  List.inj_on_of_nodup_map hw ha hb h

theorem World.mem_agentIds {w : World} {a : Agent} (ha : a ∈ w.agents) : a.id ∈ w.agentIds :=
  List.mem_map_of_mem ha

/-! ### Scoring one agent -/

theorem foldlM_congr {α β ε : Type} {f g : β → α → Except ε β} {xs : List α}
    (h : ∀ b, ∀ a ∈ xs, f b a = g b a) (b : β) : xs.foldlM f b = xs.foldlM g b := by
  induction xs generalizing b with
  | nil => rfl
  | cons a xs ih =>
    rw [List.foldlM_cons, List.foldlM_cons, h b a List.mem_cons_self]
    refine congrArg _ (funext fun c => ?_)
    exact ih (fun b a ha => h b a (List.mem_cons_of_mem _ ha)) c

/-- The score of a rule depends on nothing but what its conditions read. -/
theorem Rule.scoreOrZero_congr {c d : Context} {q : Rule} {a : Agent}
    (hgates : q.passesGates c.world a = q.passesGates d.world a)
    (hneutral : c.neutralScore = d.neutralScore)
    (hresolve : ∀ name mode, Condition.lookup name mode ∈ q.conditions →
      c.resolve? name mode a = d.resolve? name mode a)
    (hmodifiers : ∀ key ranges, Condition.modifier key ranges ∈ q.conditions →
      c.modifiers.lookup a key = d.modifiers.lookup a key) :
    q.scoreOrZero c a = q.scoreOrZero d a := by
  have hstep : ∀ t, ∀ k ∈ q.conditions, q.step c a t k = q.step d a t k := by
    intro t k hk
    cases k with
    | gate f => rfl
    | lookup name mode => rw [step, step, hresolve name mode hk]
    | modifier key ranges => rw [step, step, hmodifiers key ranges hk]
  have hstart : q.start c = q.start d := by rw [start, start, hneutral]
  rw [scoreOrZero, scoreOrZero, scoreFor, scoreFor, hgates, hstart, foldlM_congr hstep]

namespace ScoreTable

/-- No agent has two rows, and no rule has two scores in a row. -/
structure Distinct (t : ScoreTable) : Prop where
  agents : t.rows.Distinct
  rules : ∀ e ∈ t.rows.entries, e.2.Distinct

theorem get?_row (t : ScoreTable) (id : AgentId) (rule : String) :
    ((t.row? id).getD .empty).get? rule = t.get? id rule := by
  rw [get?]
  cases t.row? id with
  | none => rfl
  | some row => rfl

theorem Distinct.row {t : ScoreTable} (ht : t.Distinct) (id : AgentId) :
    ((t.row? id).getD .empty).Distinct := by
  cases h : t.row? id with
  | none => exact Keyed.distinct_empty
  | some row => exact ht.rules _ (Keyed.mem_of_lookup h)

/-! ### Setting scores -/

theorem row?_set (t : ScoreTable) (id id' : AgentId) (rule : String) (s : RuleScore) :
    (t.set id rule s).row? id' =
      if id = id' then some (((t.row? id).getD .empty).set rule s) else t.row? id' :=
  Keyed.get?_set ..

theorem get?_set (t : ScoreTable) (id id' : AgentId) (rule rule' : String) (s : RuleScore) :
    (t.set id rule s).get? id' rule' =
      if id = id' ∧ rule = rule' then some s else t.get? id' rule' := by
  rw [get?, row?_set]
  by_cases hid : id = id'
  · subst hid
    simp only [if_true, true_and, Option.bind_some]
    rw [Keyed.get?_set, get?_row]
  · simp only [hid, if_false, false_and]
    rfl

theorem Distinct.set {t : ScoreTable} (ht : t.Distinct) (id : AgentId) (rule : String)
    (s : RuleScore) : (t.set id rule s).Distinct := by
  refine ⟨Keyed.distinct_set ht.agents _ _, fun e he => ?_⟩
  rcases Keyed.mem_insert he with rfl | he
  · exact Keyed.distinct_set (ht.row id) rule s
  · exact ht.rules e he

/-! ### Laying tables over each other -/

theorem get?_setRow (t : ScoreTable) (id id' : AgentId) {row : ScoreRow} (hrow : row.Distinct)
    (rule : String) : (t.setRow id row).get? id' rule =
      if id = id' then (row.get? rule).or (t.get? id' rule) else t.get? id' rule := by
  have h : (t.setRow id row).row? id' =
      if id = id' then some (((t.row? id).getD .empty).setAll row.entries) else t.row? id' :=
    Keyed.get?_set ..
  rw [get?, h]
  by_cases hid : id = id'
  · subst hid
    simp only [if_true, Option.bind_some]
    rw [Keyed.get?_setAll, Keyed.lookup_reverse _ hrow, get?_row]
    rfl
  · simp only [hid, if_false]
    rfl

theorem get?_foldl_setRow (t : ScoreTable) {es : List (AgentId × ScoreRow)}
    (hd : (es.map Prod.fst).Nodup) (hrows : ∀ e ∈ es, e.2.Distinct) (id : AgentId)
    (rule : String) : (es.foldl (fun t e => t.setRow e.1 e.2) t).get? id rule =
      ((Keyed.lookup id es).bind (·.get? rule)).or (t.get? id rule) := by
  induction es generalizing t with
  | nil => rfl
  | cons e es ih =>
    obtain ⟨j, row⟩ := e
    rw [List.map_cons, List.nodup_cons] at hd
    rw [List.foldl_cons, ih _ hd.2 fun e he => hrows e (List.mem_cons_of_mem _ he),
      get?_setRow _ _ _ (hrows _ List.mem_cons_self)]
    by_cases hj : j = id
    · -- The other rows are those of other agents.
      have hnone : Keyed.lookup id es = none := (Keyed.lookup_eq_none_iff id es).2 (hj ▸ hd.1)
      simp [Keyed.lookup, hj, hnone]
    · simp [Keyed.lookup, hj]

/-- What a table has no score for keeps the score that it had. -/
theorem get?_merge (t : ScoreTable) {updates : ScoreTable} (hd : updates.Distinct) (id : AgentId)
    (rule : String) :
    (t.merge updates).get? id rule = (updates.get? id rule).or (t.get? id rule) :=
  get?_foldl_setRow _ hd.agents hd.rules id rule

theorem tick_merge (t updates : ScoreTable) : (t.merge updates).tick = updates.tick := by
  have h (es : List (AgentId × ScoreRow)) (t : ScoreTable) :
      (es.foldl (fun t e => t.setRow e.1 e.2) t).tick = t.tick := by
    induction es generalizing t with
    | nil => rfl
    | cons e es ih => exact ih (t.setRow e.1 e.2)
  exact h _ _

/-! ### Scoring by rules -/

theorem get?_foldl_set (t : ScoreTable) (a : AgentId) (score : Rule → RuleScore)
    (rules : List Rule) (id : AgentId) (name : String) :
    (rules.foldl (fun t r => t.set a r.name (score r)) t).get? id name =
      if a = id then
        ((rules.reverse.find? fun r => r.name == name).map score).or (t.get? id name)
      else t.get? id name := by
  induction rules using List.reverseRecOn with
  | nil => simp
  | append_singleton rules r ih =>
    rw [List.foldl_append, List.foldl_cons, List.foldl_nil, get?_set, ih, List.reverse_concat]
    by_cases ha : a = id
    · by_cases hr : r.name = name <;> simp [ha, hr]
    · simp [ha]

/-- The score of a rule for an agent is what the last rule of that name says
    about the last agent of that id. -/
theorem get?_ofRules (c : Context) (rules : List Rule) (id : AgentId) (name : String) :
    (ofRules c rules).get? id name =
      (c.world.agents.reverse.find? fun a => a.id == id).bind fun a =>
        (rules.reverse.find? fun r => r.name == name).map fun r => r.scoreOrZero c a := by
  rw [ofRules]
  induction c.world.agents using List.reverseRecOn with
  | nil => rfl
  | append_singleton agents a ih =>
    rw [List.foldl_append, List.foldl_cons, List.foldl_nil, get?_foldl_set, ih,
      List.reverse_concat]
    by_cases ha : a.id = id
    · -- An earlier agent of the id has been scored by the same rules.
      cases hr : rules.reverse.find? fun r => r.name == name with
      | none => simp [ha]
      | some r => simp [ha]
    · simp [ha]

/-- A rule scores the last agent of every id. -/
theorem exists_get?_ofRules {c : Context} {rules : List Rule}
    (hd : (rules.map (·.name)).Nodup) {a : Agent} (ha : a ∈ c.world.agents) {r : Rule}
    (hr : r ∈ rules) : ∃ b, (c.world.agents.reverse.find? fun b => b.id == a.id) = some b ∧
      (ofRules c rules).get? a.id r.name = some (r.scoreOrZero c b) := by
  have hsome : (c.world.agents.reverse.find? fun b => b.id == a.id).isSome = true :=
    List.find?_isSome.2 ⟨a, List.mem_reverse.2 ha, beq_self_eq_true _⟩
  obtain ⟨b, hb⟩ := Option.isSome_iff_exists.1 hsome
  have hrule : (rules.reverse.find? fun q => q.name == r.name) = some r :=
    Keyed.find?_reverse_of_mem (·.name) hd hr
  refine ⟨b, hb, ?_⟩
  rw [get?_ofRules, hb, hrule]
  rfl

/-- A rule scores every agent of the world, if their ids are distinct. -/
theorem get?_ofRules_of_mem {c : Context} (hw : c.world.DistinctAgents) {rules : List Rule}
    (hd : (rules.map (·.name)).Nodup) {a : Agent} (ha : a ∈ c.world.agents) {r : Rule}
    (hr : r ∈ rules) : (ofRules c rules).get? a.id r.name = some (r.scoreOrZero c a) := by
  obtain ⟨b, hb, hscore⟩ := exists_get?_ofRules hd ha hr
  have hlast : (c.world.agents.reverse.find? fun b => b.id == a.id) = some a :=
    Keyed.find?_reverse_of_mem (fun b : Agent => b.id) hw ha
  rwa [Option.some.inj (hb.symm.trans hlast)] at hscore

theorem get?_ofRules_of_absent (c : Context) (rules : List Rule) {id : AgentId}
    (hid : id ∉ c.world.agentIds) (name : String) : (ofRules c rules).get? id name = none := by
  have hnone : (c.world.agents.reverse.find? fun a => a.id == id) = none := by
    refine List.find?_eq_none.2 fun a ha he => hid ?_
    rw [← eq_of_beq he]
    exact World.mem_agentIds (List.mem_reverse.1 ha)
  rw [get?_ofRules, hnone]
  rfl

theorem get?_ofRules_of_uncovered (c : Context) {rules : List Rule} {name : String}
    (hname : ∀ r ∈ rules, r.name ≠ name) (id : AgentId) :
    (ofRules c rules).get? id name = none := by
  have hnone : (rules.reverse.find? fun r => r.name == name) = none := by
    refine List.find?_eq_none.2 fun r hr he => ?_
    exact hname r (List.mem_reverse.1 hr) (eq_of_beq he)
  rw [get?_ofRules, hnone]
  cases c.world.agents.reverse.find? fun a => a.id == id with
  | none => rfl
  | some a => rfl

theorem tick_ofRules (c : Context) (rules : List Rule) : (ofRules c rules).tick = c.world.tick := by
  have hrow (t : ScoreTable) (a : Agent) :
      (rules.foldl (fun t r => t.set a.id r.name (r.scoreOrZero c a)) t).tick = t.tick := by
    induction rules generalizing t with
    | nil => rfl
    | cons r rules ih => exact ih (t.set a.id r.name (r.scoreOrZero c a))
  have h (agents : List Agent) (t : ScoreTable) : (agents.foldl (fun t a =>
      rules.foldl (fun t r => t.set a.id r.name (r.scoreOrZero c a)) t) t).tick = t.tick := by
    induction agents generalizing t with
    | nil => rfl
    | cons a agents ih => rw [List.foldl_cons, ih, hrow]
  exact h c.world.agents _

theorem Distinct.foldl {α : Type} {f : ScoreTable → α → ScoreTable}
    (hf : ∀ t x, t.Distinct → (f t x).Distinct) {t : ScoreTable} (ht : t.Distinct)
    (xs : List α) : (xs.foldl f t).Distinct := by
  induction xs generalizing t with
  | nil => exact ht
  | cons x xs ih => exact ih (hf t x ht)

theorem distinct_ofRules (c : Context) (rules : List Rule) : (ofRules c rules).Distinct := by
  refine .foldl (fun t a ht => ?_) ?_ _
  · exact .foldl (fun t r ht => ht.set _ _ _) ht rules
  · exact ⟨Keyed.distinct_empty, fun _ he => absurd he List.not_mem_nil⟩

end ScoreTable
end WorkPriority
