import WorkPriority.Proofs.FirstEntry
import WorkPriority.Proofs.NothingLost

/-!
# Definitions and the documents that spell them out

A registry is made of a document, or of definitions that are not written down. A
document may *spell out* definitions: each of its entries says all of one
(`Registry.Spells`). Both ways then file the same, with one exception. It is the
entry of a rule that is looked at for a blank name, and not the rule. So a rule
with a blank name is left out of the registry of the document, where that is an
issue, but it is stored in the registry of the definitions.

The registry of a document is hence that of the definitions without those rules,
besides their issues, and it is that of the definitions themselves if there are no
such rules (`Registry.spelled_out`).
-/

namespace WorkPriority

/-! ### What is found wrong -/

namespace Filing

variable {α : Type} {kind : EntryKind} {name : α → String}

/-- What is wrong with an entry, whatever its name was given to. -/
def faults : Filing α → List DefinitionIssue
  | define _ flaws lacks => flaws ++ lacks
  | decline _ flaws => flaws

/-- What is reported of a filing is wrong with it, or its name is taken. -/
theorem mem_report {l : Ledger α} {f : Filing α} {i : DefinitionIssue}
    (h : i ∈ f.report kind name l) : i ∈ f.faults ∨ ∃ n, i = .duplicateName kind n := by
  cases f with
  | define a flaws lacks =>
    rw [report, List.mem_append] at h
    rw [faults, List.mem_append]
    split at h
    · exact h.imp .inl fun h => ⟨_, List.mem_singleton.1 h⟩
    · exact .inl h
  | decline n flaws =>
    cases n with
    | none => exact .inl h
    | some n =>
      rw [report, List.mem_append] at h
      split at h
      · exact h.imp id fun h => ⟨_, List.mem_singleton.1 h⟩
      · exact h.imp id fun h => absurd h List.not_mem_nil

/-- What is wrong with no filing, and is not that a name is taken, is not reported. -/
theorem not_mem_reports {l : Ledger α} {fs : List (Filing α)} {i : DefinitionIssue}
    (hi : ∀ n, i ≠ .duplicateName kind n) (hfs : ∀ f ∈ fs, i ∉ f.faults) :
    i ∉ reports kind name l fs := by
  induction fs generalizing l with
  | nil => exact List.not_mem_nil
  | cons f fs ih =>
    obtain ⟨hf, hfs⟩ := List.forall_mem_cons.1 hfs
    rw [reports, List.mem_append, not_or]
    refine ⟨fun h => ?_, ih hfs⟩
    rcases mem_report h with h | ⟨n, hn⟩
    · exact hf h
    · exact hi n hn

end Filing

namespace Registry

/-- The issue of the entry of a rule that has no name. -/
abbrev nameless : DefinitionIssue := .missingField .rule unnamed "name"

/-- It is not found in checking rules. -/
theorem nameless_not_mem_ruleIssues (r : Registry) (q : Rule) : nameless ∉ r.ruleIssues q := by
  rw [ruleIssues, List.mem_append, List.mem_append, not_or, not_or]
  refine ⟨⟨?_, ?_⟩, ?_⟩
  · rw [targetIssues]
    split <;> simp
  · rw [List.mem_flatMap]
    rintro ⟨c, -, hc⟩
    cases c with
    | gate f => exact List.not_mem_nil hc
    | lookup signal mode => simp [blankIssues] at hc
    | modifier key ranges => simp [blankIssues] at hc
  · rw [List.mem_flatMap]
    rintro ⟨⟨signal, mode⟩, -, h⟩
    simp only [lookupIssues] at h
    repeat' split at h
    all_goals simp at h

theorem nameless_not_mem_filing (r : Registry) (q : Rule) :
    nameless ∉ (q.filing r []).faults := by
  rw [Rule.filing, Filing.faults, List.nil_append, List.append_nil]
  exact nameless_not_mem_ruleIssues r q

/-- Nor is it an issue with entries of another kind. -/
theorem nameless_not_mem_named {α : Type} {kind : EntryKind} (hkind : kind ≠ .rule) {n : String}
    {f : Filing α} (hf : nameless ∉ f.faults) : nameless ∉ (Filing.named kind n f).faults := by
  rw [Filing.named]
  split
  · intro h
    exact hkind (DefinitionIssue.missingField.inj (List.mem_singleton.1 h)).1.symm
  · exact hf

theorem nameless_not_mem_issues (signals : List Signal) (rules : List Rule)
    (categories : List Category) (bonuses : List AffinityBonus) :
    nameless ∉ (ofParts signals rules categories bonuses).issues := by
  have hissues : (ofParts signals rules categories bonuses).issues =
      (Filings.ofParts signals rules categories bonuses).issues :=
    congrArg Registry.issues (ofParts_eq signals rules categories bonuses)
  rw [hissues]
  simp only [Filings.issues, Filings.ofParts, List.mem_append, not_or]
  refine ⟨⟨⟨⟨List.not_mem_nil, ?_⟩, ?_⟩, ?_⟩, ?_⟩
  · refine Filing.not_mem_reports (by simp) (List.forall_mem_map.2 fun c _ => ?_)
    rw [Category.filing]
    exact nameless_not_mem_named (by decide) List.not_mem_nil
  · refine Filing.not_mem_reports (by simp) (List.forall_mem_map.2 fun b _ => ?_)
    rw [AffinityBonus.filing]
    exact nameless_not_mem_named (by decide) List.not_mem_nil
  · refine Filing.not_mem_reports (by simp) (List.forall_mem_map.2 fun s _ => ?_)
    rw [Signal.filing]
    refine nameless_not_mem_named (by decide) ?_
    cases hs : s.source.missingField? <;> simp [Filing.faults]
  · refine Filing.not_mem_reports (by simp) (List.forall_mem_map.2 fun q _ => ?_)
    exact nameless_not_mem_filing _ q

/-! ### Documents that spell out definitions -/

end Registry

/-- The rule that an entry spells out: of its intervals nothing is wrong. -/
def Rule.spelled? (v : Value) : Option Rule :=
  (RuleEntry.ofValue? v).bind fun e => if e.complete.2.isEmpty then some e.complete.1 else none

namespace Registry

/-- The entries of a document spell out definitions, all of them and in their order. -/
structure Spells (d : Document) (signals : List Signal) (rules : List Rule)
    (categories : List Category) (bonuses : List AffinityBonus) : Prop where
  signals : d.signals.map Signal.defined? = signals.map some
  rules : d.rules.map Rule.spelled? = rules.map some
  categories : d.categories.map Category.ofValue? = categories.map some
  bonuses : d.bonuses.map AffinityBonus.defined? = bonuses.map some

section Kind

variable {α β : Type} {read? : Value → Option β} {defined? : Value → Option α} {vs : List Value}
  {as : List α} (h : vs.map defined? = as.map some)

include h

/-- Entries that spell out definitions are filed as these are. -/
theorem map_readEntries {file : ReadEntry β → Filing α} {filing : α → Filing α}
    (hfile : ∀ v a, defined? v = some a → file (readEntry read? v) = filing a) :
    (readEntries read? vs).map file = as.map filing := by
  induction vs generalizing as with
  | nil =>
    cases as with
    | nil => rfl
    | cons a as => cases h
  | cons v vs ih =>
    cases as with
    | nil => cases h
    | cons a as =>
      obtain ⟨hv, hvs⟩ := List.cons.inj h
      exact congrArg₂ List.cons (hfile v a hv) (ih hvs)

/-- Entries that spell out definitions are of the form of their kind. -/
theorem malformed_readEntries (kind : EntryKind) (read? : Value → Option β)
    (hread : ∀ v a, defined? v = some a → ∃ b, read? v = some b) :
    malformed kind (readEntries read? vs) = [] := by
  rw [malformed_eq_nil_iff, readEntries, List.forall_mem_map]
  intro v hv
  have hdef : defined? v ∈ as.map some := h ▸ List.mem_map_of_mem hv
  obtain ⟨a, -, ha⟩ := List.mem_map.1 hdef
  obtain ⟨b, hb⟩ := hread v a ha.symm
  exact ⟨b, by rw [readEntry, hb]⟩

end Kind

/-! ### Rules with and without names -/

/-- The rules of a list that have names. -/
def namedRules (rules : List Rule) : List Rule := rules.filter fun q => !Text.isBlankText q.name

/-- How many rules of a list have no names. -/
def blankCount (rules : List Rule) : Nat := rules.countP fun q => Text.isBlankText q.name

/-- The filing of a rule that is spelled out by an entry, which has to have a name. -/
def namedFiling (r : Registry) (q : Rule) : Filing Rule := .named .rule q.name (q.filing r [])

section Named

variable {r : Registry} {q : Rule} {rules : List Rule}

theorem namedRules_cons_of_blank (h : Text.isBlankText q.name = true) :
    namedRules (q :: rules) = namedRules rules := by
  simp [namedRules, h]

theorem namedRules_cons_of_named (h : ¬Text.isBlankText q.name = true) :
    namedRules (q :: rules) = q :: namedRules rules := by
  simp [namedRules, h]

theorem blankCount_cons_of_blank (h : Text.isBlankText q.name = true) :
    blankCount (q :: rules) = blankCount rules + 1 :=
  List.countP_cons_of_pos h

theorem blankCount_cons_of_named (h : ¬Text.isBlankText q.name = true) :
    blankCount (q :: rules) = blankCount rules :=
  List.countP_cons_of_neg h

theorem namedFiling_of_blank (h : Text.isBlankText q.name = true) :
    namedFiling r q = .decline none [nameless] :=
  if_pos h

theorem namedFiling_of_named (h : ¬Text.isBlankText q.name = true) :
    namedFiling r q = q.filing r [] :=
  if_neg h

/-- Rules without names bid for nothing. -/
theorem grantAll_namedFiling (r : Registry) (rules : List Rule) (l : Ledger Rule) :
    l.grantAll Rule.name ((rules.map (namedFiling r)).map Filing.bid) =
      l.grantAll Rule.name (((namedRules rules).map fun q => q.filing r []).map Filing.bid) := by
  induction rules generalizing l with
  | nil => rfl
  | cons q rules ih =>
    rw [List.map_cons, List.map_cons, Ledger.grantAll_cons, ih]
    by_cases hq : Text.isBlankText q.name = true
    · rw [namedFiling_of_blank hq, namedRules_cons_of_blank hq]
      rfl
    · rw [namedFiling_of_named hq, namedRules_cons_of_named hq]
      rfl

/-- Of rules without names just that is reported. -/
theorem reports_namedFiling (r : Registry) (rules : List Rule) (l : Ledger Rule) :
    (Filing.reports .rule Rule.name l (rules.map (namedFiling r))).filter (· ≠ nameless) =
        Filing.reports .rule Rule.name l ((namedRules rules).map fun q => q.filing r []) ∧
      (Filing.reports .rule Rule.name l (rules.map (namedFiling r))).count nameless =
        blankCount rules := by
  induction rules generalizing l with
  | nil => exact ⟨rfl, rfl⟩
  | cons q rules ih =>
    obtain ⟨hfilter, hcount⟩ := ih (l.grant Rule.name (namedFiling r q).bid)
    rw [List.map_cons, Filing.reports, List.filter_append, List.count_append, hfilter, hcount]
    by_cases hq : Text.isBlankText q.name = true
    · rw [namedFiling_of_blank hq, namedRules_cons_of_blank hq, blankCount_cons_of_blank hq]
      exact ⟨rfl, Nat.add_comm 1 _⟩
    · have hnone : nameless ∉ (q.filing r []).report .rule Rule.name l := by
        intro h
        rcases Filing.mem_report h with h | ⟨n, hn⟩
        · exact nameless_not_mem_filing r q h
        · cases hn
      rw [namedFiling_of_named hq, namedRules_cons_of_named hq, blankCount_cons_of_named hq,
        List.count_eq_zero_of_not_mem hnone, Nat.zero_add, List.filter_eq_self.2]
      · exact ⟨rfl, rfl⟩
      · intro i hi
        exact decide_eq_true fun h => hnone (h ▸ hi)

end Named

section Spelled

variable {d : Document} {signals : List Signal} {rules : List Rule} {categories : List Category}
  {bonuses : List AffinityBonus}

theorem Spells.map_categoryFiling (h : Spells d signals rules categories bonuses) :
    (readEntries Category.ofValue? d.categories).map categoryFiling =
      categories.map Category.filing :=
  map_readEntries h.categories fun v c hc => by rw [readEntry, hc]; rfl

theorem Spells.map_bonusFiling (h : Spells d signals rules categories bonuses) :
    (readEntries BonusEntry.ofValue? d.bonuses).map bonusFiling =
      bonuses.map AffinityBonus.filing := by
  refine map_readEntries h.bonuses fun v b hb => ?_
  obtain ⟨e, he, hb⟩ := Option.bind_eq_some_iff.1 hb
  obtain ⟨passion, hpassion, hb⟩ := Option.bind_eq_some_iff.1 hb
  obtain ⟨score, hscore, hb⟩ := Option.bind_eq_some_iff.1 hb
  obtain rfl := Option.some.inj hb
  rw [readEntry, he, bonusFiling, BonusEntry.filing, hpassion, hscore]

theorem Spells.map_signalFiling (h : Spells d signals rules categories bonuses) :
    (readEntries SignalEntry.ofValue? d.signals).map signalFiling =
      signals.map Signal.filing := by
  refine map_readEntries h.signals fun v s hs => ?_
  obtain ⟨e, he, hs⟩ := Option.bind_eq_some_iff.1 hs
  rw [readEntry, he, signalFiling, SignalEntry.filing, hs]

/-- Of the intervals of the rules nothing is wrong, so only their names are looked at
    besides what is looked at in the rules themselves. -/
theorem Spells.map_ruleFiling (h : Spells d signals rules categories bonuses) (r : Registry) :
    (readEntries RuleEntry.ofValue? d.rules).map (ruleFiling r) = rules.map (namedFiling r) := by
  refine map_readEntries h.rules fun v q hq => ?_
  obtain ⟨e, he, hq⟩ := Option.bind_eq_some_iff.1 hq
  split at hq
  · rename_i hflaws
    obtain rfl := Option.some.inj hq
    rw [readEntry, he, ruleFiling, RuleEntry.filing, List.isEmpty_iff.1 hflaws]
    rfl
  · cases hq

/-- All entries of the document are read. -/
theorem Spells.unread_eq_nil (h : Spells d signals rules categories bonuses) :
    (Filings.ofDocument d).unread = [] := by
  have hc := malformed_readEntries h.categories .category Category.ofValue?
    fun v c hc => ⟨c, hc⟩
  have hb := malformed_readEntries h.bonuses .affinityBonus BonusEntry.ofValue?
    fun v b hb => (Option.bind_eq_some_iff.1 hb).imp fun _ => And.left
  have hs := malformed_readEntries h.signals .signal SignalEntry.ofValue?
    fun v s hs => (Option.bind_eq_some_iff.1 hs).imp fun _ => And.left
  have hr := malformed_readEntries h.rules .rule RuleEntry.ofValue?
    fun v q hq => (Option.bind_eq_some_iff.1 hq).imp fun _ => And.left
  simp only [Filings.ofDocument, hc, hb, hs, hr, List.append_nil]

/-- A document files what the definitions file that it spells out. But its rules have
    to have names. -/
theorem Spells.filings (h : Spells d signals rules categories bonuses) :
    Filings.ofDocument d =
      { Filings.ofParts signals rules categories bonuses with
        rules := rules.map (namedFiling
          (checkedAgainst (categories.map Category.filing) (signals.map Signal.filing))) } := by
  rw [Filings.ofParts, ← h.unread_eq_nil]
  simp only [Filings.ofDocument, h.map_categoryFiling, h.map_bonusFiling, h.map_signalFiling,
    h.map_ruleFiling]

/-- The registry of a document that spells out definitions is that of those
    definitions without the rules that have no names, besides the issues. -/
theorem Spells.ofDocument_eq_with_issues (h : Spells d signals rules categories bonuses) :
    ofDocument d = { ofParts signals (namedRules rules) categories bonuses with
      issues := (ofDocument d).issues } := by
  rw [ofDocument_eq, h.filings, ofParts_eq, Filings.registry, Filings.registry]
  have hbook := grantAll_namedFiling (checkedAgainst (categories.map Category.filing)
    (signals.map Signal.filing)) rules {}
  simp only [Filing.book, Filings.ofParts, hbook]
  rfl

/-- And so are the issues, besides those of the rules that have no names. -/
theorem Spells.issues (h : Spells d signals rules categories bonuses) :
    (ofDocument d).issues.filter (· ≠ nameless) =
        (ofParts signals (namedRules rules) categories bonuses).issues ∧
      (ofDocument d).issues.count nameless = blankCount rules := by
  have hnone := nameless_not_mem_issues signals (namedRules rules) categories bonuses
  rw [ofParts_eq] at hnone ⊢
  rw [ofDocument_eq, h.filings]
  obtain ⟨hfilter, hcount⟩ := reports_namedFiling (checkedAgainst
    (categories.map Category.filing) (signals.map Signal.filing)) rules {}
  -- Of other kinds the same is reported, and the issue is not among that.
  simp only [Filings.registry, ofLedgers, Filings.issues, Filings.ofParts,
    List.nil_append] at hnone ⊢
  rw [List.mem_append, not_or] at hnone
  rw [List.filter_append, List.count_append, hfilter, hcount,
    List.count_eq_zero_of_not_mem hnone.1, Nat.zero_add, List.filter_eq_self.2]
  · exact ⟨rfl, rfl⟩
  · intro i hi
    exact decide_eq_true fun h => hnone.1 (h ▸ hi)

theorem blankCount_eq_zero_iff :
    blankCount rules = 0 ↔ ∀ q ∈ rules, ¬Text.isBlankText q.name = true :=
  List.countP_eq_zero

theorem namedRules_eq_self (h : ∀ q ∈ rules, ¬Text.isBlankText q.name = true) :
    namedRules rules = rules :=
  List.filter_eq_self.2 fun q hq => by simpa using h q hq

/-- Definitions that are not written down are stored under their names, be these blank. -/
theorem rule?_ofParts (signals : List Signal) (categories : List Category)
    (bonuses : List AffinityBonus) {q : Rule} (hq : q ∈ rules) :
    ∃ p, (ofParts signals rules categories bonuses).rule? q.name = some p := by
  have hr : (ofParts signals rules categories bonuses).Distinct := (Loaded.ofParts ..).distinct
  let c := checkedAgainst (categories.map Category.filing) (signals.map Signal.filing)
  let bs := (rules.map fun q => q.filing c []).map Filing.bid
  have htaken : (({} : Ledger Rule).grantAll Rule.name bs).taken q.name = true := by
    rw [Ledger.taken_grantAll]
    exact .inr ⟨_, List.mem_map_of_mem (List.mem_map_of_mem hq), rfl⟩
  have hbids : ∀ b ∈ bs, ∃ a valid, b = .define a valid :=
    List.forall_mem_map.2 (List.forall_mem_map.2 fun p _ => ⟨p, _, rfl⟩)
  have hstored : q.name ∈ (({} : Ledger Rule).grantAll Rule.name bs).defs.map Rule.name := by
    rcases Ledger.taken_eq_true.1 htaken with h | h
    · exact ((Ledger.indexed_grantAll Ledger.indexed_empty).has_iff _).1 h
    · exact Ledger.invalid_subset_grantAll (List.nil_subset _) hbids h
  obtain ⟨p, hp, hname⟩ := List.mem_map.1 hstored
  refine ⟨p, hr.rule?_eq_some_iff.2 ⟨?_, hname⟩⟩
  rw [ofParts_eq]
  exact hp

/-- In the registry of a document there is nothing under a blank name. -/
theorem rule?_of_blank (d : Document) {name : String} (hname : Text.isBlankText name = true) :
    (ofDocument d).rule? name = none := by
  rw [← Option.not_isSome_iff_eq_none, Option.isSome_iff_exists]
  rintro ⟨p, hp⟩
  obtain ⟨hmem, rfl⟩ := (Loaded.ofDocument d).distinct.rule?_eq_some_iff.1 hp
  let c := checkedAgainst (Filings.ofDocument d).categories (Filings.ofDocument d).signals
  have hbook : (ofDocument d).rules = (({} : Ledger Rule).grantAll Rule.name
      (d.rules.map fun v => (ruleFiling c (readEntry RuleEntry.ofValue? v)).bid)).defs := by
    rw [ofDocument_eq]
    exact congrArg Ledger.defs (book_readEntries d.rules)
  have htaken : (({} : Ledger Rule).grantAll Rule.name
      (d.rules.map fun v => (ruleFiling c (readEntry RuleEntry.ofValue? v)).bid)).taken p.name =
        true := by
    rw [hbook] at hmem
    have hhas := ((Ledger.indexed_grantAll Ledger.indexed_empty).has_iff _).2
      (List.mem_map_of_mem (f := Rule.name) hmem)
    exact Ledger.taken_eq_true.2 (.inl hhas)
  rw [Ledger.taken_grantAll] at htaken
  obtain h | ⟨b, hb, hbid⟩ := htaken
  · exact absurd h Bool.false_ne_true
  obtain ⟨v, -, rfl⟩ := List.mem_map.1 hb
  exact not_blank_of_ruleBid c hbid hname

/-- A registry of a document that spells out definitions is that of those definitions
    without the rules that have no names, but there is an issue more for each of these.
    So it is the registry of the definitions just if there are no such rules. If there
    is one, then a rule is stored under its blank name in the registry of the
    definitions, and none in that of the document. -/
theorem spelled_out (h : Spells d signals rules categories bonuses) :
    let r := ofParts signals (namedRules rules) categories bonuses
    let whole := ofParts signals rules categories bonuses
    ofDocument d = { r with issues := (ofDocument d).issues } ∧
      (ofDocument d).issues.filter (· ≠ nameless) = r.issues ∧
      (ofDocument d).issues.count nameless = blankCount rules ∧
      (ofDocument d = whole ↔ ∀ q ∈ rules, ¬Text.isBlankText q.name = true) ∧
      ∀ q ∈ rules, Text.isBlankText q.name = true →
        (∃ p, whole.rule? q.name = some p) ∧ (ofDocument d).rule? q.name = none := by
  intro r whole
  obtain ⟨hfilter, hcount⟩ := h.issues
  refine ⟨h.ofDocument_eq_with_issues, hfilter, hcount, ⟨fun heq => ?_, fun hall => ?_⟩,
    fun q hq hblank => ⟨rule?_ofParts signals categories bonuses hq, rule?_of_blank d hblank⟩⟩
  · rw [← blankCount_eq_zero_iff, ← hcount, heq, List.count_eq_zero]
    exact nameless_not_mem_issues signals rules categories bonuses
  · have hnone : nameless ∉ (ofDocument d).issues := by
      rw [← List.count_eq_zero, hcount, blankCount_eq_zero_iff]
      exact hall
    have hself : (ofDocument d).issues.filter (· ≠ nameless) = (ofDocument d).issues :=
      List.filter_eq_self.2 fun i hi => decide_eq_true fun h => hnone (h ▸ hi)
    rw [h.ofDocument_eq_with_issues, ← hself, hfilter, namedRules_eq_self hall]

/-- An entry spells out a rule without a name, and another one a rule that has one. -/
theorem spelled_out_stew :
    let v (name : String) : Value := .table [("name", .text name),
      ("targets", .list [.table [("category", .text "Cooking")]])]
    let q (name : String) : Rule := { name, targets := [.category "Cooking"] }
    let d : Document :=
      { rules := [v "", v "stew"], categories := [.table [("name", .text "Cooking")]] }
    let whole := ofParts [] [q "", q "stew"] [{ name := "Cooking" }] []
    Spells d [] [q "", q "stew"] [{ name := "Cooking" }] [] ∧
      (ofDocument d).issues.count nameless = 1 ∧
      (ofDocument d).rule? "" = none ∧ (∃ p, whole.rule? "" = some p) ∧ ofDocument d ≠ whole := by
  intro v q d whole
  have h : Spells d [] [q "", q "stew"] [{ name := "Cooking" }] [] := ⟨rfl, rfl, rfl, rfl⟩
  obtain ⟨-, -, hcount, heq, hblank⟩ := spelled_out h
  have hq : Text.isBlankText (q "").name = true := by decide
  obtain ⟨hstored, hnone⟩ := hblank (q "") List.mem_cons_self hq
  have hone : blankCount [q "", q "stew"] = 1 := by decide
  exact ⟨h, hcount.trans hone, hnone, hstored, fun h => heq.1 h (q "") List.mem_cons_self hq⟩

/-- So the two ways do not come to the same for a rule without a name. -/
theorem parts_differ_from_document :
    let v : Value := .table [("name", .text ""),
      ("targets", .list [.table [("category", .text "Cooking")]])]
    let q : Rule := { name := "", targets := [.category "Cooking"] }
    let d : Document := { rules := [v], categories := [.table [("name", .text "Cooking")]] }
    let r := ofParts [] [q] [{ name := "Cooking" }] []
    Spells d [] [q] [{ name := "Cooking" }] [] ∧
      (r.issues = [] ∧ r.isValidRule "" = true) ∧
      (ofDocument d).issues = [nameless] ∧ (ofDocument d).isValidRule "" = false := by
  intro v q d r
  exact ⟨⟨rfl, rfl, rfl, rfl⟩, ⟨rfl, rfl⟩, rfl, rfl⟩

end Spelled

end Registry
end WorkPriority
