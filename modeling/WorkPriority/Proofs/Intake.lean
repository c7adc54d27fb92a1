import WorkPriority.Registry
import WorkPriority.Proofs.Ledgers

/-!
# Taking entries in

Whatever the kind of an entry, it comes to a *filing*: a definition to be stored,
with what is wrong with it, or a reason why there is none, perhaps with the name
that the entry has all the same. The filings of a kind are granted in their order
by a ledger, and a filing is reported by what is wrong with it, and by its name
if that was taken.

There are many ways to add to a registry, and many of them end early. They all
are filings to one of four ledgers: the registry of a document, or of definitions
that are complete, is that of its filings (`Registry.ofDocument_eq`,
`Registry.ofParts_eq`). Whatever holds of a registry for how its entries were
taken in is read off these two equations.
-/

namespace WorkPriority

/-- What an entry comes to. -/
inductive Filing (α : Type) where
  /-- A definition. Its flaws are reported in any case, and what it lacks only if
      it is stored. -/
  | define (a : α) (flaws lacks : List DefinitionIssue)
  /-- No definition, and the name that stands for nothing then, if there is one. -/
  | decline (name : Option String) (flaws : List DefinitionIssue)

namespace Filing

variable {α : Type} {kind : EntryKind} {name : α → String}

/-- The bid for a name, where there is one. -/
def claim : Option String → Bid α
  | none => .pass
  | some n => .claim n

/-- What is asked of the ledger. A definition is valid if nothing is wrong with it. -/
def bid : Filing α → Bid α
  | define a flaws lacks => .define a (flaws ++ lacks).isEmpty
  | decline n _ => claim n

/-- Whether an entry was read: of one that was not, nothing else is found wrong. -/
def Heard (f : Filing α) : Prop := ∀ n, f ≠ decline n []

theorem heard_define (a : α) (flaws lacks : List DefinitionIssue) :
    (define a flaws lacks).Heard := by
  intro n h
  cases h

/-- What is reported of a filing. -/
def report (kind : EntryKind) (name : α → String) (l : Ledger α) : Filing α → List DefinitionIssue
  | define a flaws lacks =>
    flaws ++ if l.taken (name a) then [.duplicateName kind (name a)] else lacks
  | decline none flaws => flaws
  | decline (some n) flaws => flaws ++ if l.taken n then [.duplicateName kind n] else []

/-- The ledger after filings. -/
def book (name : α → String) (fs : List (Filing α)) : Ledger α :=
  ({} : Ledger α).grantAll name (fs.map bid)

/-- The name of a filing without a definition is looked at in the same way,
    whatever is wrong with it. -/
theorem report_decline (l : Ledger α) (n : Option String) (flaws : List DefinitionIssue) :
    (decline n flaws).report kind name l = flaws ++ (decline n []).report kind name l := by
  cases n with
  | none => exact (List.append_nil _).symm
  | some n => rfl

/-- What is reported of several filings. -/
def reports (kind : EntryKind) (name : α → String) (l : Ledger α) :
    List (Filing α) → List DefinitionIssue
  | [] => []
  | f :: fs => f.report kind name l ++ reports kind name (l.grant name f.bid) fs

theorem reports_append (l : Ledger α) (fs gs : List (Filing α)) :
    reports kind name l (fs ++ gs) =
      reports kind name l fs ++ reports kind name (l.grantAll name (fs.map bid)) gs := by
  induction fs generalizing l with
  | nil => rfl
  | cons f fs ih =>
    rw [List.cons_append, reports, reports, ih, List.append_assoc, List.map_cons,
      Ledger.grantAll_cons]

/-- A filing of a name that is taken is reported. -/
theorem report_ne_nil (kind : EntryKind) {l : Ledger α} {f : Filing α} {n : String}
    (hf : f.bid.name? name = some n) (hn : l.taken n = true) : f.report kind name l ≠ [] := by
  cases f with
  | define a flaws lacks =>
    obtain rfl := Option.some.inj hf
    simp [report, hn]
  | decline m flaws =>
    cases m with
    | none => cases hf
    | some m =>
      obtain rfl := Option.some.inj hf
      simp [report, hn]

/-- What is reported of a filing that is not granted anything is added to what is
    reported of the others. -/
theorem reports_insert (kind : EntryKind) {l : Ledger α} {fs : List (Filing α)} {f : Filing α}
    (gs : List (Filing α))
    (hf : (l.grantAll name (fs.map bid)).grant name f.bid = l.grantAll name (fs.map bid)) :
    (reports kind name l (fs ++ gs)).Sublist (reports kind name l (fs ++ f :: gs)) ∧
      (reports kind name l (fs ++ f :: gs)).length = (reports kind name l (fs ++ gs)).length +
        (f.report kind name (l.grantAll name (fs.map bid))).length := by
  rw [reports_append, reports_append, reports, hf]
  refine ⟨(List.Sublist.refl _).append (List.sublist_append_right _ _), ?_⟩
  simp only [List.length_append]
  omega

/-- An entry that was read is reported unless its definition is admitted. -/
theorem heard_and_report_iff (kind : EntryKind) {l : Ledger α} {f : Filing α} :
    f.Heard ∧ f.report kind name l = [] ↔ l.Admits name f.bid := by
  cases f with
  | define a flaws lacks =>
    simp only [heard_define, true_and, report, List.append_eq_nil_iff, Ledger.Admits, bid,
      Bid.define.injEq, List.isEmpty_iff]
    split
    · rename_i h
      simp [h]
    · rename_i h
      simp [h]
  | decline n flaws =>
    have hbid : ¬l.Admits name (decline n flaws).bid := by
      rintro ⟨a, ha, -⟩
      cases n <;> cases ha
    refine iff_of_false (fun h => ?_) hbid
    -- There is no definition, and so there has to be a reason.
    obtain ⟨hheard, hr⟩ := h
    rw [report_decline, List.append_eq_nil_iff] at hr
    exact hheard n (congrArg (decline n) hr.1)

/-- If entries were all read, nothing is reported just if all are admitted. -/
theorem heard_and_reports_iff (kind : EntryKind) {l : Ledger α} {fs : List (Filing α)} :
    (∀ f ∈ fs, f.Heard) ∧ reports kind name l fs = [] ↔ l.AdmitsAll name (fs.map bid) := by
  induction fs generalizing l with
  | nil => simp [reports, Ledger.AdmitsAll]
  | cons f fs ih =>
    rw [List.map_cons, Ledger.AdmitsAll, ← ih, ← heard_and_report_iff kind, reports,
      List.append_eq_nil_iff, List.forall_mem_cons]
    exact and_and_and_comm

end Filing

/-! ### What entries define -/

/-- The signal that an entry defines. -/
def Signal.defined? (v : Value) : Option Signal := (SignalEntry.ofValue? v).bind (·.complete?)

/-- The rule that an entry defines, with all that is complete of it. -/
def Rule.defined? (v : Value) : Option Rule := (RuleEntry.ofValue? v).map (·.complete.1)

/-- The bonus that an entry defines. -/
def AffinityBonus.defined? (v : Value) : Option AffinityBonus := do
  let e ← BonusEntry.ofValue? v
  return ⟨e.name, ← e.passion, ← e.score, e.description⟩

/-! ### The filings of entries -/

/-- The filing of an entry that has to have a name. -/
def Filing.named {α : Type} (kind : EntryKind) (name : String) (f : Filing α) : Filing α :=
  if Text.isBlankText name then .decline none [.missingField kind unnamed "name"] else f

/-- The filing of a category. -/
def Category.filing (c : Category) : Filing Category := .named .category c.name (.define c [] [])

/-- The filing of a bonus. -/
def AffinityBonus.filing (b : AffinityBonus) : Filing AffinityBonus :=
  .named .affinityBonus b.name (.define b [] [])

/-- The filing of the entry of a bonus. -/
def BonusEntry.filing (e : BonusEntry) : Filing AffinityBonus :=
  let name := if Text.isBlankText e.name then unnamed else e.name
  match e.passion, e.score with
  | none, _ => .decline none [.missingField .affinityBonus name "passion"]
  | some _, none => .decline none [.missingField .affinityBonus name "score"]
  | some passion, some score => AffinityBonus.filing ⟨e.name, passion, score, e.description⟩

/-- The filing of a signal, whose source may lack something. -/
def Signal.filing (s : Signal) : Filing Signal :=
  .named .signal s.name
    (.define s [] (s.source.missingField?.toList.map (.missingField .signal s.name)))

/-- The filing of the entry of a signal, which has its name also without a source. -/
def SignalEntry.filing (e : SignalEntry) : Filing Signal :=
  match e.complete? with
  | none =>
    .decline (if Text.isBlankText e.name then none else some e.name)
      [.missingField .signal e.name "source"]
  | some s => s.filing

/-- The filing of a rule that is checked against a registry. -/
def Rule.filing (r : Registry) (rule : Rule) (flaws : List DefinitionIssue) : Filing Rule :=
  .define rule (flaws ++ r.ruleIssues rule) []

/-- The filing of the entry of a rule. -/
def RuleEntry.filing (r : Registry) (e : RuleEntry) : Filing Rule :=
  .named .rule e.name (e.complete.1.filing r e.complete.2)

/-- The filing of an entry that was not read: its name, if it has one. -/
def Filing.unread {α : Type} (n : Option String) : Filing α := .decline n []

namespace Registry

/-- The filing of an entry of a category, which has no name unless it was read. -/
def categoryFiling : ReadEntry Category → Filing Category
  | .ok c => c.filing
  | .error _ => .unread none

/-- The filing of an entry of a bonus, which has no name unless it was read. -/
def bonusFiling : ReadEntry BonusEntry → Filing AffinityBonus
  | .ok e => e.filing
  | .error _ => .unread none

/-- The filing of an entry of a signal. -/
def signalFiling : ReadEntry SignalEntry → Filing Signal
  | .ok e => e.filing
  | .error n => .unread n

/-- The filing of an entry of a rule. -/
def ruleFiling (r : Registry) : ReadEntry RuleEntry → Filing Rule
  | .ok e => e.filing r
  | .error n => .unread n

/-! ### What is filed -/

theorem plain_named {α : Type} {kind : EntryKind} {name : String} {f : Filing α}
    (hf : f.bid.Plain) : (Filing.named kind name f).bid.Plain := by
  rw [Filing.named]
  split
  · exact .inl rfl
  · exact hf

theorem plain_category (c : Category) : c.filing.bid.Plain := plain_named (.inr ⟨c, rfl⟩)

theorem plain_bonus (b : AffinityBonus) : b.filing.bid.Plain := plain_named (.inr ⟨b, rfl⟩)

theorem plain_bonusEntry (e : BonusEntry) : e.filing.bid.Plain := by
  obtain ⟨name, passion, score, description⟩ := e
  cases passion with
  | none => exact .inl rfl
  | some passion =>
    cases score with
    | none => exact .inl rfl
    | some score => exact plain_bonus ⟨name, passion, score, description⟩

theorem plain_categoryFiling (e : ReadEntry Category) : (categoryFiling e).bid.Plain := by
  cases e with
  | ok c => exact plain_category c
  | error n => exact .inl rfl

theorem plain_bonusFiling (e : ReadEntry BonusEntry) : (bonusFiling e).bid.Plain := by
  cases e with
  | ok e => exact plain_bonusEntry e
  | error n => exact .inl rfl

/-! ### Taking one entry of any kind -/

section Kind

variable {α : Type} {name : α → String} (put : Ledger α → List DefinitionIssue → Registry)
  (kind : EntryKind) {l : Ledger α} (issues : List DefinitionIssue)

/-- Where nothing is invalid, a definition is stored unless its name is blank or
    was used before. -/
theorem put_plain (hl : l.Plain name) (a : α) :
    (if Text.isBlankText (name a) then put l (issues ++ [.missingField kind unnamed "name"])
      else if l.defs.any fun b => name b == name a then
        put l (issues ++ [.duplicateName kind (name a)])
      else
        put { l with defs := l.defs ++ [a], index := l.index.set (name a) l.defs.length } issues) =
      put (l.grant name (Filing.named kind (name a) (.define a [] [])).bid)
        (issues ++ (Filing.named kind (name a) (.define a [] [])).report kind name l) := by
  rw [← hl.taken_eq, Filing.named]
  split
  · rfl
  · simp only [Filing.bid, Filing.report, Ledger.grant]
    split
    · rfl
    · simp

/-- What was not read has its name unless that is taken. -/
theorem put_unread (n : Option String) :
    (match n with
      | none => put l issues
      | some n =>
        if l.taken n then put l (issues ++ [.duplicateName kind n])
        else put { l with invalid := l.invalid ++ [n] } issues) =
      put (l.grant name (Filing.unread n).bid)
        (issues ++ (Filing.unread n).report kind name l) := by
  cases n with
  | none => exact congrArg (put l) (List.append_nil issues).symm
  | some n =>
    simp only [Filing.unread, Filing.bid, Filing.claim, Filing.report, Ledger.grant]
    split
    · rfl
    · simp

end Kind

section Entries

variable {cs : Ledger Category} {bs : Ledger AffinityBonus} {ss : Ledger Signal} {rs : Ledger Rule}
  {issues : List DefinitionIssue}

/-! ### Registries and ledgers -/

/-- The registry of four ledgers. That of categories and that of bonuses have
    nothing invalid. -/
def ofLedgers (cs : Ledger Category) (bs : Ledger AffinityBonus) (ss : Ledger Signal)
    (rs : Ledger Rule) (issues : List DefinitionIssue) : Registry :=
  { signals := ss.defs
    signalIndex := ss.index
    invalidSignals := ss.invalid
    rules := rs.defs
    ruleIndex := rs.index
    invalidRules := rs.invalid
    categories := cs.defs
    bonuses := bs.defs
    issues }

/-! ### Taking one entry -/

theorem addCategory_ofLedgers (hcs : cs.Plain Category.name) (c : Category) :
    (ofLedgers cs bs ss rs issues).addCategory c =
      ofLedgers (cs.grant Category.name c.filing.bid) bs ss rs
        (issues ++ c.filing.report .category Category.name cs) :=
  put_plain (fun l issues => ofLedgers l bs ss rs issues) .category issues hcs c

theorem addBonus_ofLedgers (hbs : bs.Plain AffinityBonus.name) (b : AffinityBonus) :
    (ofLedgers cs bs ss rs issues).addBonus b =
      ofLedgers cs (bs.grant AffinityBonus.name b.filing.bid) ss rs
        (issues ++ b.filing.report .affinityBonus AffinityBonus.name bs) :=
  put_plain (fun l issues => ofLedgers cs l ss rs issues) .affinityBonus issues hbs b

theorem addBonusEntry_ofLedgers (hbs : bs.Plain AffinityBonus.name) (e : BonusEntry) :
    (ofLedgers cs bs ss rs issues).addBonusEntry e =
      ofLedgers cs (bs.grant AffinityBonus.name e.filing.bid) ss rs
        (issues ++ e.filing.report .affinityBonus AffinityBonus.name bs) := by
  obtain ⟨name, passion, score, description⟩ := e
  cases passion with
  | none => rfl
  | some passion =>
    cases score with
    | none => rfl
    | some score => exact addBonus_ofLedgers hbs ⟨name, passion, score, description⟩

theorem claimSignal_ofLedgers (n : Option String) :
    (ofLedgers cs bs ss rs issues).claimSignal n =
      ofLedgers cs bs (ss.grant Signal.name (Filing.unread n).bid) rs
        (issues ++ (Filing.unread n).report .signal Signal.name ss) := by
  rw [← put_unread (fun l issues => ofLedgers cs bs l rs issues)]
  cases n with
  | none => rfl
  | some n => rfl

theorem addSignal_ofLedgers (s : Signal) :
    (ofLedgers cs bs ss rs issues).addSignal s =
      ofLedgers cs bs (ss.grant Signal.name s.filing.bid) rs
        (issues ++ s.filing.report .signal Signal.name ss) := by
  have htaken : (ofLedgers cs bs ss rs issues).signalTaken s.name = ss.taken s.name := rfl
  rw [addSignal, htaken, Signal.filing, Filing.named]
  split
  · rfl
  · simp only [Filing.bid, Filing.report, Ledger.grant]
    split
    · rfl
    · cases s.source.missingField? with
      | none => simp [ofLedgers]
      | some field => rfl

theorem addSignalEntry_ofLedgers (e : SignalEntry) :
    (ofLedgers cs bs ss rs issues).addSignalEntry e =
      ofLedgers cs bs (ss.grant Signal.name e.filing.bid) rs
        (issues ++ e.filing.report .signal Signal.name ss) := by
  rw [addSignalEntry, SignalEntry.filing]
  cases e.complete? with
  | none =>
    rw [Filing.report_decline, ← List.append_assoc]
    exact claimSignal_ofLedgers _
  | some s => exact addSignal_ofLedgers s

theorem takeSignal_ofLedgers (e : ReadEntry SignalEntry) :
    (ofLedgers cs bs ss rs issues).takeSignal e =
      ofLedgers cs bs (ss.grant Signal.name (signalFiling e).bid) rs
        (issues ++ (signalFiling e).report .signal Signal.name ss) := by
  cases e with
  | ok e => exact addSignalEntry_ofLedgers e
  | error n => exact claimSignal_ofLedgers n

theorem claimRule_ofLedgers (n : Option String) :
    (ofLedgers cs bs ss rs issues).claimRule n =
      ofLedgers cs bs ss (rs.grant Rule.name (Filing.unread n).bid)
        (issues ++ (Filing.unread n).report .rule Rule.name rs) := by
  rw [← put_unread (fun l issues => ofLedgers cs bs ss l issues)]
  cases n with
  | none => rfl
  | some n => rfl

/-- What rules are checked against. Rules are no part of it. -/
def base (cs : Ledger Category) (ss : Ledger Signal) : Registry := ofLedgers cs {} ss {} []

/-- A rule is filed with the issues of its entry and those of its check. -/
theorem checkAndAdd_ofLedgers (rule : Rule) (flaws : List DefinitionIssue) :
    ((ofLedgers cs bs ss rs issues).flagAll flaws).checkAndAdd rule flaws.isEmpty =
      ofLedgers cs bs ss (rs.grant Rule.name (rule.filing (base cs ss) flaws).bid)
        (issues ++ (rule.filing (base cs ss) flaws).report .rule Rule.name rs) := by
  have hchecked : ((ofLedgers cs bs ss rs issues).flagAll flaws).ruleIssues rule =
      (base cs ss).ruleIssues rule :=
    rfl
  -- What is wrong with a rule is reported even if its name is taken.
  simp only [checkAndAdd, addRule, hchecked, Rule.filing, Filing.bid, Filing.report, Ledger.grant,
    List.append_nil]
  have htaken : (((ofLedgers cs bs ss rs issues).flagAll flaws).flagAll
      ((base cs ss).ruleIssues rule)).ruleTaken rule.name = rs.taken rule.name :=
    rfl
  rw [htaken]
  split
  · simp [ofLedgers, flag, flagAll]
  · cases flaws <;> simp [ofLedgers, flagAll]

theorem checkAndAdd_complete (rule : Rule) :
    (ofLedgers cs bs ss rs issues).checkAndAdd rule true =
      ofLedgers cs bs ss (rs.grant Rule.name (rule.filing (base cs ss) []).bid)
        (issues ++ (rule.filing (base cs ss) []).report .rule Rule.name rs) := by
  rw [← checkAndAdd_ofLedgers, flagAll, List.append_nil]
  rfl

theorem addRuleEntry_ofLedgers (e : RuleEntry) :
    (ofLedgers cs bs ss rs issues).addRuleEntry e =
      ofLedgers cs bs ss (rs.grant Rule.name (e.filing (base cs ss)).bid)
        (issues ++ (e.filing (base cs ss)).report .rule Rule.name rs) := by
  rw [addRuleEntry, RuleEntry.filing, Filing.named]
  split
  · rfl
  · exact checkAndAdd_ofLedgers _ _

theorem takeRule_ofLedgers (e : ReadEntry RuleEntry) :
    (ofLedgers cs bs ss rs issues).takeRule e =
      ofLedgers cs bs ss (rs.grant Rule.name (ruleFiling (base cs ss) e).bid)
        (issues ++ (ruleFiling (base cs ss) e).report .rule Rule.name rs) := by
  cases e with
  | ok e => exact addRuleEntry_ofLedgers e
  | error n => exact claimRule_ofLedgers n

/-! ### Taking all entries -/

/-- If every entry is taken as it is filed, so are all of them, one by one. -/
theorem foldl_eq_book {α β : Type} {kind : EntryKind} {name : α → String}
    (add : Registry → β → Registry) (put : Ledger α → List DefinitionIssue → Registry)
    (file : β → Filing α) (ok : Ledger α → Prop)
    (hok : ∀ l x, ok l → ok (l.grant name (file x).bid))
    (hadd : ∀ l issues x, ok l → add (put l issues) x =
      put (l.grant name (file x).bid) (issues ++ (file x).report kind name l))
    {l : Ledger α} (hl : ok l) (issues : List DefinitionIssue) (xs : List β) :
    xs.foldl add (put l issues) =
      put (l.grantAll name ((xs.map file).map Filing.bid))
        (issues ++ Filing.reports kind name l (xs.map file)) := by
  induction xs generalizing l issues with
  | nil =>
    rw [List.map_nil, Filing.reports, List.append_nil]
    rfl
  | cons x xs ih =>
    rw [List.foldl_cons, hadd l issues x hl, ih (hok l x hl), List.append_assoc]
    rfl

theorem foldl_read_addCategory (hcs : cs.Plain Category.name) (es : List (ReadEntry Category)) :
    (es.filterMap Except.toOption).foldl addCategory (ofLedgers cs bs ss rs issues) =
      ofLedgers (cs.grantAll Category.name ((es.map categoryFiling).map Filing.bid)) bs ss rs
        (issues ++ Filing.reports .category Category.name cs (es.map categoryFiling)) := by
  rw [List.foldl_filterMap]
  refine foldl_eq_book _ (fun l issues => ofLedgers l bs ss rs issues) categoryFiling
    (Ledger.Plain Category.name) (fun l e hl => Ledger.plain_grant hl (plain_categoryFiling e))
    (fun l issues e hl => ?_) hcs issues es
  cases e with
  | ok c => exact addCategory_ofLedgers hl c
  | error n => exact congrArg _ (List.append_nil issues).symm

theorem foldl_read_addBonusEntry (hbs : bs.Plain AffinityBonus.name)
    (es : List (ReadEntry BonusEntry)) :
    (es.filterMap Except.toOption).foldl addBonusEntry (ofLedgers cs bs ss rs issues) =
      ofLedgers cs (bs.grantAll AffinityBonus.name ((es.map bonusFiling).map Filing.bid)) ss rs
        (issues ++ Filing.reports .affinityBonus AffinityBonus.name bs (es.map bonusFiling)) := by
  rw [List.foldl_filterMap]
  refine foldl_eq_book _ (fun l issues => ofLedgers cs l ss rs issues) bonusFiling
    (Ledger.Plain AffinityBonus.name) (fun l e hl => Ledger.plain_grant hl (plain_bonusFiling e))
    (fun l issues e hl => ?_) hbs issues es
  cases e with
  | ok e => exact addBonusEntry_ofLedgers hl e
  | error n => exact congrArg _ (List.append_nil issues).symm

theorem addSignalEntries_ofLedgers (es : List (ReadEntry SignalEntry)) :
    (ofLedgers cs bs ss rs issues).addSignalEntries es =
      ofLedgers cs bs (ss.grantAll Signal.name ((es.map signalFiling).map Filing.bid)) rs
        (issues ++ Filing.reports .signal Signal.name ss (es.map signalFiling)) :=
  foldl_eq_book takeSignal (fun l issues => ofLedgers cs bs l rs issues) signalFiling
    (fun _ => True) (fun _ _ => id) (fun _ _ e _ => takeSignal_ofLedgers e) trivial issues es

theorem addRuleEntries_ofLedgers (es : List (ReadEntry RuleEntry)) :
    (ofLedgers cs bs ss rs issues).addRuleEntries es =
      ofLedgers cs bs ss (rs.grantAll Rule.name ((es.map (ruleFiling (base cs ss))).map Filing.bid))
        (issues ++ Filing.reports .rule Rule.name rs (es.map (ruleFiling (base cs ss)))) :=
  foldl_eq_book takeRule (fun l issues => ofLedgers cs bs ss l issues) (ruleFiling (base cs ss))
    (fun _ => True) (fun _ _ => id) (fun _ _ e _ => takeRule_ofLedgers e) trivial issues es

theorem foldl_addCategory (hcs : cs.Plain Category.name) (categories : List Category) :
    categories.foldl addCategory (ofLedgers cs bs ss rs issues) =
      ofLedgers (cs.grantAll Category.name ((categories.map Category.filing).map Filing.bid))
        bs ss rs
        (issues ++ Filing.reports .category Category.name cs (categories.map Category.filing)) :=
  foldl_eq_book addCategory (fun l issues => ofLedgers l bs ss rs issues) Category.filing
    (Ledger.Plain Category.name) (fun _ c hl => Ledger.plain_grant hl (plain_category c))
    (fun _ _ c hl => addCategory_ofLedgers hl c) hcs issues categories

theorem foldl_addBonus (hbs : bs.Plain AffinityBonus.name) (bonuses : List AffinityBonus) :
    bonuses.foldl addBonus (ofLedgers cs bs ss rs issues) =
      ofLedgers cs
        (bs.grantAll AffinityBonus.name ((bonuses.map AffinityBonus.filing).map Filing.bid)) ss rs
        (issues ++
          Filing.reports .affinityBonus AffinityBonus.name bs (bonuses.map AffinityBonus.filing)) :=
  foldl_eq_book addBonus (fun l issues => ofLedgers cs l ss rs issues) AffinityBonus.filing
    (Ledger.Plain AffinityBonus.name) (fun _ b hl => Ledger.plain_grant hl (plain_bonus b))
    (fun _ _ b hl => addBonus_ofLedgers hl b) hbs issues bonuses

theorem foldl_addSignal (signals : List Signal) :
    signals.foldl addSignal (ofLedgers cs bs ss rs issues) =
      ofLedgers cs bs (ss.grantAll Signal.name ((signals.map Signal.filing).map Filing.bid)) rs
        (issues ++ Filing.reports .signal Signal.name ss (signals.map Signal.filing)) :=
  foldl_eq_book addSignal (fun l issues => ofLedgers cs bs l rs issues) Signal.filing
    (fun _ => True) (fun _ _ => id) (fun _ _ s _ => addSignal_ofLedgers s) trivial issues signals

theorem foldl_checkAndAdd (rules : List Rule) :
    rules.foldl (fun r rule => r.checkAndAdd rule true) (ofLedgers cs bs ss rs issues) =
      ofLedgers cs bs ss
        (rs.grantAll Rule.name ((rules.map fun q => q.filing (base cs ss) []).map Filing.bid))
        (issues ++
          Filing.reports .rule Rule.name rs (rules.map fun q => q.filing (base cs ss) [])) :=
  foldl_eq_book (fun r rule => r.checkAndAdd rule true)
    (fun l issues => ofLedgers cs bs ss l issues) (fun q => q.filing (base cs ss) [])
    (fun _ => True) (fun _ _ => id)
    (fun _ _ rule _ => checkAndAdd_complete rule) trivial issues rules

end Entries

/-! ### Whole registries -/

/-- All that is filed for a registry, besides the issues of entries that were
    not read. -/
structure Filings where
  /-- The issues of entries that were not read. -/
  unread : List DefinitionIssue
  /-- The filings of categories. -/
  categories : List (Filing Category)
  /-- The filings of bonuses. -/
  bonuses : List (Filing AffinityBonus)
  /-- The filings of signals. -/
  signals : List (Filing Signal)
  /-- The filings of rules. -/
  rules : List (Filing Rule)

/-- What is reported. -/
def Filings.issues (F : Filings) : List DefinitionIssue :=
  F.unread ++ Filing.reports .category Category.name {} F.categories ++
    Filing.reports .affinityBonus AffinityBonus.name {} F.bonuses ++
    Filing.reports .signal Signal.name {} F.signals ++ Filing.reports .rule Rule.name {} F.rules

/-- The registry in which all is granted. -/
def Filings.registry (F : Filings) : Registry :=
  ofLedgers (Filing.book Category.name F.categories) (Filing.book AffinityBonus.name F.bonuses)
    (Filing.book Signal.name F.signals) (Filing.book Rule.name F.rules) F.issues

/-- What rules are checked against if some categories and signals are filed. -/
def checkedAgainst (categories : List (Filing Category)) (signals : List (Filing Signal)) :
    Registry :=
  base (Filing.book Category.name categories) (Filing.book Signal.name signals)

/-- What is filed by a document. -/
def Filings.ofDocument (d : Document) : Filings :=
  let categories := readEntries Category.ofValue? d.categories
  let bonuses := readEntries BonusEntry.ofValue? d.bonuses
  let signals := readEntries SignalEntry.ofValue? d.signals
  let rules := readEntries RuleEntry.ofValue? d.rules
  { unread := malformed .category categories ++ malformed .affinityBonus bonuses ++
      malformed .signal signals ++ malformed .rule rules
    categories := categories.map categoryFiling
    bonuses := bonuses.map bonusFiling
    signals := signals.map signalFiling
    rules := rules.map
      (ruleFiling (checkedAgainst (categories.map categoryFiling) (signals.map signalFiling))) }

/-- What is filed by definitions that are complete. -/
def Filings.ofParts (signals : List Signal) (rules : List Rule) (categories : List Category)
    (bonuses : List AffinityBonus) : Filings :=
  let r := checkedAgainst (categories.map Category.filing) (signals.map Signal.filing)
  { unread := []
    categories := categories.map Category.filing
    bonuses := bonuses.map AffinityBonus.filing
    signals := signals.map Signal.filing
    rules := rules.map fun rule => rule.filing r [] }

/-- The registry of a document is that of what the document files. -/
theorem ofDocument_eq (d : Document) : ofDocument d = (Filings.ofDocument d).registry := by
  have hempty (issues : List DefinitionIssue) :
      ({ issues } : Registry) = ofLedgers {} {} {} {} issues :=
    rfl
  simp only [ofDocument, hempty]
  rw [foldl_read_addCategory Ledger.plain_empty, foldl_read_addBonusEntry Ledger.plain_empty,
    addSignalEntries_ofLedgers, addRuleEntries_ofLedgers]
  rfl

/-- The registry of definitions is that of what they file. -/
theorem ofParts_eq (signals : List Signal) (rules : List Rule) (categories : List Category)
    (bonuses : List AffinityBonus) : ofParts signals rules categories bonuses =
      (Filings.ofParts signals rules categories bonuses).registry := by
  have hempty : ({} : Registry) = ofLedgers {} {} {} {} [] := rfl
  simp only [ofParts, hempty]
  rw [foldl_addCategory Ledger.plain_empty, foldl_addBonus Ledger.plain_empty, foldl_addSignal,
    foldl_checkAndAdd]
  rfl

/-! ### What is valid was checked -/

/-- The filings of categories and bonuses are of nothing invalid, and a rule is
    filed as valid only if nothing is found wrong with it. -/
structure Filings.Sound (F : Filings) : Prop where
  categories : ∀ f ∈ F.categories, f.bid.Plain
  bonuses : ∀ f ∈ F.bonuses, f.bid.Plain
  rules : ∀ f ∈ F.rules, ∀ rule, f.bid = .define rule true → F.registry.ruleIssues rule = []

theorem Filings.Sound.plain_categories {F : Filings} (hF : F.Sound) :
    (Filing.book Category.name F.categories).Plain Category.name :=
  Ledger.plain_grantAll Ledger.plain_empty (List.forall_mem_map.2 hF.categories)

theorem Filings.Sound.plain_bonuses {F : Filings} (hF : F.Sound) :
    (Filing.book AffinityBonus.name F.bonuses).Plain AffinityBonus.name :=
  Ledger.plain_grantAll Ledger.plain_empty (List.forall_mem_map.2 hF.bonuses)

theorem ruleIssues_of_filing {r : Registry} {rule q : Rule} {flaws : List DefinitionIssue}
    (h : (rule.filing r flaws).bid = .define q true) : r.ruleIssues q = [] := by
  rw [Rule.filing, Filing.bid, List.append_nil, Bid.define.injEq, List.isEmpty_iff,
    List.append_eq_nil_iff] at h
  exact h.1 ▸ h.2.2

theorem ruleIssues_of_ruleFiling {r : Registry} {e : ReadEntry RuleEntry} {q : Rule}
    (h : (ruleFiling r e).bid = .define q true) : r.ruleIssues q = [] := by
  cases e with
  | ok e =>
    rw [ruleFiling, RuleEntry.filing, Filing.named] at h
    split at h
    · cases h
    · exact ruleIssues_of_filing h
  | error n => cases n <;> cases h

theorem Filings.sound_ofDocument (d : Document) : (Filings.ofDocument d).Sound where
  categories := List.forall_mem_map.2 fun e _ => plain_categoryFiling e
  bonuses := List.forall_mem_map.2 fun e _ => plain_bonusFiling e
  rules := List.forall_mem_map.2 fun _ _ _ h => ruleIssues_of_ruleFiling h

theorem Filings.sound_ofParts (signals : List Signal) (rules : List Rule)
    (categories : List Category) (bonuses : List AffinityBonus) :
    (Filings.ofParts signals rules categories bonuses).Sound where
  categories := List.forall_mem_map.2 fun c _ => plain_category c
  bonuses := List.forall_mem_map.2 fun b _ => plain_bonus b
  rules := List.forall_mem_map.2 fun _ _ _ h => ruleIssues_of_filing h

end Registry
end WorkPriority
