import WorkPriority.Registry.Entry
import WorkPriority.Registry.Issue

/-!
# Registries of definitions

A registry holds the signals, rules, categories and bonuses of a document. Its
entries are taken one by one, and one that is wrong does not keep the others
out. What is wrong is recorded as an issue, and a signal or rule concerned is
*invalid*: it may be stored, but it is not evaluated.

Names are given once. The first entry that claims the name of a signal or rule
has it, even if that entry is of no use: then the name stands for something
invalid, and later entries of that name are left out. The signals and rules
that are stored are found by way of an index, which has the place of each.

* `Registry.ofDocument`: the registry of a document.
* `Registry.ofParts`: the registry of definitions that are not written down.
* `Registry.plans`: the plan of every category, of the valid rules.
-/

namespace WorkPriority

/-- The definitions in use. -/
structure Registry where
  /-- The signals, valid or not, in the order in which they came. -/
  signals : List Signal := []
  /-- The places of the signals, by their names. -/
  signalIndex : Keyed String Nat := .empty
  /-- The rules, valid or not, in the order in which they came. -/
  rules : List Rule := []
  /-- The places of the rules, by their names. -/
  ruleIndex : Keyed String Nat := .empty
  /-- The categories. -/
  categories : List Category := []
  /-- The bonuses. -/
  bonuses : List AffinityBonus := []
  /-- The names of signals that are invalid. -/
  invalidSignals : List String := []
  /-- The names of rules that are invalid. -/
  invalidRules : List String := []
  /-- What was found to be wrong, in order. -/
  issues : List DefinitionIssue := []

namespace Registry

/-! ### Reading a registry -/

/-- The signal of a name. -/
def signal? (r : Registry) (name : String) : Option Signal :=
  (r.signalIndex.get? name).bind fun i => r.signals[i]?

/-- The rule of a name. -/
def rule? (r : Registry) (name : String) : Option Rule :=
  (r.ruleIndex.get? name).bind fun i => r.rules[i]?

/-- Whether a name is that of a signal that is evaluated. -/
def isValidSignal (r : Registry) (name : String) : Bool :=
  r.signalIndex.has name && !r.invalidSignals.contains name

/-- Whether a name is that of a rule that is evaluated. -/
def isValidRule (r : Registry) (name : String) : Bool :=
  r.ruleIndex.has name && !r.invalidRules.contains name

/-- The rules that are evaluated. -/
def validRules (r : Registry) : List Rule := r.rules.filter fun s => !r.invalidRules.contains s.name

/-- The rules that are evaluated more often than others. -/
def urgentRules (r : Registry) : List Rule := r.validRules.filter (·.urgent)

/-- The signals that are measured more often than others. -/
def urgentSignals (r : Registry) : List Signal := r.signals.filter (·.urgent)

/-- The plans of the categories. -/
def plans (r : Registry) : List Plan := r.categories.map (Plan.ofRules r.validRules)

/-- How many names of signals and rules stand for something invalid. -/
def invalidCount (r : Registry) : Nat := r.invalidSignals.length + r.invalidRules.length

/-- Whether the name of a signal is taken. -/
def signalTaken (r : Registry) (name : String) : Bool :=
  r.signalIndex.has name || r.invalidSignals.contains name

/-- Whether the name of a rule is taken. -/
def ruleTaken (r : Registry) (name : String) : Bool :=
  r.ruleIndex.has name || r.invalidRules.contains name

/-! ### Adding definitions -/

/-- Records an issue. -/
def flag (r : Registry) (issue : DefinitionIssue) : Registry :=
  { r with issues := r.issues ++ [issue] }

/-- Records issues. -/
def flagAll (r : Registry) (issues : List DefinitionIssue) : Registry :=
  { r with issues := r.issues ++ issues }

/-- Lets an entry of no use have its name of a signal, if it has one. -/
def claimSignal (r : Registry) : Option String → Registry
  | none => r
  | some name =>
    if r.signalTaken name then r.flag (.duplicateName .signal name)
    else { r with invalidSignals := r.invalidSignals ++ [name] }

/-- Lets an entry of no use have its name of a rule, if it has one. -/
def claimRule (r : Registry) : Option String → Registry
  | none => r
  | some name =>
    if r.ruleTaken name then r.flag (.duplicateName .rule name)
    else { r with invalidRules := r.invalidRules ++ [name] }

/-- Adds a category. -/
def addCategory (r : Registry) (c : Category) : Registry :=
  if Text.isBlankText c.name then r.flag (.missingField .category unnamed "name")
  else if r.categories.any fun d => d.name == c.name then r.flag (.duplicateName .category c.name)
  else { r with categories := r.categories ++ [c] }

/-- Adds a bonus. -/
def addBonus (r : Registry) (b : AffinityBonus) : Registry :=
  if Text.isBlankText b.name then r.flag (.missingField .affinityBonus unnamed "name")
  else if r.bonuses.any fun d => d.name == b.name then
    r.flag (.duplicateName .affinityBonus b.name)
  else { r with bonuses := r.bonuses ++ [b] }

/-- Adds a signal. One whose source lacks something is stored, but invalid. -/
def addSignal (r : Registry) (s : Signal) : Registry :=
  if Text.isBlankText s.name then r.flag (.missingField .signal unnamed "name")
  else if r.signalTaken s.name then r.flag (.duplicateName .signal s.name)
  else
    -- The signal is of no use, but it can still be looked up by its name.
    let r := match s.source.missingField? with
      | some field =>
        { r with invalidSignals := r.invalidSignals ++ [s.name] }.flag
          (.missingField .signal s.name field)
      | none => r
    { r with
      signals := r.signals ++ [s]
      signalIndex := r.signalIndex.set s.name r.signals.length }

/-- Adds a rule, which is invalid if something was found to be wrong with it. -/
def addRule (r : Registry) (rule : Rule) (valid : Bool) : Registry :=
  if r.ruleTaken rule.name then r.flag (.duplicateName .rule rule.name)
  else
    { r with
      rules := r.rules ++ [rule]
      ruleIndex := r.ruleIndex.set rule.name r.rules.length
      invalidRules := if valid then r.invalidRules else r.invalidRules ++ [rule.name] }

/-! ### Checking rules -/

/-- Whether a target is declared. -/
def hasTarget (r : Registry) : Target → Bool
  | .category name => r.categories.any fun c => c.name == name
  | .subTask name => r.categories.any fun c => c.subTasks.contains name

/-- What is wrong with the targets of a rule. -/
def targetIssues (r : Registry) (rule : Rule) : List DefinitionIssue :=
  (if rule.targets.isEmpty then [.noTargets rule.name] else []) ++
    (rule.targets.filter fun t => !r.hasTarget t).map (.unknownTarget rule.name)

/-- What a condition of a rule lacks. -/
def blankIssues (rule : String) : Condition → List DefinitionIssue
  | .lookup signal _ =>
    if Text.isBlankText signal then [.missingField .rule rule "signal"] else []
  | .modifier key _ => if Text.isBlankText key then [.missingField .rule rule "key"] else []
  | .gate _ => []

/-- What is wrong with a look-up of a rule. A signal that is known to be of no
    use is not held against the rule. -/
def lookupIssues (r : Registry) (rule signal : String) (mode : RequestMode) :
    List DefinitionIssue :=
  if Text.isBlankText signal then []
  else
    match r.signal? signal with
    -- Under a name that was claimed in vain nothing is read, and that is reported already.
    | none => if r.invalidSignals.contains signal then [] else [.unknownSignal rule signal]
    | some s =>
      match mode.capability? with
      | none => []
      | some c => if c.isOf s then [] else [.capabilityMismatch rule signal mode c]

/-- What is wrong with a rule: its targets, what its conditions lack, and its
    look-ups. -/
def ruleIssues (r : Registry) (rule : Rule) : List DefinitionIssue :=
  r.targetIssues rule ++ rule.conditions.flatMap (blankIssues rule.name) ++
    rule.lookups.flatMap fun (signal, mode) => r.lookupIssues rule.name signal mode

/-- Checks and adds a rule. -/
def checkAndAdd (r : Registry) (rule : Rule) (compiled : Bool) : Registry :=
  let issues := r.ruleIssues rule
  (r.flagAll issues).addRule rule (compiled && issues.isEmpty)

end Registry

/-! ### Completing entries -/

/-- An interval of a rule that has to be given, or what is wrong with it. -/
def Interval.complete (rule field : String) :
    Option Interval.Form → Except DefinitionIssue (Interval Float)
  | none => .error (.missingField .rule rule field)
  | some form =>
    match Interval.ofForm? form with
    | some i => .ok i
    | none => .error (.invalidInterval rule form.write)

/-- The issue of a completion that failed. -/
def issueOf {α : Type} : Except DefinitionIssue α → List DefinitionIssue
  | .ok _ => []
  | .error issue => [issue]

/-- A range of modifiers, or what is wrong with it. -/
def ModifierRangeEntry.complete (rule : String) (e : ModifierRangeEntry) :
    Except DefinitionIssue ModifierRange :=
  (Interval.complete rule "validity" e.validity).map fun validity =>
    ⟨validity, e.multiplier, e.offset⟩

/-- A condition with those of its ranges that are complete, and what is wrong
    with the others. -/
def ConditionEntry.complete (rule : String) : ConditionEntry → Condition × List DefinitionIssue
  | gate f => (.gate f, [])
  | lookup signal mode => (.lookup signal mode, [])
  | modifier key ranges =>
    let done := ranges.map (·.complete rule)
    (.modifier key (done.filterMap Except.toOption), done.flatMap issueOf)

/-- A score range, if it is complete, and what is wrong with it. -/
def ScoreRangeEntry.complete (rule : String) (e : ScoreRangeEntry) :
    Option (ScoreRange Float) × List DefinitionIssue :=
  let validity := Interval.complete rule "validity" e.validity
  let score := Interval.complete rule "score" e.score
  let range := do
    return { validity := ← validity.toOption, score := ← score.toOption, description := e.description }
  (range, issueOf validity ++ issueOf score)

/-- The signal of an entry, if it has a source. -/
def SignalEntry.complete? (e : SignalEntry) : Option Signal :=
  e.source.map fun source =>
    { name := e.name
      source
      aggregation := e.aggregation
      filter := e.filter
      locatable := e.locatable
      individualizable := e.individualizable
      urgent := e.urgent }

/-- A rule with all of an entry that is complete, and what is wrong with the rest. -/
def RuleEntry.complete (e : RuleEntry) : Rule × List DefinitionIssue :=
  let conditions := e.conditions.map (·.complete e.name)
  let ranges := e.ranges.map (·.complete e.name)
  ({ name := e.name
     urgent := e.urgent
     conditions := conditions.map Prod.fst
     ranges := ranges.filterMap Prod.fst
     targets := e.targets
     defaultScore := e.defaultScore },
    conditions.flatMap Prod.snd ++ ranges.flatMap Prod.snd)

namespace Registry

/-! ### Adding entries -/

/-- Adds the bonus of an entry. -/
def addBonusEntry (r : Registry) (e : BonusEntry) : Registry :=
  let name := if Text.isBlankText e.name then unnamed else e.name
  match e.passion, e.score with
  | none, _ => r.flag (.missingField .affinityBonus name "passion")
  | some _, none => r.flag (.missingField .affinityBonus name "score")
  | some passion, some score => r.addBonus ⟨e.name, passion, score, e.description⟩

/-- Adds the signal of an entry. One without a source has the name all the same. -/
def addSignalEntry (r : Registry) (e : SignalEntry) : Registry :=
  match e.complete? with
  | none =>
    (r.flag (.missingField .signal e.name "source")).claimSignal
      (if Text.isBlankText e.name then none else some e.name)
  | some s => r.addSignal s

/-- Adds the rule of an entry. -/
def addRuleEntry (r : Registry) (e : RuleEntry) : Registry :=
  if Text.isBlankText e.name then r.flag (.missingField .rule unnamed "name")
  else
    let (rule, issues) := e.complete
    (r.flagAll issues).checkAndAdd rule issues.isEmpty

/-! ### Whole registries -/

/-- An entry that was read, or the name of one that is not of the form of its kind. -/
abbrev ReadEntry (α : Type) := Except (Option String) α

/-- Reads an entry of a kind. -/
def readEntry {α : Type} (read? : Value → Option α) (v : Value) : ReadEntry α :=
  match read? v with
  | some a => .ok a
  | none => .error (entryName? v)

/-- Reads the entries of a kind. -/
def readEntries {α : Type} (read? : Value → Option α) (vs : List Value) : List (ReadEntry α) :=
  vs.map (readEntry read?)

/-- The issues of entries that are not of the form of their kind. -/
def malformed {α : Type} (kind : EntryKind) (es : List (ReadEntry α)) : List DefinitionIssue :=
  es.filterMap fun
    | .ok _ => none
    | .error name => some (.malformedEntry kind name)

/-- Takes an entry of a signal: adds it if it was read, and lets it have its
    name otherwise. -/
def takeSignal (r : Registry) : ReadEntry SignalEntry → Registry
  | .ok e => r.addSignalEntry e
  | .error name => r.claimSignal name

/-- Takes an entry of a rule in the same way. -/
def takeRule (r : Registry) : ReadEntry RuleEntry → Registry
  | .ok e => r.addRuleEntry e
  | .error name => r.claimRule name

/-- Adds entries of signals. -/
def addSignalEntries (r : Registry) (es : List (ReadEntry SignalEntry)) : Registry :=
  es.foldl takeSignal r

/-- Adds entries of rules. -/
def addRuleEntries (r : Registry) (es : List (ReadEntry RuleEntry)) : Registry :=
  es.foldl takeRule r

/-- The registry of a document. Which entries are not of the form of their kind
    is found out first; rules are added last, as they refer to all others. -/
def ofDocument (d : Document) : Registry :=
  let categories := readEntries Category.ofValue? d.categories
  let bonuses := readEntries BonusEntry.ofValue? d.bonuses
  let signals := readEntries SignalEntry.ofValue? d.signals
  let rules := readEntries RuleEntry.ofValue? d.rules
  let r : Registry :=
    { issues := malformed .category categories ++ malformed .affinityBonus bonuses ++
        malformed .signal signals ++ malformed .rule rules }
  -- Only a signal or rule claims its name although it is malformed.
  let r := (categories.filterMap Except.toOption).foldl addCategory r
  let r := (bonuses.filterMap Except.toOption).foldl addBonusEntry r
  (r.addSignalEntries signals).addRuleEntries rules

/-- The registry of definitions that are complete. -/
def ofParts (signals : List Signal) (rules : List Rule) (categories : List Category)
    (bonuses : List AffinityBonus) : Registry :=
  let r := categories.foldl addCategory {}
  let r := bonuses.foldl addBonus r
  let r := signals.foldl addSignal r
  rules.foldl (fun r rule => r.checkAndAdd rule true) r

end Registry
end WorkPriority
