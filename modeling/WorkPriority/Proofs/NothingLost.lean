import WorkPriority.CommandLine
import WorkPriority.Proofs.Intake

/-!
# Nothing is lost unsaid

An entry of a document may be of no use in many ways: it is not of the form of
its kind, it has no name or lacks something else, its name is taken, or it is a
rule of which a part is wrong. Some of these keep the entry out, and some store it
as invalid. Each is reported, and nothing else is: there is no issue with a
registry just if it has stored as many definitions of every kind as there are
entries, with none of them invalid (`Registry.nothing_lost`).

For one kind, both sides say that all bids are admitted: `Filing.heard_and_reports_iff`
for what is reported, and `Ledger.admitsAll_iff` for what is stored.
-/

namespace WorkPriority

/-! ### What is stored -/

namespace Registry

/-- There are as many definitions of every kind as there are entries. -/
structure Counts (r : Registry) (d : Document) : Prop where
  signals : r.signals.length = d.signals.length
  rules : r.rules.length = d.rules.length
  categories : r.categories.length = d.categories.length
  bonuses : r.bonuses.length = d.bonuses.length

/-- What the entries of a document define is stored, in their order. -/
structure Stores (r : Registry) (d : Document) : Prop where
  signals : r.signals.map some = d.signals.map Signal.defined?
  rules : r.rules.map some = d.rules.map Rule.defined?
  categories : r.categories.map some = d.categories.map Category.ofValue?
  bonuses : r.bonuses.map some = d.bonuses.map AffinityBonus.defined?

end Registry

/-! ### Entries that were read -/

namespace Filing

variable {α : Type}

theorem heard_decline (n : Option String) (issue : DefinitionIssue) :
    (decline n [issue] : Filing α).Heard := by
  intro m h
  cases h

theorem not_heard_unread (n : Option String) : ¬(unread n : Filing α).Heard := fun h => h n rfl

theorem heard_named {kind : EntryKind} {name : String} {f : Filing α} (hf : f.Heard) :
    (named kind name f).Heard := by
  rw [named]
  split
  · exact heard_decline none _
  · exact hf

end Filing

namespace Registry

theorem heard_categoryFiling (e : ReadEntry Category) :
    (categoryFiling e).Heard ↔ ∃ c, e = .ok c := by
  cases e with
  | ok c => exact iff_of_true (Filing.heard_named (Filing.heard_define c [] [])) ⟨c, rfl⟩
  | error n => exact iff_of_false (Filing.not_heard_unread none) (by simp)

theorem heard_bonusFiling (e : ReadEntry BonusEntry) :
    (bonusFiling e).Heard ↔ ∃ b, e = .ok b := by
  cases e with
  | ok e =>
    refine iff_of_true ?_ ⟨e, rfl⟩
    obtain ⟨name, passion, score, description⟩ := e
    cases passion with
    | none => exact Filing.heard_decline none _
    | some passion =>
      cases score with
      | none => exact Filing.heard_decline none _
      | some score => exact Filing.heard_named (Filing.heard_define _ [] [])
  | error n => exact iff_of_false (Filing.not_heard_unread none) (by simp)

theorem heard_signalFiling (e : ReadEntry SignalEntry) :
    (signalFiling e).Heard ↔ ∃ s, e = .ok s := by
  cases e with
  | ok e =>
    refine iff_of_true ?_ ⟨e, rfl⟩
    rw [signalFiling, SignalEntry.filing]
    cases e.complete? with
    | none => exact Filing.heard_decline _ _
    | some s => exact Filing.heard_named (Filing.heard_define s [] _)
  | error n => exact iff_of_false (Filing.not_heard_unread n) (by simp)

theorem heard_ruleFiling (r : Registry) (e : ReadEntry RuleEntry) :
    (ruleFiling r e).Heard ↔ ∃ q, e = .ok q := by
  cases e with
  | ok e => exact iff_of_true (Filing.heard_named (Filing.heard_define _ _ [])) ⟨e, rfl⟩
  | error n => exact iff_of_false (Filing.not_heard_unread n) (by simp)

theorem malformed_eq_nil_iff {α : Type} (kind : EntryKind) (es : List (ReadEntry α)) :
    malformed kind es = [] ↔ ∀ e ∈ es, ∃ a, e = .ok a := by
  rw [malformed, List.filterMap_eq_nil_iff]
  refine forall₂_congr fun e _ => ?_
  cases e <;> simp

/-! ### One kind of entries -/

section Kind

variable {α β : Type} {file : ReadEntry β → Filing α} {read? : Value → Option β}

/-- Of the entries of a kind nothing is reported just if all are stored and none
    is invalid. -/
theorem unreported_iff (kind : EntryKind) (name : α → String) (read? : Value → Option β)
    (hfile : ∀ e, (file e).Heard ↔ ∃ b, e = .ok b) (vs : List Value) :
    malformed kind (readEntries read? vs) = [] ∧
        Filing.reports kind name {} ((readEntries read? vs).map file) = [] ↔
      (Filing.book name ((readEntries read? vs).map file)).defs.length = vs.length ∧
        (Filing.book name ((readEntries read? vs).map file)).invalid.length = 0 := by
  have hheard : malformed kind (readEntries read? vs) = [] ↔
      ∀ f ∈ (readEntries read? vs).map file, f.Heard := by
    rw [malformed_eq_nil_iff, List.forall_mem_map]
    exact forall₂_congr fun e _ => (hfile e).symm
  rw [hheard, Filing.heard_and_reports_iff, Ledger.admitsAll_iff]
  simp [Filing.book, readEntries]

/-- If as many are stored as there are entries, those are stored that the entries
    define, in their order. -/
theorem map_defs_book {name : α → String} {defined? : Value → Option α}
    (hfile : ∀ v a, (file (readEntry read? v)).bid.definition? = some a → defined? v = some a)
    {vs : List Value}
    (h : (Filing.book name ((readEntries read? vs).map file)).defs.length = vs.length) :
    (Filing.book name ((readEntries read? vs).map file)).defs.map some = vs.map defined? := by
  have hdefs : (Filing.book name ((readEntries read? vs).map file)).defs.map some =
      vs.map fun v => (file (readEntry read? v)).bid.definition? := by
    rw [Filing.book, Ledger.map_defs_grantAll (by simpa [readEntries, Filing.book] using h)]
    simp [readEntries]
  rw [hdefs]
  refine List.map_congr_left fun v hv => ?_
  -- Each entry has its place among what is stored.
  obtain ⟨a, -, ha⟩ := List.mem_map.1 (hdefs ▸ List.mem_map_of_mem hv)
  rw [← ha, hfile v a ha.symm]

end Kind

/-! ### What is stored of an entry -/

theorem definition?_named {α : Type} {kind : EntryKind} {name : String} {f : Filing α} {a : α}
    (h : (Filing.named kind name f).bid.definition? = some a) : f.bid.definition? = some a := by
  rw [Filing.named] at h
  split at h
  · cases h
  · exact h

theorem definition?_decline {α : Type} (n : Option String) (flaws : List DefinitionIssue) :
    (Filing.decline n flaws : Filing α).bid.definition? = none := by
  cases n with
  | none => rfl
  | some n => rfl

theorem definition?_category (v : Value) (c : Category)
    (h : (categoryFiling (readEntry Category.ofValue? v)).bid.definition? = some c) :
    Category.ofValue? v = some c := by
  rw [readEntry] at h
  split at h
  · rename_i a ha
    rw [ha, ← definition?_named h]
    rfl
  · cases h

theorem definition?_bonus (v : Value) (b : AffinityBonus)
    (h : (bonusFiling (readEntry BonusEntry.ofValue? v)).bid.definition? = some b) :
    AffinityBonus.defined? v = some b := by
  rw [readEntry] at h
  split at h
  · rename_i e he
    obtain ⟨name, passion, score, description⟩ := e
    rw [AffinityBonus.defined?, he]
    cases passion with
    | none => cases h
    | some passion =>
      cases score with
      | none => cases h
      | some score => exact definition?_named h
  · cases h

theorem definition?_signal (v : Value) (s : Signal)
    (h : (signalFiling (readEntry SignalEntry.ofValue? v)).bid.definition? = some s) :
    Signal.defined? v = some s := by
  rw [readEntry] at h
  split at h
  · rename_i e he
    rw [signalFiling, SignalEntry.filing] at h
    rw [Signal.defined?, he, Option.bind_some]
    cases hs : e.complete? with
    | none =>
      rw [hs, definition?_decline] at h
      cases h
    | some t =>
      rw [hs] at h
      exact definition?_named h
  · rw [signalFiling, Filing.unread, definition?_decline] at h
    cases h

theorem definition?_rule (r : Registry) (v : Value) (q : Rule)
    (h : (ruleFiling r (readEntry RuleEntry.ofValue? v)).bid.definition? = some q) :
    Rule.defined? v = some q := by
  rw [readEntry] at h
  split at h
  · rename_i e he
    rw [Rule.defined?, he]
    exact definition?_named h
  · rw [ruleFiling, Filing.unread, definition?_decline] at h
    cases h

/-! ### Whole documents -/

/-- Nothing is reported of a document just if there are as many definitions of
    every kind as there are entries, and none is invalid. -/
theorem issues_ofDocument_iff (d : Document) :
    (ofDocument d).issues = [] ↔ (ofDocument d).Counts d ∧ (ofDocument d).invalidCount = 0 := by
  rw [ofDocument_eq]
  have hsound := Filings.sound_ofDocument d
  have hcategories := unreported_iff .category Category.name Category.ofValue?
    heard_categoryFiling d.categories
  have hbonuses := unreported_iff .affinityBonus AffinityBonus.name BonusEntry.ofValue?
    heard_bonusFiling d.bonuses
  have hsignals := unreported_iff .signal Signal.name SignalEntry.ofValue?
    heard_signalFiling d.signals
  have hrules := unreported_iff .rule Rule.name RuleEntry.ofValue? (heard_ruleFiling
    (checkedAgainst (Filings.ofDocument d).categories (Filings.ofDocument d).signals)) d.rules
  -- Every kind has two parts of the issues: of what was not read, and of what was filed.
  have hissues : (Filings.ofDocument d).registry.issues = (Filings.ofDocument d).issues := rfl
  rw [hissues, Filings.issues]
  simp only [List.append_eq_nil_iff]
  constructor
  · rintro ⟨⟨⟨⟨hunread, hc⟩, hb⟩, hs⟩, hr⟩
    simp only [Filings.ofDocument, List.append_eq_nil_iff] at hunread
    obtain ⟨⟨⟨huc, hub⟩, hus⟩, hur⟩ := hunread
    have hsignals := hsignals.1 ⟨hus, hs⟩
    have hrules := hrules.1 ⟨hur, hr⟩
    exact ⟨⟨hsignals.1, hrules.1, (hcategories.1 ⟨huc, hc⟩).1, (hbonuses.1 ⟨hub, hb⟩).1⟩,
      Nat.add_eq_zero_iff.2 ⟨hsignals.2, hrules.2⟩⟩
  · rintro ⟨hcounts, hinvalid⟩
    obtain ⟨hsinvalid, hrinvalid⟩ := Nat.add_eq_zero_iff.1 hinvalid
    -- Of categories and bonuses nothing is ever invalid.
    obtain ⟨huc, hc⟩ :=
      hcategories.2 ⟨hcounts.categories, congrArg List.length hsound.plain_categories.invalid⟩
    obtain ⟨hub, hb⟩ :=
      hbonuses.2 ⟨hcounts.bonuses, congrArg List.length hsound.plain_bonuses.invalid⟩
    obtain ⟨hus, hs⟩ := hsignals.2 ⟨hcounts.signals, hsinvalid⟩
    obtain ⟨hur, hr⟩ := hrules.2 ⟨hcounts.rules, hrinvalid⟩
    refine ⟨⟨⟨⟨?_, hc⟩, hb⟩, hs⟩, hr⟩
    simp only [Filings.ofDocument, List.append_eq_nil_iff]
    exact ⟨⟨⟨huc, hub⟩, hus⟩, hur⟩

/-- With as many definitions of every kind as there are entries, all entries are
    stored in their order. -/
theorem Counts.stores {d : Document} (h : (ofDocument d).Counts d) : (ofDocument d).Stores d := by
  rw [ofDocument_eq] at h ⊢
  exact ⟨map_defs_book definition?_signal h.signals, map_defs_book (definition?_rule _) h.rules,
    map_defs_book definition?_category h.categories, map_defs_book definition?_bonus h.bonuses⟩

theorem Stores.counts {r : Registry} {d : Document} (h : r.Stores d) : r.Counts d where
  signals := by simpa using congrArg List.length h.signals
  rules := by simpa using congrArg List.length h.rules
  categories := by simpa using congrArg List.length h.categories
  bonuses := by simpa using congrArg List.length h.bonuses

/-! ### Texts and files -/

/-- The document in a text, if it is one. -/
def documentOf? (text : String) : Option Document := (Toml.read? text).bind Document.ofValue?

theorem ofText_eq_ok_iff {text : String} {r : Registry} :
    ofText text = .ok r ↔ ∃ d, documentOf? text = some d ∧ r = ofDocument d := by
  rw [ofText, documentOf?]
  cases (Toml.read? text).bind Document.ofValue? with
  | none => simp
  | some d => simp [eq_comm]

theorem load_eq_ok_iff {content : Option ByteArray} {r : Registry} :
    load content = .ok r ↔ ∃ text, fileText? content = some text ∧ ofText text = .ok r := by
  rw [load]
  cases fileText? content with
  | none => simp
  | some text => simp

/-- The command succeeds just if there is no issue with the registry. -/
theorem exit_validate_iff (files : CommandLine.Files) (name : String) :
    (CommandLine.validate files name).exit = 0 ↔
      ∃ r, load (files name) = .ok r ∧ r.issues = [] := by
  rw [CommandLine.validate]
  cases load (files name) with
  | error issue => simp [CommandLine.definitionFailure, CommandLine.Outcome.failure]
  | ok r =>
    simp only [Except.ok.injEq, exists_eq_left', List.isEmpty_iff]
    split
    · rename_i h
      exact iff_of_true rfl h
    · rename_i h
      exact iff_of_false Nat.one_ne_zero h

/-- The same as a request, for which there has to be a configuration too. -/
theorem exit_run_validate_iff (files : CommandLine.Files) (config : Option String) (name : String) :
    (CommandLine.Request.run files ⟨config, .validate name⟩).exit = 0 ↔
      (∃ c, CommandLine.configOf files config = .ok c) ∧
        ∃ r, load (files name) = .ok r ∧ r.issues = [] := by
  rw [CommandLine.Request.run, ← exit_validate_iff]
  cases CommandLine.configOf files config with
  | error e => simp [CommandLine.configFailure, CommandLine.Outcome.failure]
  | ok c => simp

/-- There is no issue with the registry of a text just if it has stored as many
    definitions of every kind as there are entries, and none of them is invalid.
    Then it has stored those that the entries define, in their order. And to
    validate a file succeeds just for a text of which nothing is lost like that. -/
theorem nothing_lost :
    (∀ text d, documentOf? text = some d → ∃ r, ofText text = .ok r ∧
      (r.issues = [] ↔ r.Counts d ∧ r.invalidCount = 0) ∧ (r.Counts d ↔ r.Stores d)) ∧
    ∀ files config name, (CommandLine.Request.run files ⟨config, .validate name⟩).exit = 0 ↔
      (∃ c, CommandLine.configOf files config = .ok c) ∧
        ∃ text d r, fileText? (files name) = some text ∧ documentOf? text = some d ∧
          ofText text = .ok r ∧ r.Stores d ∧ r.invalidCount = 0 := by
  have hstores (d : Document) : (ofDocument d).Counts d ↔ (ofDocument d).Stores d :=
    ⟨Counts.stores, Stores.counts⟩
  refine ⟨fun text d hd => ⟨ofDocument d, ofText_eq_ok_iff.2 ⟨d, hd, rfl⟩,
    issues_ofDocument_iff d, hstores d⟩, fun files config name => ?_⟩
  rw [exit_run_validate_iff]
  refine and_congr_right fun _ => ?_
  constructor
  · rintro ⟨r, hload, hissues⟩
    obtain ⟨text, htext, hr⟩ := load_eq_ok_iff.1 hload
    obtain ⟨d, hd, rfl⟩ := ofText_eq_ok_iff.1 hr
    obtain ⟨hcounts, hinvalid⟩ := (issues_ofDocument_iff d).1 hissues
    exact ⟨text, d, ofDocument d, htext, hd, hr, hcounts.stores, hinvalid⟩
  · rintro ⟨text, d, r, htext, hd, hr, hall, hinvalid⟩
    obtain rfl : r = ofDocument d := by
      obtain ⟨d', hd', rfl⟩ := ofText_eq_ok_iff.1 hr
      rw [Option.some.inj (hd'.symm.trans hd)]
    exact ⟨ofDocument d, load_eq_ok_iff.2 ⟨text, htext, hr⟩,
      (issues_ofDocument_iff d).2 ⟨hall.counts, hinvalid⟩⟩

/-- Of two categories both are stored, and if they share a name there is an issue. -/
theorem nothing_lost_stew :
    let text (second : String) :=
      "[[category]]\nname = \"Stew\"\n[[category]]\nname = \"" ++ second ++ "\""
    (∃ d r, documentOf? (text "Soup") = some d ∧ ofText (text "Soup") = .ok r ∧
      r.issues = [] ∧ r.Stores d) ∧
    ∃ d r, documentOf? (text "Stew") = some d ∧ ofText (text "Stew") = .ok r ∧
      r.issues ≠ [] ∧ ¬r.Stores d := by
  intro text
  constructor
  · have hkept : ((documentOf? (text "Soup")).any fun d =>
        (ofDocument d).issues.isEmpty) = true := by
      decide +kernel
    obtain ⟨d, hd, hissues⟩ := (Option.any_eq_true _ _).1 hkept
    obtain ⟨r, hr, hiff, hstores⟩ := nothing_lost.1 _ d hd
    obtain ⟨d', hd', rfl⟩ := ofText_eq_ok_iff.1 hr
    obtain rfl : d = d' := Option.some.inj (hd.symm.trans hd')
    have hnone := List.isEmpty_iff.1 hissues
    exact ⟨d, _, hd, hr, hnone, hstores.1 (hiff.1 hnone).1⟩
  · have hlost : ((documentOf? (text "Stew")).any fun d =>
        (ofDocument d).categories.length != d.categories.length) = true := by
      decide +kernel
    obtain ⟨d, hd, hcategories⟩ := (Option.any_eq_true _ _).1 hlost
    obtain ⟨r, hr, hiff, hstores⟩ := nothing_lost.1 _ d hd
    obtain ⟨d', hd', rfl⟩ := ofText_eq_ok_iff.1 hr
    obtain rfl : d = d' := Option.some.inj (hd.symm.trans hd')
    have hcounts : ¬(ofDocument d).Counts d :=
      fun h => absurd h.categories (by simpa using hcategories)
    exact ⟨d, _, hd, hr, fun h => hcounts (hiff.1 h).1, fun h => hcounts (hstores.2 h)⟩

end Registry
end WorkPriority
