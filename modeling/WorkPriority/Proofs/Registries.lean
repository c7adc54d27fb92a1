import WorkPriority.Proofs.Intake

/-!
# Loaded registries

A host has a registry from a document or from definitions that are complete
(`Registry.Loaded`). However its entries were, in such a registry every name is
that of at most one signal, rule or category (`Registry.Loaded.distinct`): the
definitions were granted by ledgers, which give a name once. For signals and
rules that is what their indexes say, which have the place of each.
-/

namespace WorkPriority.Registry

/-- The registries that a host can have. -/
inductive Loaded : Registry → Prop
  | ofDocument (d : Document) : Loaded (ofDocument d)
  | ofParts (signals : List Signal) (rules : List Rule) (categories : List Category)
      (bonuses : List AffinityBonus) : Loaded (ofParts signals rules categories bonuses)

/-- No two signals, rules or categories share a name, and the indexes have the
    places of the signals and rules. -/
structure Distinct (r : Registry) : Prop where
  signalIndex : r.signalIndex.IsIndexOf (r.signals.map (·.name))
  ruleIndex : r.ruleIndex.IsIndexOf (r.rules.map (·.name))
  categories : (r.categories.map (·.name)).Nodup

theorem Distinct.signals {r : Registry} (hr : r.Distinct) : (r.signals.map (·.name)).Nodup :=
  hr.signalIndex.nodup

theorem Distinct.rules {r : Registry} (hr : r.Distinct) : (r.rules.map (·.name)).Nodup :=
  hr.ruleIndex.nodup

/-- The indexes are those of the ledgers, and names of categories are kept in a
    ledger too. -/
theorem Filings.Sound.distinct {F : Filings} (hF : F.Sound) : F.registry.Distinct where
  signalIndex := Ledger.indexed_grantAll Ledger.indexed_empty
  ruleIndex := Ledger.indexed_grantAll Ledger.indexed_empty
  categories := hF.plain_categories.indexed.nodup

/-- A loaded registry is that of what was filed for it. -/
theorem Loaded.exists_filings {r : Registry} (h : r.Loaded) :
    ∃ F : Filings, F.Sound ∧ r = F.registry := by
  cases h with
  | ofDocument d => exact ⟨_, Filings.sound_ofDocument d, ofDocument_eq d⟩
  | ofParts signals rules categories bonuses =>
    exact ⟨_, Filings.sound_ofParts signals rules categories bonuses,
      ofParts_eq signals rules categories bonuses⟩

/-- In a loaded registry names are given once. -/
theorem Loaded.distinct {r : Registry} (h : r.Loaded) : r.Distinct := by
  obtain ⟨F, hF, rfl⟩ := h.exists_filings
  exact hF.distinct

/-- A rule that is valid was checked, and nothing was found wrong with it. -/
theorem Loaded.ruleIssues_of_valid {r : Registry} (h : r.Loaded) {q : Rule}
    (hq : q ∈ r.validRules) : r.ruleIssues q = [] := by
  obtain ⟨F, hF, rfl⟩ := h.exists_filings
  obtain ⟨hmem, hvalid⟩ := List.mem_filter.1 hq
  have hinvalid : q.name ∉ (Filing.book Rule.name F.rules).invalid := by
    simpa [Filings.registry, ofLedgers] using hvalid
  obtain ⟨f, hf, hbid⟩ := List.mem_map.1 (Ledger.define_of_mem hmem hinvalid)
  exact hF.rules f hf q hbid

/-! ### Looking names up -/

theorem Distinct.signal?_eq_some_iff {r : Registry} (hr : r.Distinct) {name : String} {s : Signal} :
    r.signal? name = some s ↔ s ∈ r.signals ∧ s.name = name :=
  hr.signalIndex.bind_getElem?

theorem Distinct.rule?_eq_some_iff {r : Registry} (hr : r.Distinct) {name : String} {q : Rule} :
    r.rule? name = some q ↔ q ∈ r.rules ∧ q.name = name :=
  hr.ruleIndex.bind_getElem?

/-- A stored signal is the one found under its name. -/
theorem Distinct.signal?_of_mem {r : Registry} (hr : r.Distinct) {s : Signal}
    (hs : s ∈ r.signals) : r.signal? s.name = some s :=
  hr.signal?_eq_some_iff.2 ⟨hs, rfl⟩

theorem Distinct.isValidSignal_iff {r : Registry} (hr : r.Distinct) (name : String) :
    r.isValidSignal name = true ↔
      (∃ s ∈ r.signals, s.name = name) ∧ name ∉ r.invalidSignals :=
  Ledger.Indexed.valid_iff (l := ⟨r.signals, r.signalIndex, r.invalidSignals⟩) hr.signalIndex

/-- The valid rules are those of valid names. -/
theorem Distinct.isValidRule_iff {r : Registry} (hr : r.Distinct) (name : String) :
    r.isValidRule name = true ↔ ∃ q ∈ r.validRules, q.name = name := by
  rw [isValidRule, Bool.and_eq_true, hr.ruleIndex.has_iff, List.mem_map]
  constructor
  · rintro ⟨⟨q, hq, rfl⟩, hvalid⟩
    exact ⟨q, List.mem_filter.2 ⟨hq, hvalid⟩, rfl⟩
  · rintro ⟨q, hq, rfl⟩
    exact ⟨⟨q, List.mem_of_mem_filter hq, rfl⟩, (List.mem_filter.1 hq).2⟩

theorem Distinct.eq_of_signal {r : Registry} (hr : r.Distinct) {s t : Signal}
    (hs : s ∈ r.signals) (ht : t ∈ r.signals) (h : s.name = t.name) : s = t :=
  List.inj_on_of_nodup_map hr.signals hs ht h

theorem Distinct.eq_of_rule {r : Registry} (hr : r.Distinct) {p q : Rule} (hp : p ∈ r.rules)
    (hq : q ∈ r.rules) (h : p.name = q.name) : p = q :=
  List.inj_on_of_nodup_map hr.rules hp hq h

end WorkPriority.Registry
