import WorkPriority.Proofs.Registries

/-!
# The first entry of a name

A name of a signal or rule may be that of several entries of a document, and also
of entries that are of no use: some that lack a source, and some that are not even
of the form of their kind. The first of them decides what the name stands for, and
the others change nothing but the issues (`Registry.first_entry_decides`).

Every entry that has a name bids for it, and no entry bids for the name of
another, so what is said of bids in a ledger can be said of entries
(`Registry.name?_signalFiling`, `Registry.name?_ruleFiling`).
-/

namespace WorkPriority

/-- An entry of a list is the first of which something holds. -/
structure FirstAt (p : Value → Prop) (vs pre : List Value) (v : Value) (post : List Value) :
    Prop where
  split : vs = pre ++ v :: post
  before : ∀ u ∈ pre, ¬p u
  here : p v

namespace Registry

/-! ### The names of entries -/

/-- An entry of a kind has a name: the one that was read with it, or the one that
    is left of it if it was not read. -/
def HasName {β : Type} (read? : Value → Option β) (nameOf : β → String) (name : String)
    (v : Value) : Prop :=
  match read? v with
  | some e => nameOf e = name
  | none => entryName? v = some name

/-- An entry of a signal has a name. -/
abbrev SignalHasName : String → Value → Prop := HasName SignalEntry.ofValue? SignalEntry.name

/-- An entry of a rule has a name. -/
abbrev RuleHasName : String → Value → Prop := HasName RuleEntry.ofValue? RuleEntry.name

theorem name?_claim {α : Type} (nameOf : α → String) (n : Option String) :
    (Filing.claim n).name? nameOf = n := by
  cases n with
  | none => rfl
  | some n => rfl

/-- The name that is left of an entry is not blank. -/
theorem not_blank_of_entryName? {v : Value} {name : String} (h : entryName? v = some name) :
    ¬Text.isBlankText name = true := by
  rw [entryName?] at h
  obtain ⟨fs, -, h⟩ := Option.bind_eq_some_iff.1 h
  obtain ⟨x, -, h⟩ := Option.bind_eq_some_iff.1 h
  split at h
  · split at h
    · cases h
    · obtain rfl := Option.some.inj h
      assumption
  · cases h

/-- Nor is a name that is bid for by what has to have one. -/
theorem not_blank_of_named {α : Type} {kind : EntryKind} {nameOf : α → String} {f : Filing α}
    {n name : String} (hf : f.bid.name? nameOf = some n)
    (h : (Filing.named kind n f).bid.name? nameOf = some name) :
    ¬Text.isBlankText name = true := by
  rw [Filing.named] at h
  split at h
  · cases h
  · obtain rfl := Option.some.inj (hf.symm.trans h)
    assumption

/-- No entry of a signal bids for a blank name. -/
theorem not_blank_of_signalBid {v : Value} {name : String}
    (h : (signalFiling (readEntry SignalEntry.ofValue? v)).bid.name? Signal.name = some name) :
    ¬Text.isBlankText name = true := by
  rw [readEntry] at h
  cases hv : SignalEntry.ofValue? v with
  | none =>
    rw [hv] at h
    exact not_blank_of_entryName? ((name?_claim Signal.name _).symm.trans h)
  | some e =>
    rw [hv] at h
    obtain ⟨n, source, aggregation, filter, locatable, individualizable, urgent⟩ := e
    cases source with
    | some source => exact not_blank_of_named rfl h
    | none =>
      change (Filing.claim (if Text.isBlankText n then none else some n)).name? Signal.name = _ at h
      rw [name?_claim] at h
      split at h
      · cases h
      · obtain rfl := Option.some.inj h
        assumption

/-- Nor does an entry of a rule. -/
theorem not_blank_of_ruleBid (r : Registry) {v : Value} {name : String}
    (h : (ruleFiling r (readEntry RuleEntry.ofValue? v)).bid.name? Rule.name = some name) :
    ¬Text.isBlankText name = true := by
  rw [readEntry] at h
  cases hv : RuleEntry.ofValue? v with
  | none =>
    rw [hv] at h
    exact not_blank_of_entryName? ((name?_claim Rule.name _).symm.trans h)
  | some e =>
    rw [hv] at h
    exact not_blank_of_named rfl h

section Names

variable {name : String} (hname : ¬Text.isBlankText name = true)

include hname

/-- What has a name that is not blank bids for it. -/
theorem name?_named {α : Type} {kind : EntryKind} {nameOf : α → String} {f : Filing α} {n : String}
    (hf : f.bid.name? nameOf = some n) :
    (Filing.named kind n f).bid.name? nameOf = some name ↔ n = name := by
  rw [Filing.named]
  split
  · rename_i hblank
    exact iff_of_false (Option.some_ne_none name).symm fun h => hname (h ▸ hblank)
  · rw [hf, Option.some.injEq]

theorem name?_signalFiling (v : Value) :
    (signalFiling (readEntry SignalEntry.ofValue? v)).bid.name? Signal.name = some name ↔
      SignalHasName name v := by
  rw [SignalHasName, HasName, readEntry]
  cases SignalEntry.ofValue? v with
  | none => exact iff_of_eq (congrArg (· = some name) (name?_claim Signal.name _))
  | some e =>
    obtain ⟨n, source, aggregation, filter, locatable, individualizable, urgent⟩ := e
    cases source with
    | some source => exact name?_named hname rfl
    | none =>
      -- Without a source the entry bids for its name all the same.
      change (Filing.claim (if Text.isBlankText n then none else some n)).name? Signal.name = _ ↔ _
      rw [name?_claim]
      split
      · rename_i hblank
        exact iff_of_false (Option.some_ne_none name).symm fun h => hname (h ▸ hblank)
      · exact Option.some_inj

theorem name?_ruleFiling (r : Registry) (v : Value) :
    (ruleFiling r (readEntry RuleEntry.ofValue? v)).bid.name? Rule.name = some name ↔
      RuleHasName name v := by
  rw [RuleHasName, HasName, readEntry]
  cases RuleEntry.ofValue? v with
  | none => exact iff_of_eq (congrArg (· = some name) (name?_claim Rule.name _))
  | some e => exact name?_named hname rfl

/-! ### The bids of entries -/

/-- What is bid with a name is the signal of the entry that has it, if it defines one. -/
theorem bid_signalFiling {v : Value} (h : SignalHasName name v) :
    (signalFiling (readEntry SignalEntry.ofValue? v)).bid =
      match Signal.defined? v with
      | some s => .define s s.source.missingField?.isNone
      | none => .claim name := by
  rw [SignalHasName, HasName] at h
  rw [readEntry, Signal.defined?]
  cases hv : SignalEntry.ofValue? v with
  | none =>
    rw [hv] at h
    change Filing.claim (entryName? v) = _
    rw [h]
    rfl
  | some e =>
    rw [hv] at h
    obtain ⟨n, source, aggregation, filter, locatable, individualizable, urgent⟩ := e
    obtain rfl : n = name := h
    cases source with
    | some source =>
      change (Filing.named .signal n (.define _ [] _)).bid = .define _ source.missingField?.isNone
      rw [Filing.named, if_neg hname]
      cases hfield : source.missingField? <;> simp [Filing.bid]
    | none =>
      change Filing.claim (if Text.isBlankText n then none else some n) = _
      rw [if_neg hname]
      rfl

/-- What is bid with a name is the rule of the entry that has it, if it was read. -/
theorem bid_ruleFiling (r : Registry) {v : Value} (h : RuleHasName name v) :
    (ruleFiling r (readEntry RuleEntry.ofValue? v)).bid =
      match RuleEntry.ofValue? v with
      | some e => .define e.complete.1 (e.complete.2 ++ r.ruleIssues e.complete.1).isEmpty
      | none => .claim name := by
  rw [RuleHasName, HasName] at h
  rw [readEntry]
  cases hv : RuleEntry.ofValue? v with
  | none =>
    rw [hv] at h
    change Filing.claim (entryName? v) = _
    rw [h]
    rfl
  | some e =>
    rw [hv] at h
    obtain rfl : e.name = name := h
    change (Filing.named .rule e.name _).bid = _
    rw [Filing.named, if_neg hname, Rule.filing, Filing.bid, List.append_nil]

end Names

/-! ### The first entry of a kind -/

section Kind

variable {α β : Type} {read? : Value → Option β} {file : ReadEntry β → Filing α}
  {nameOf : α → String} {name : String} {p : Value → Prop} {vs pre post : List Value} {v : Value}
  (hp : ∀ v, (file (readEntry read? v)).bid.name? nameOf = some name ↔ p v)
  (h : FirstAt p vs pre v post)

theorem book_readEntries (vs : List Value) :
    Filing.book nameOf ((readEntries read? vs).map file) =
      ({} : Ledger α).grantAll nameOf (vs.map fun v => (file (readEntry read? v)).bid) := by
  rw [Filing.book, readEntries, List.map_map, List.map_map]
  rfl

theorem malformed_insert (read? : Value → Option β) (kind : EntryKind) (xs : List Value)
    (w : Value) (ys : List Value) :
    (malformed kind (readEntries read? (xs ++ ys))).Sublist
      (malformed kind (readEntries read? (xs ++ w :: ys))) :=
  (((List.sublist_cons_self w ys).append_left xs).map _).filterMap _

include hp h

theorem not_bid_of_first :
    ∀ b ∈ pre.map fun v => (file (readEntry read? v)).bid, b.name? nameOf ≠ some name :=
  List.forall_mem_map.2 fun u hu hname => h.before u hu ((hp u).1 hname)

/-- A definition of the first entry is what is found under the name. -/
theorem find?_of_first_define {a : α} {valid : Bool}
    (hv : (file (readEntry read? v)).bid = .define a valid) :
    (Filing.book nameOf ((readEntries read? vs).map file)).find? name = some a ∧
      (Filing.book nameOf ((readEntries read? vs).map file)).valid name = valid := by
  have ha : nameOf a = name := by
    have hname := (hp v).2 h.here
    rw [hv] at hname
    exact Option.some.inj hname
  rw [book_readEntries, h.split, List.map_append, List.map_cons, hv]
  exact Ledger.find?_of_define (not_bid_of_first hp h) ha valid

/-- If the first entry has no definition, nothing is found under the name. -/
theorem find?_of_first_claim (hv : (file (readEntry read? v)).bid = .claim name) :
    (Filing.book nameOf ((readEntries read? vs).map file)).find? name = none ∧
      (Filing.book nameOf ((readEntries read? vs).map file)).valid name = false ∧
      name ∈ (Filing.book nameOf ((readEntries read? vs).map file)).invalid := by
  rw [book_readEntries, h.split, List.map_append, List.map_cons, hv]
  exact Ledger.find?_of_claim (not_bid_of_first hp h)

end Kind

section Later

variable {α β : Type} {read? : Value → Option β} {file : ReadEntry β → Filing α}
  {nameOf : α → String} {name : String} {p : Value → Prop} {xs : List Value} {w : Value}
  (hp : ∀ v, (file (readEntry read? v)).bid.name? nameOf = some name ↔ p v)
  (hxs : ∃ v ∈ xs, p v) (hw : p w)

include hp hxs

theorem exists_bid_before :
    ∃ b ∈ xs.map fun v => (file (readEntry read? v)).bid, b.name? nameOf = some name := by
  obtain ⟨v, hv, hpv⟩ := hxs
  exact ⟨_, List.mem_map_of_mem hv, (hp v).2 hpv⟩

/-- Up to a later entry the name is taken. -/
theorem taken_book : (Filing.book nameOf ((readEntries read? xs).map file)).taken name = true := by
  rw [book_readEntries, Ledger.taken_grantAll]
  exact .inr (exists_bid_before hp hxs)

include hw

/-- A later entry is not granted anything. -/
theorem grant_later :
    (Filing.book nameOf ((readEntries read? xs).map file)).grant nameOf
      (file (readEntry read? w)).bid = Filing.book nameOf ((readEntries read? xs).map file) :=
  Ledger.grant_of_taken ((hp w).2 hw) (taken_book hp hxs)

theorem book_insert (ys : List Value) :
    Filing.book nameOf ((readEntries read? (xs ++ w :: ys)).map file) =
    Filing.book nameOf ((readEntries read? (xs ++ ys)).map file) := by
  rw [book_readEntries, book_readEntries, List.map_append, List.map_append, List.map_cons]
  exact Ledger.grantAll_insert (exists_bid_before hp hxs) ((hp w).2 hw)

/-- What is reported of a later entry is added to what is reported of the others. -/
theorem reports_insert (kind : EntryKind) (ys : List Value) :
    (Filing.reports kind nameOf {} ((readEntries read? (xs ++ ys)).map file)).Sublist
        (Filing.reports kind nameOf {} ((readEntries read? (xs ++ w :: ys)).map file)) ∧
      (Filing.reports kind nameOf {} ((readEntries read? (xs ++ ys)).map file)).length <
        (Filing.reports kind nameOf {} ((readEntries read? (xs ++ w :: ys)).map file)).length := by
  have hreport := List.length_pos_iff.2
    (Filing.report_ne_nil kind ((hp w).2 hw) (taken_book hp hxs))
  obtain ⟨hsub, hlength⟩ := Filing.reports_insert kind ((readEntries read? ys).map file)
    (grant_later hp hxs hw)
  simp only [Filing.book, readEntries, List.map_append, List.map_cons] at hreport hsub hlength ⊢
  exact ⟨hsub, by omega⟩

end Later

/-! ### Whole documents -/

/-- Nothing of a registry is changed, but issues are added. So whatever does not
    read issues is the same: what is found, what is valid, the plans, the counts. -/
structure IssuesAdded (r r' : Registry) : Prop where
  rest : r' = { r with issues := r'.issues }
  kept : r.issues.Sublist r'.issues
  added : r.issues.length < r'.issues.length

/-- What is filed for two registries, one of which has later entries of signals or
    rules. -/
structure FiledLater (F G : Filings) : Prop where
  unread : F.unread.Sublist G.unread
  categories : G.categories = F.categories
  bonuses : G.bonuses = F.bonuses
  signals : Filing.book Signal.name G.signals = Filing.book Signal.name F.signals
  rules : Filing.book Rule.name G.rules = Filing.book Rule.name F.rules
  ofSignals : (Filing.reports .signal Signal.name {} F.signals).Sublist
    (Filing.reports .signal Signal.name {} G.signals)
  ofRules : (Filing.reports .rule Rule.name {} F.rules).Sublist
    (Filing.reports .rule Rule.name {} G.rules)
  more : (Filing.reports .signal Signal.name {} F.signals).length +
      (Filing.reports .rule Rule.name {} F.rules).length <
    (Filing.reports .signal Signal.name {} G.signals).length +
      (Filing.reports .rule Rule.name {} G.rules).length

theorem FiledLater.issuesAdded {F G : Filings} (h : FiledLater F G) :
    IssuesAdded F.registry G.registry where
  rest := by
    rw [Filings.registry, h.categories, h.bonuses, h.signals, h.rules]
    rfl
  kept := by
    change F.issues.Sublist G.issues
    rw [Filings.issues, Filings.issues, h.categories, h.bonuses]
    exact (((h.unread.append_right _).append_right _).append h.ofSignals).append h.ofRules
  added := by
    change F.issues.length < G.issues.length
    have hunread := h.unread.length_le
    have hmore := h.more
    simp only [Filings.issues, h.categories, h.bonuses, List.length_append]
    omega

/-- A name of a signal stands for what an entry says: the signal that the entry
    defines, valid unless its source lacks something, or for nothing. -/
def SignalStandsFor (r : Registry) (name : String) (v : Value) : Prop :=
  match Signal.defined? v with
  | some s => r.signal? name = some s ∧
      (r.isValidSignal name = true ↔ s.source.missingField? = none)
  | none => r.signal? name = none ∧ r.isValidSignal name = false ∧ name ∈ r.invalidSignals

/-- A name of a rule stands for what an entry says: its rule, valid unless
    something is wrong with its intervals or found wrong with the rule, or for nothing. -/
def RuleStandsFor (r : Registry) (name : String) (v : Value) : Prop :=
  match RuleEntry.ofValue? v with
  | some e => r.rule? name = some e.complete.1 ∧
      (r.isValidRule name = true ↔ e.complete.2 = [] ∧ r.ruleIssues e.complete.1 = [])
  | none => r.rule? name = none ∧ r.isValidRule name = false ∧ name ∈ r.invalidRules

section Documents

variable {name : String} (hname : ¬Text.isBlankText name = true) {xs ys : List Value} {w : Value}

include hname

/-- A later entry of a signal only adds issues. -/
theorem issuesAdded_signal (d : Document) (hd : d.signals = xs ++ ys)
    (hxs : ∃ v ∈ xs, SignalHasName name v) (hw : SignalHasName name w) :
    IssuesAdded (ofDocument d) (ofDocument { d with signals := xs ++ w :: ys }) := by
  obtain ⟨signals, rules, categories, bonuses⟩ := d
  obtain rfl : signals = xs ++ ys := hd
  have hp := name?_signalFiling hname
  have hbook := book_insert hp hxs hw ys
  obtain ⟨hkept, hadded⟩ := reports_insert hp hxs hw .signal ys
  have hunread := malformed_insert SignalEntry.ofValue? .signal xs w ys
  -- Rules are checked against what is granted, not against what is filed.
  have hrules : (Filings.ofDocument ⟨xs ++ w :: ys, rules, categories, bonuses⟩).rules =
      (Filings.ofDocument ⟨xs ++ ys, rules, categories, bonuses⟩).rules := by
    simp only [Filings.ofDocument, checkedAgainst, hbook]
  rw [ofDocument_eq, ofDocument_eq]
  refine FiledLater.issuesAdded ⟨(hunread.append_left _).append_right _, rfl, rfl, hbook,
    congrArg _ hrules, hkept, ?_, ?_⟩
  · rw [hrules]
  · rw [hrules]
    exact Nat.add_lt_add_right hadded _

/-- A later entry of a rule only adds issues. -/
theorem issuesAdded_rule (d : Document) (hd : d.rules = xs ++ ys)
    (hxs : ∃ v ∈ xs, RuleHasName name v) (hw : RuleHasName name w) :
    IssuesAdded (ofDocument d) (ofDocument { d with rules := xs ++ w :: ys }) := by
  obtain ⟨signals, rules, categories, bonuses⟩ := d
  obtain rfl : rules = xs ++ ys := hd
  have hp := name?_ruleFiling hname (checkedAgainst
    (Filings.ofDocument ⟨signals, xs ++ ys, categories, bonuses⟩).categories
    (Filings.ofDocument ⟨signals, xs ++ ys, categories, bonuses⟩).signals)
  have hbook := book_insert hp hxs hw ys
  obtain ⟨hkept, hadded⟩ := reports_insert hp hxs hw .rule ys
  have hunread := malformed_insert RuleEntry.ofValue? .rule xs w ys
  rw [ofDocument_eq, ofDocument_eq]
  exact FiledLater.issuesAdded ⟨hunread.append_left _, rfl, rfl, rfl, hbook, .refl _, hkept,
    Nat.add_lt_add_left hadded _⟩

/-- A name of a signal stands for what the first entry of the name says. -/
theorem signalStandsFor_first {d : Document} {pre post : List Value} {v : Value}
    (h : FirstAt (SignalHasName name) d.signals pre v post) :
    SignalStandsFor (ofDocument d) name v := by
  have hp := name?_signalFiling hname
  have hbid := bid_signalFiling hname h.here
  rw [ofDocument_eq, SignalStandsFor]
  cases hv : Signal.defined? v with
  | none =>
    rw [hv] at hbid
    exact find?_of_first_claim hp h hbid
  | some s =>
    rw [hv] at hbid
    obtain ⟨hfind, hvalid⟩ := find?_of_first_define hp h hbid
    exact ⟨hfind, (Bool.eq_iff_iff.1 hvalid).trans Option.isNone_iff_eq_none⟩

/-- A name of a rule stands for what the first entry of the name says. -/
theorem ruleStandsFor_first {d : Document} {pre post : List Value} {v : Value}
    (h : FirstAt (RuleHasName name) d.rules pre v post) :
    RuleStandsFor (ofDocument d) name v := by
  have hp := name?_ruleFiling hname
    (checkedAgainst (Filings.ofDocument d).categories (Filings.ofDocument d).signals)
  have hbid := bid_ruleFiling hname
    (checkedAgainst (Filings.ofDocument d).categories (Filings.ofDocument d).signals) h.here
  rw [ofDocument_eq, RuleStandsFor]
  cases hv : RuleEntry.ofValue? v with
  | none =>
    rw [hv] at hbid
    exact find?_of_first_claim hp h hbid
  | some e =>
    rw [hv] at hbid
    obtain ⟨hfind, hvalid⟩ := find?_of_first_define hp h hbid
    refine ⟨hfind, (Bool.eq_iff_iff.1 hvalid).trans ?_⟩
    rw [List.isEmpty_iff, List.append_eq_nil_iff]
    rfl

end Documents

/-- A name stands for what its first entry says, and later entries of the name
    change nothing but the issues. In every loaded registry the indexes have the
    place of each name, which is that of one definition. -/
theorem first_entry_decides (d : Document) (name : String)
    (hname : ¬Text.isBlankText name = true) :
    (∀ pre v post, FirstAt (SignalHasName name) d.signals pre v post →
      SignalStandsFor (ofDocument d) name v ∧
        ∀ mid rest w, post = mid ++ rest → SignalHasName name w →
          IssuesAdded (ofDocument d)
            (ofDocument { d with signals := pre ++ v :: mid ++ w :: rest })) ∧
    (∀ pre v post, FirstAt (RuleHasName name) d.rules pre v post →
      RuleStandsFor (ofDocument d) name v ∧
        ∀ mid rest w, post = mid ++ rest → RuleHasName name w →
          IssuesAdded (ofDocument d)
            (ofDocument { d with rules := pre ++ v :: mid ++ w :: rest })) ∧
    ∀ r : Registry, r.Loaded →
      (∀ n i, r.signalIndex.get? n = some i ↔ (r.signals.map Signal.name)[i]? = some n) ∧
        ∀ n i, r.ruleIndex.get? n = some i ↔ (r.rules.map Rule.name)[i]? = some n := by
  -- The first entry is among those before a later one.
  have hmem (pre : List Value) (v : Value) (mid : List Value) : v ∈ pre ++ v :: mid :=
    List.mem_append_right pre List.mem_cons_self
  refine ⟨fun pre v post h => ⟨signalStandsFor_first hname h, ?_⟩,
    fun pre v post h => ⟨ruleStandsFor_first hname h, ?_⟩, fun r hr => ?_⟩
  · rintro mid rest w rfl hw
    refine issuesAdded_signal hname d ?_ ⟨v, hmem pre v mid, h.here⟩ hw
    rw [h.split, List.append_assoc, List.cons_append]
  · rintro mid rest w rfl hw
    refine issuesAdded_rule hname d ?_ ⟨v, hmem pre v mid, h.here⟩ hw
    rw [h.split, List.append_assoc, List.cons_append]
  · exact ⟨hr.distinct.signalIndex, hr.distinct.ruleIndex⟩

/-- The first entry of a signal lacks a source, and so its name stands for nothing,
    whether or not a later entry has one. And the rule of the same name stays as it
    is if there is a later entry that is not of the form of rules. -/
theorem first_entry_decides_pots :
    let source : Value := .table [("kind", .text "agent-count")]
    let v : Value := .table [("name", .text "pots")]
    let w : Value := .table [("name", .text "pots"), ("source", source)]
    let u : Value := .table [("name", .text "pots"), ("targets", .int 1)]
    let d : Document := { signals := [.int 1, v], rules := [v] }
    ¬Text.isBlankText "pots" = true ∧
      (FirstAt (SignalHasName "pots") d.signals [.int 1] v [] ∧ SignalHasName "pots" w ∧
        (ofDocument d).signal? "pots" = none ∧
        IssuesAdded (ofDocument d) (ofDocument { d with signals := [.int 1, v, w] })) ∧
      FirstAt (RuleHasName "pots") d.rules [] v [] ∧ RuleHasName "pots" u ∧
        ((ofDocument d).rule? "pots").isSome ∧
        IssuesAdded (ofDocument d) (ofDocument { d with rules := [v, u] }) := by
  intro source v w u d
  have hname : ¬Text.isBlankText "pots" = true := by decide
  have hsignal : FirstAt (SignalHasName "pots") d.signals [.int 1] v [] := by
    refine ⟨rfl, ?_, rfl⟩
    intro x hx
    obtain rfl := List.mem_singleton.1 hx
    exact nofun
  have hrule : FirstAt (RuleHasName "pots") d.rules [] v [] := ⟨rfl, nofun, rfl⟩
  have hw : SignalHasName "pots" w := rfl
  have hu : RuleHasName "pots" u := rfl
  obtain ⟨hsignals, hrules, -⟩ := first_entry_decides d "pots" hname
  obtain ⟨⟨hnone, -, -⟩, hlater⟩ := hsignals _ _ _ hsignal
  obtain ⟨⟨hsome, -⟩, hlater'⟩ := hrules _ _ _ hrule
  exact ⟨hname, ⟨hsignal, hw, hnone, hlater [] [] w rfl hw⟩, hrule, hu,
    Option.isSome_of_eq_some hsome, hlater' [] [] u rfl hu⟩

end Registry
end WorkPriority
