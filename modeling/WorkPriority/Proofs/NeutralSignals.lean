import WorkPriority.Proofs.FirstEntry
import WorkPriority.Proofs.WholeCycles

/-!
# What invalid signals read as

A signal that is flagged invalid is meant to read as zero, wherever its value is
read: in what a cycle publishes, in the answer to a question, and in the look-up of
a rule. Entries of signals are of no use for one of three reasons (`SignalDefect`),
and these do not come to the same. An entry whose source lacks a field is stored,
and so there is a zero to read under its name. But an entry without a source, or
one that is not of the form of a signal, has its name and nothing else. What is
read under the name is then not zero, it is nothing (`Engine.reads_of_invalid`).

What is read only depends on whether there is a signal of the name
(`Engine.readsAs_after_normal`), and whether there is one on what is wrong with the
first entry of the name (`Registry.signal?_of_defect`).
-/

namespace WorkPriority

/-! ### What is wrong with entries -/

/-- Why an entry of a signal is of no use. -/
inductive SignalDefect where
  /-- It is not of the form of a signal. -/
  | malformed
  /-- It has no source. -/
  | sourceless
  /-- Its source lacks a field. -/
  | lacks (field : String)
deriving DecidableEq

namespace SignalDefect

/-- Why an entry of a signal is of no use, if it is. -/
def of? (v : Value) : Option SignalDefect :=
  match SignalEntry.ofValue? v with
  | none => some malformed
  | some e =>
    match e.source with
    | none => some sourceless
    | some source => source.missingField?.map lacks

/-- What is read under the name of an entry of no use. -/
def reading : SignalDefect → Option (SignalValue Float)
  | malformed | sourceless => none
  | lacks _ => some .zero

/-- An entry is of no use if it does not define a signal, or one whose source
    lacks a field. -/
theorem of?_eq_none_iff (v : Value) :
    of? v = none ↔ ∃ s, Signal.defined? v = some s ∧ s.source.missingField? = none := by
  rw [of?, Signal.defined?]
  cases SignalEntry.ofValue? v with
  | none => simp
  | some e =>
    obtain ⟨name, source, aggregation, filter, locatable, individualizable, urgent⟩ := e
    cases source with
    | none => simp [SignalEntry.complete?]
    | some source => simp [SignalEntry.complete?]

/-- There is something to read under the name of an entry if it defines a signal. -/
theorem reading_of_defect {v : Value} {x : SignalDefect} (h : of? v = some x) :
    x.reading = (Signal.defined? v).map fun _ => .zero := by
  rw [of?] at h
  rw [Signal.defined?]
  cases hv : SignalEntry.ofValue? v with
  | none =>
    rw [hv] at h
    obtain rfl := Option.some.inj h
    rfl
  | some e =>
    rw [hv] at h
    obtain ⟨name, source, aggregation, filter, locatable, individualizable, urgent⟩ := e
    cases source with
    | none =>
      obtain rfl := Option.some.inj h
      rfl
    | some source =>
      obtain ⟨field, -, rfl⟩ := Option.map_eq_some_iff.1 h
      rfl

end SignalDefect

namespace Registry

/-- The first entry of a name is of no use. -/
def FirstIsDefect (d : Document) (name : String) (x : SignalDefect) : Prop :=
  ∃ pre v post, FirstAt (SignalHasName name) d.signals pre v post ∧ SignalDefect.of? v = some x

/-! ### Which names are invalid -/

/-- An entry has one name. -/
theorem SignalHasName.unique {n name : String} {v : Value} (h : SignalHasName n v)
    (h' : SignalHasName name v) : n = name := by
  rw [SignalHasName, HasName] at h h'
  cases hv : SignalEntry.ofValue? v with
  | none =>
    rw [hv] at h h'
    exact Option.some.inj (h.symm.trans h')
  | some e =>
    rw [hv] at h h'
    exact h.symm.trans h'

/-- Of the values of a list of which something holds, one is the first. -/
theorem exists_firstAt {p : Value → Prop} {vs : List Value} (h : ∃ v ∈ vs, p v) :
    ∃ pre v post, FirstAt p vs pre v post := by
  induction vs with
  | nil => simp at h
  | cons u us ih =>
    by_cases hu : p u
    · exact ⟨[], u, us, rfl, nofun, hu⟩
    · rw [List.exists_mem_cons_iff, or_iff_right hu] at h
      obtain ⟨pre, v, post, rfl, hpre, hv⟩ := ih h
      exact ⟨u :: pre, v, post, rfl, List.forall_mem_cons.2 ⟨hu, hpre⟩, hv⟩

/-- Whether there is a signal of a name depends on what is wrong with its first entry. -/
theorem signal?_of_defect {d : Document} {name : String} (hname : ¬Text.isBlankText name = true)
    {x : SignalDefect} (h : FirstIsDefect d name x) :
    ((ofDocument d).signal? name).map (fun _ => .zero) = x.reading ∧
      name ∈ (ofDocument d).invalidSignals := by
  obtain ⟨pre, v, post, hfirst, hx⟩ := h
  have hfor := signalStandsFor_first hname hfirst
  rw [SignalStandsFor] at hfor
  rw [SignalDefect.reading_of_defect hx]
  cases hv : Signal.defined? v with
  | none =>
    rw [hv] at hfor
    exact ⟨congrArg (Option.map _) hfor.1, hfor.2.2⟩
  | some s =>
    rw [hv] at hfor
    obtain ⟨hs, hvalid⟩ := hfor
    refine ⟨congrArg (Option.map _) hs, ?_⟩
    by_contra hmem
    -- The signal would be valid, and the entry would be in order.
    have hd : (ofDocument d).Distinct := (Loaded.ofDocument d).distinct
    have hlacks := hvalid.1
      ((hd.isValidSignal_iff name).2 ⟨⟨s, hd.signal?_eq_some_iff.1 hs⟩, hmem⟩)
    have hnone := (SignalDefect.of?_eq_none_iff v).2 ⟨s, hv, hlacks⟩
    exact absurd (hnone.symm.trans hx) (Option.some_ne_none x).symm

/-- The names of invalid signals are those of which the first entry is of no use. -/
theorem mem_invalidSignals_iff (d : Document) (name : String) :
    name ∈ (ofDocument d).invalidSignals ↔
      ¬Text.isBlankText name = true ∧ ∃ x, FirstIsDefect d name x := by
  constructor
  · intro h
    -- An entry has bid for the name.
    have htaken : (Filing.book Signal.name (Filings.ofDocument d).signals).taken name = true := by
      rw [Ledger.taken_eq_true]
      rw [ofDocument_eq] at h
      exact .inr h
    rw [Filings.ofDocument, book_readEntries, Ledger.taken_grantAll] at htaken
    obtain h' | ⟨b, hb, hbid⟩ := htaken
    · exact absurd h' Bool.false_ne_true
    obtain ⟨u, hu, rfl⟩ := List.mem_map.1 hb
    have hname := not_blank_of_signalBid hbid
    obtain ⟨pre, v, post, hfirst⟩ :=
      exists_firstAt ⟨u, hu, (name?_signalFiling hname u).1 hbid⟩
    refine ⟨hname, ?_⟩
    cases hx : SignalDefect.of? v with
    | some x => exact ⟨x, pre, v, post, hfirst, hx⟩
    | none =>
      -- A first entry that is in order makes the name valid.
      obtain ⟨s, hs, hlacks⟩ := (SignalDefect.of?_eq_none_iff v).1 hx
      have hfor := signalStandsFor_first hname hfirst
      rw [SignalStandsFor, hs] at hfor
      have hd : (ofDocument d).Distinct := (Loaded.ofDocument d).distinct
      exact absurd h ((hd.isValidSignal_iff name).1 (hfor.2.2 hlacks)).2
  · rintro ⟨hname, x, hx⟩
    exact (signal?_of_defect hname hx).2

end Registry

namespace Engine

/-! ### What is read -/

/-- In an engine something is read under a name, or nothing: so it is published,
    given as an answer, and found by the look-ups of rules. -/
structure ReadsAs (e : Engine) (name : String) (v : Option (SignalValue Float)) : Prop where
  published : e.signals.value? name = v
  answered : ∀ w, (e.evaluate w name).1 = v
  lookedUp : ∀ w a, (e.context w).resolve? name .total a = v.map (·.total)

variable {e : Engine} {name : String}

/-- Under a name that is not valid a zero is read after a normal cycle if there is a
    signal of the name, and otherwise nothing. -/
theorem readsAs_after_normal (hr : e.registry.Distinct)
    (hv : ¬e.registry.isValidSignal name = true) (w : World) :
    (e.after (.normal w)).ReadsAs name ((e.registry.signal? name).map fun _ => .zero) := by
  have hreg : (e.after (.normal w)).registry = e.registry := e.registry_after _
  have hpublished : (e.after (.normal w)).signals.value? name =
      (e.registry.signal? name).map fun _ => .zero := by
    cases hs : e.registry.signal? name with
    | some s =>
      obtain ⟨hmem, rfl⟩ := hr.signal?_eq_some_iff.1 hs
      rw [value?_after_of_covered hr (c := .normal w) hmem, refresh_fst, if_neg hv]
      rfl
    | none =>
      rw [Option.map_none, ← Option.not_isSome_iff_eq_none, value?_isSome_after_normal hr]
      rintro ⟨s, hmem, hn⟩
      have hfound := hr.signal?_eq_some_iff.2 ⟨hmem, hn⟩
      exact absurd (hs.symm.trans hfound) (Option.some_ne_none s).symm
  refine ⟨hpublished, fun w' => ?_, fun w' a => ?_⟩
  · rw [evaluate, hreg]
    cases e.registry.signal? name with
    | none => rfl
    | some s =>
      simp only [hv, Bool.false_eq_true, if_false]
      rfl
  · rw [← hpublished]
    change ((e.after (.normal w)).signals.value? name).bind _ = _
    cases (e.after (.normal w)).signals.value? name with
    | none => rfl
    | some v => rfl

/-- The names of invalid signals are those whose first entry is of no use. What is
    read under such a name after a normal cycle depends on what is wrong with that
    entry: zero if its source lacks a field, and nothing if it has no source or is
    not of the form of a signal. -/
theorem reads_of_invalid (d : Document) (name : String) :
    (name ∈ (Registry.ofDocument d).invalidSignals ↔
      ¬Text.isBlankText name = true ∧ ∃ x, Registry.FirstIsDefect d name x) ∧
    (name ∈ (Registry.ofDocument d).invalidSignals → ∀ x, Registry.FirstIsDefect d name x →
      ∀ e : Engine, e.registry = Registry.ofDocument d → ∀ w,
        (e.after (.normal w)).ReadsAs name x.reading) := by
  refine ⟨Registry.mem_invalidSignals_iff d name, fun h x hx e he w => ?_⟩
  have hname := ((Registry.mem_invalidSignals_iff d name).1 h).1
  have hr : e.registry.Distinct := he ▸ (Registry.Loaded.ofDocument d).distinct
  have hv : ¬e.registry.isValidSignal name = true := by
    rw [hr.isValidSignal_iff, he]
    exact fun hvalid => hvalid.2 h
  rw [← (Registry.signal?_of_defect hname hx).1, ← he]
  exact readsAs_after_normal hr hv w

/-- Of three entries none is of use. The source of the first lacks an attribute, and
    there is a zero to read under its name. The second has no source, and the
    source of the third is of no known kind: there is nothing under their names. -/
theorem reads_of_invalid_crows :
    let mood : Value := .table [("name", .text "mood"), ("source", .table [("kind",
      .text "agent-attribute")])]
    let crows : Value := .table [("name", .text "crows")]
    let meals : Value := .table [("name", .text "meals"), ("source", .table [("kind",
      .text "tea-leaves")])]
    let r := Registry.ofDocument { signals := [mood, crows, meals] }
    let e := (start { config := {}, registry := r }).after (.normal (Farm.world 1 []))
    r.invalidSignals = ["mood", "crows", "meals"] ∧ e.ReadsAs "mood" (some .zero) ∧
      e.ReadsAs "crows" none ∧ e.ReadsAs "meals" none := by
  intro mood crows meals r e
  have hinvalid : r.invalidSignals = ["mood", "crows", "meals"] := rfl
  have hreads (name : String) := (reads_of_invalid { signals := [mood, crows, meals] } name).2
  have hmood : Registry.SignalHasName "mood" mood := rfl
  have hcrows : Registry.SignalHasName "crows" crows := rfl
  refine ⟨hinvalid, hreads "mood" ?_ (.lacks "attribute") ?_ _ rfl _,
    hreads "crows" ?_ .sourceless ?_ _ rfl _, hreads "meals" ?_ .malformed ?_ _ rfl _⟩
  · exact hinvalid ▸ by decide
  · exact ⟨[], mood, [crows, meals], ⟨rfl, nofun, rfl⟩, rfl⟩
  · exact hinvalid ▸ by decide
  · refine ⟨[mood], crows, [meals], ⟨rfl, ?_, rfl⟩, rfl⟩
    exact List.forall_mem_singleton.2 fun h => absurd (hmood.unique h) (by decide)
  · exact hinvalid ▸ by decide
  · refine ⟨[mood, crows], meals, [], ⟨rfl, ?_, rfl⟩, rfl⟩
    exact List.forall_mem_cons.2 ⟨fun h => absurd (hmood.unique h) (by decide),
      List.forall_mem_singleton.2 fun h => absurd (hcrows.unique h) (by decide)⟩

/-- An engine in which the only entry is not of the form of a signal: its name is that
    of an invalid signal, but it does not read as zero. -/
theorem invalid_meals_not_zero :
    let meals : Value := .table [("name", .text "meals"), ("source", .table [("kind",
      .text "tea-leaves")])]
    let r := Registry.ofDocument { signals := [meals] }
    let e := (start { config := {}, registry := r }).after (.normal (Farm.world 1 []))
    "meals" ∈ r.invalidSignals ∧ ¬e.ReadsAs "meals" (some .zero) := by
  intro meals r e
  refine ⟨List.mem_singleton_self _, fun h => ?_⟩
  let setup : Setup := { config := {}, registry := r }
  have hr : (start setup).registry.Distinct := (Registry.Loaded.ofDocument _).distinct
  have hnone : e.ReadsAs "meals" none :=
    readsAs_after_normal hr Bool.false_ne_true (Farm.world 1 [])
  exact absurd (hnone.published.symm.trans h.published) (Option.some_ne_none _).symm

end Engine
end WorkPriority
