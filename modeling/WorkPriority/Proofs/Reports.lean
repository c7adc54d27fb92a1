import WorkPriority.UnknownTags
import Mathlib.Data.List.Basic

/-!
# Reports do not answer

Whoever asks many questions with one memory of reports, about any worlds, candidates and
filters, gets the answers that a new memory would give to each of them alone. What is remembered
after that is what new memories would remember, taken together: it only grows, and it does not
depend on the order of the questions. All of it is among the unknown tags of the filters that
were asked about (`UnknownTags.remembers`).

The memory goes through the tests of all tags, and how far it gets depends on their answers. But
no answer depends on it (`UnknownTags.test_eq`), and so every question adds to it what it would
add to an empty one (`UnknownTags.mem_ask`).
-/

namespace WorkPriority

/-! ### What a filter meets -/

section Met

variable (w : World) (c : Candidate)

theorem unknownInGroup_subset (g : List Tag) :
    unknownInGroup w c g ⊆ g.filterMap Tag.unknown? := by
  induction g with
  | nil => exact List.Subset.refl _
  | cons t ts ih =>
    rw [unknownInGroup]
    cases h : t.unknown? with
    | some text =>
      rw [List.filterMap_cons_some h]
      exact List.cons_subset_cons _ (List.nil_subset _)
    | none =>
      rw [List.filterMap_cons_none h]
      dsimp only
      split
      · exact ih
      · exact List.nil_subset _

theorem unknownInGroups_subset (gs : List (List Tag)) :
    unknownInGroups w c gs ⊆ gs.flatten.filterMap Tag.unknown? := by
  induction gs with
  | nil => exact List.Subset.refl _
  | cons g gs ih =>
    rw [unknownInGroups, List.flatten_cons, List.filterMap_append]
    refine List.append_subset.2 ⟨?_, ?_⟩
    · exact List.subset_append_of_subset_left _ (unknownInGroup_subset w c g)
    · split
      · exact List.nil_subset _
      · exact List.subset_append_of_subset_right _ ih

/-- A filter meets only unknown tags of its own. -/
theorem Filter.unknownMet_subset (f : Filter) : f.unknownMet w c ⊆ f.unknownTags := by
  rw [unknownMet, unknownTags, List.flatten_append, List.filterMap_append]
  split
  · refine List.append_subset.2 ⟨?_, ?_⟩
    · exact List.subset_append_of_subset_left _ (unknownInGroups_subset w c f.includes)
    · split
      · exact List.subset_append_of_subset_right _ (unknownInGroups_subset w c f.excludes)
      · exact List.nil_subset _
  · exact List.nil_subset _

end Met

/-! ### Questions -/

/-- Whether a candidate passes a filter in a world. -/
structure Question where
  /-- The world. -/
  world : World
  /-- Who or what is asked about. -/
  candidate : Candidate
  /-- The filter. -/
  filter : Filter

namespace UnknownTags

/-- Asks a question. -/
def ask (u : UnknownTags) (q : Question) : Bool × UnknownTags :=
  u.test q.world q.candidate q.filter

/-- Asks questions, one after the other. -/
def askAll (u : UnknownTags) : List Question → List Bool × UnknownTags
  | [] => ([], u)
  | q :: qs =>
    let (answer, u) := u.ask q
    let (answers, u) := u.askAll qs
    (answer :: answers, u)

variable (u : UnknownTags) (q : Question) (qs : List Question) (text : String)

/-- An answer does not depend on what was reported. -/
theorem ask_fst : (u.ask q).1 = (({} : UnknownTags).ask q).1 := by
  rw [ask, ask, test_eq, test_eq]

/-- One question adds to what was reported what it would report on its own. -/
theorem mem_ask : text ∈ (u.ask q).2.texts ↔
    text ∈ u.texts ∨ text ∈ (({} : UnknownTags).ask q).2.texts := by
  rw [ask, ask, test_eq, test_eq, mem_reportAll, mem_reportAll]
  simp

theorem mem_ask_new : text ∈ (({} : UnknownTags).ask q).2.texts ↔
    text ∈ q.filter.unknownMet q.world q.candidate := by
  rw [ask, test_eq, mem_reportAll]
  simp

theorem askAll_fst : (u.askAll qs).1 = qs.map fun q => (({} : UnknownTags).ask q).1 := by
  induction qs generalizing u with
  | nil => rfl
  | cons q qs ih => exact congrArg₂ List.cons (u.ask_fst q) (ih _)

theorem mem_askAll : text ∈ (u.askAll qs).2.texts ↔
    text ∈ u.texts ∨ ∃ q ∈ qs, text ∈ (({} : UnknownTags).ask q).2.texts := by
  induction qs generalizing u with
  | nil => simp [askAll]
  | cons q qs ih =>
    rw [List.exists_mem_cons_iff, ← or_assoc, ← mem_ask]
    exact ih _

theorem nodup_askAll {u : UnknownTags} (h : u.texts.Nodup) : (u.askAll qs).2.texts.Nodup := by
  induction qs generalizing u with
  | nil => exact h
  | cons q qs ih =>
    have hq : (u.ask q).2.texts.Nodup := by
      rw [ask, test_eq]
      exact nodup_reportAll h _
    exact ih hq

/-! ### Questions in a row -/

/-- What is answered and remembered when questions are asked one after the other. -/
structure Remembers (qs : List Question) : Prop where
  /-- Each answer is that of a new memory. -/
  answers : (askAll {} qs).1 = qs.map fun q => (ask {} q).1
  /-- All is remembered that new memories remember of single questions, and nothing else. -/
  reported (text : String) : text ∈ (askAll {} qs).2.texts ↔ ∃ q ∈ qs, text ∈ (ask {} q).2.texts
  /-- Nothing is forgotten on the way. -/
  grows {ps : List Question} : ps <+: qs → (askAll {} ps).2.texts ⊆ (askAll {} qs).2.texts
  /-- The order of the questions is of no account. -/
  order {ps : List Question} : ps.Perm qs →
    (askAll {} ps).2.texts.Perm (askAll {} qs).2.texts
  /-- What is remembered is an unknown tag of some filter that was asked about. -/
  named : ∀ text ∈ (askAll {} qs).2.texts, ∃ q ∈ qs, text ∈ q.filter.unknownTags

theorem mem_askAll_new {qs : List Question} {text : String} :
    text ∈ (askAll {} qs).2.texts ↔ ∃ q ∈ qs, text ∈ (ask {} q).2.texts :=
  (mem_askAll {} qs text).trans (or_iff_right List.not_mem_nil)

theorem remembers (qs : List Question) : Remembers qs where
  answers := askAll_fst {} qs
  reported _ := mem_askAll_new
  grows hpre text h := by
    obtain ⟨q, hq, htext⟩ := mem_askAll_new.1 h
    exact mem_askAll_new.2 ⟨q, hpre.subset hq, htext⟩
  order hperm := by
    refine (List.perm_ext_iff_of_nodup (nodup_askAll _ List.nodup_nil)
      (nodup_askAll _ List.nodup_nil)).2 fun text => ?_
    simp only [mem_askAll_new, hperm.mem_iff]
  named text h := by
    obtain ⟨q, hq, htext⟩ := mem_askAll_new.1 h
    exact ⟨q, hq, q.filter.unknownMet_subset q.world q.candidate ((mem_ask_new q text).1 htext)⟩

/-- The candles are not forbidden, so whether they are dusty does not come up. -/
example :
    let candles : Candidate := .object { id := ⟨1⟩, defName := "candles" }
    let shiny : Filter := { includes := [[.definition "candles", .unknown "shiny"]] }
    let dusty : Filter := { excludes := [[.flag .forbidden, .unknown "dusty"]] }
    askAll {} [⟨{}, candles, shiny⟩, ⟨{}, candles, dusty⟩, ⟨{}, candles, shiny⟩] =
      ([false, true, false], ⟨["shiny"]⟩) := by
  rfl

end UnknownTags
end WorkPriority
