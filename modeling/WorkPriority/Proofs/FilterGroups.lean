import WorkPriority.Filter
import Mathlib.Data.List.Basic

/-!
# Groups of a filter

A filter may be written in many ways. The order of its groups does not matter, nor how often
each is there, nor do the order and the number of the tags in a group. A group with an unknown
tag holds of nothing and may be left out, unless it is the last one to be included. And what
asks for more admits less: so does a group with one more tag that is included, or one more
group that is excluded; one more group to be included, or one more tag in a group that is
excluded, asks for less (`Filter.groupLaws`).

All of this comes from a single comparison. A list of groups is *covered* by another if each of
its groups has an unknown tag or every tag of some group of the other (`IsCovered`). Where one
of its groups holds, then, so does one of the other list. A filter whose included groups are
covered by those of another, while its excluded groups cover the other's, admits nothing that
the other does not (`Filter.admits_of_isStricter`).
-/

namespace WorkPriority

/-! ### Lists of groups -/

/-- A group has an unknown tag, under any number of negations. -/
def HasUnknown (group : List Tag) : Prop := ∃ t ∈ group, t.unknown?.isSome = true

/-- Each group of a list has an unknown tag, or every tag of some group of another list. -/
def IsCovered (gs hs : List (List Tag)) : Prop := ∀ g ∈ gs, HasUnknown g ∨ ∃ h ∈ hs, h ⊆ g

/-- Two lists have the same groups with the same tags, in any order and any number of times. -/
structure SameGroups (gs hs : List (List Tag)) : Prop where
  left : ∀ g ∈ gs, ∃ h ∈ hs, ∀ t, t ∈ g ↔ t ∈ h
  right : ∀ h ∈ hs, ∃ g ∈ gs, ∀ t, t ∈ g ↔ t ∈ h

/-- Groups with an unknown tag are left out of a list, some of them or all. -/
structure LeavesOut (gs hs : List (List Tag)) : Prop where
  subset : hs ⊆ gs
  hasUnknown : ∀ g ∈ gs, g ∉ hs → HasUnknown g

/-- A group is added to a list, at any place. -/
def AddsGroup (g : List Tag) (gs hs : List (List Tag)) : Prop := hs.Perm (g :: gs)

/-- A tag is added to a group of a list, at any place. -/
def AddsTag (t : Tag) (gs hs : List (List Tag)) : Prop :=
  ∃ pre g g' post, gs = pre ++ g :: post ∧ hs = pre ++ g' :: post ∧ g'.Perm (t :: g)

section Lists

variable {gs hs : List (List Tag)} {g : List Tag} {t : Tag}

theorem IsCovered.of_subset (h : gs ⊆ hs) : IsCovered gs hs :=
  fun g hg => .inr ⟨g, h hg, List.Subset.refl g⟩

theorem SameGroups.symm (h : SameGroups gs hs) : SameGroups hs gs where
  left g hg := (h.right g hg).imp fun _ hk => ⟨hk.1, fun t => (hk.2 t).symm⟩
  right g hg := (h.left g hg).imp fun _ hk => ⟨hk.1, fun t => (hk.2 t).symm⟩

theorem SameGroups.isCovered (h : SameGroups gs hs) : IsCovered gs hs := by
  intro g hg
  obtain ⟨k, hk, htags⟩ := h.left g hg
  exact .inr ⟨k, hk, fun t => (htags t).2⟩

theorem SameGroups.nil_iff (h : SameGroups gs hs) : gs = [] ↔ hs = [] := by
  rw [List.eq_nil_iff_forall_not_mem, List.eq_nil_iff_forall_not_mem]
  constructor
  · intro hnil k hk
    obtain ⟨g, hg, -⟩ := h.right k hk
    exact hnil g hg
  · intro hnil g hg
    obtain ⟨k, hk, -⟩ := h.left g hg
    exact hnil k hk

/-- What is left out is no loss. -/
theorem LeavesOut.isCovered (h : LeavesOut gs hs) : IsCovered gs hs := by
  intro g hg
  by_cases hmem : g ∈ hs
  · exact .inr ⟨g, hmem, List.Subset.refl g⟩
  · exact .inl (h.hasUnknown g hg hmem)

theorem AddsGroup.subset (h : AddsGroup g gs hs) : gs ⊆ hs :=
  fun _ hk => h.mem_iff.2 (List.mem_cons_of_mem g hk)

/-- With a tag more, a group still has the tags that it had. -/
theorem AddsTag.isCovered (h : AddsTag t gs hs) : IsCovered hs gs := by
  obtain ⟨pre, g, g', post, rfl, rfl, hperm⟩ := h
  intro k hk
  rcases List.mem_append.1 hk with hpre | hcons
  · exact .inr ⟨k, List.mem_append_left _ hpre, List.Subset.refl k⟩
  rcases List.mem_cons.1 hcons with rfl | hpost
  · exact .inr ⟨g, List.mem_append_right _ List.mem_cons_self,
      fun u hu => hperm.mem_iff.2 (List.mem_cons_of_mem t hu)⟩
  · exact .inr ⟨k, List.mem_append_right _ (List.mem_cons_of_mem _ hpost), List.Subset.refl k⟩

theorem AddsTag.ne_nil (h : AddsTag t gs hs) : hs ≠ [] := by
  obtain ⟨pre, g, g', post, rfl, rfl, hperm⟩ := h
  exact List.append_ne_nil_of_right_ne_nil _ (List.cons_ne_nil _ _)

end Lists

/-! ### Where groups hold -/

section Holding

variable {w : World} {c : Candidate} {g h : List Tag} {gs hs : List (List Tag)}

/-- A group that asks for less holds of more. -/
theorem groupHolds_of_subset (hsub : h ⊆ g) (hg : groupHolds w c g = true) :
    groupHolds w c h = true := by
  rw [groupHolds, List.all_eq_true] at hg ⊢
  exact fun t ht => hg t (hsub ht)

theorem groupHolds_of_hasUnknown (hg : HasUnknown g) : groupHolds w c g = false := by
  obtain ⟨t, ht, hunknown⟩ := hg
  have hholds : t.holds w c = false := by
    rw [Tag.holds, Option.isNone_eq_false_iff.2 hunknown, Bool.false_and]
  exact List.all_eq_false.2 ⟨t, ht, Bool.eq_false_iff.1 hholds⟩

/-- Where a group of a covered list holds, so does one of those that cover it. -/
theorem any_groupHolds_of_isCovered (hcovered : IsCovered gs hs)
    (hgs : gs.any (groupHolds w c) = true) : hs.any (groupHolds w c) = true := by
  obtain ⟨g, hg, hholds⟩ := List.any_eq_true.1 hgs
  rcases hcovered g hg with hunknown | ⟨h, hh, hsub⟩
  · exact absurd ((groupHolds_of_hasUnknown hunknown).symm.trans hholds) Bool.false_ne_true
  · exact List.any_eq_true.2 ⟨h, hh, groupHolds_of_subset hsub hholds⟩

end Holding

namespace Filter

variable {w : World} {c : Candidate} {f g : Filter}

/-- A filter asks for all that another does, as far as their groups tell. -/
structure IsStricter (f g : Filter) : Prop where
  agent : f.agent = g.agent
  -- No included group at all asks for nothing, and not for too much.
  includes : g.includes = [] ∨ f.includes ≠ [] ∧ IsCovered f.includes g.includes
  excludes : IsCovered g.excludes f.excludes

/-- What a stricter filter admits the other does as well. -/
theorem admits_of_isStricter (h : f.IsStricter g) (hf : f.admits w c = true) :
    g.admits w c = true := by
  rw [admits, Bool.and_eq_true, Bool.and_eq_true, Bool.not_eq_true'] at hf ⊢
  obtain ⟨⟨hagent, hincluded⟩, hexcluded⟩ := hf
  refine ⟨⟨?_, ?_⟩, ?_⟩
  · cases c with
    | object o => rfl
    | agent a => rwa [admitsAgent, ← h.agent]
  · rw [includesCandidate, Bool.or_eq_true, List.isEmpty_iff] at hincluded ⊢
    rcases h.includes with hnone | ⟨hsome, hcovered⟩
    · exact .inl hnone
    · exact .inr (any_groupHolds_of_isCovered hcovered (hincluded.resolve_left hsome))
  · rw [Bool.eq_false_iff] at hexcluded ⊢
    exact fun hg => hexcluded (any_groupHolds_of_isCovered h.excludes hg)

/-- Filters of which each is stricter than the other admit the same. -/
theorem admits_eq_of_isStricter (h : f.IsStricter g) (h' : g.IsStricter f) :
    f.admits w c = g.admits w c :=
  Bool.eq_iff_iff.2 ⟨admits_of_isStricter h, admits_of_isStricter h'⟩

theorem isStricter_of_sameGroups (hagent : f.agent = g.agent)
    (hi : SameGroups f.includes g.includes) (he : SameGroups f.excludes g.excludes) :
    f.IsStricter g where
  agent := hagent
  includes := by
    by_cases hnil : g.includes = []
    · exact .inl hnil
    · exact .inr ⟨mt hi.nil_iff.1 hnil, hi.isCovered⟩
  excludes := he.symm.isCovered

theorem isStricter_of_includes (hagent : f.agent = g.agent) (hne : f.includes ≠ [])
    (hi : IsCovered f.includes g.includes) (he : f.excludes = g.excludes) : f.IsStricter g where
  agent := hagent
  includes := .inr ⟨hne, hi⟩
  excludes := .of_subset (he ▸ List.Subset.refl _)

theorem isStricter_of_excludes (hagent : f.agent = g.agent) (hi : f.includes = g.includes)
    (he : IsCovered g.excludes f.excludes) : f.IsStricter g where
  agent := hagent
  includes := by
    by_cases hnil : g.includes = []
    · exact .inl hnil
    · exact .inr ⟨hi ▸ hnil, .of_subset (hi ▸ List.Subset.refl _)⟩
  excludes := he

/-! ### The laws -/

/-- What changes to the groups of a filter do to its answer. -/
structure GroupLaws (w : World) (c : Candidate) (f : Filter) : Prop where
  /-- Groups and their tags may be in any order and any number of times. -/
  sameGroups {is es : List (List Tag)} : SameGroups f.includes is → SameGroups f.excludes es →
    admits { f with includes := is, excludes := es } w c = f.admits w c
  /-- Excluded groups with an unknown tag may be left out. -/
  leavesOut_excludes {es : List (List Tag)} : LeavesOut f.excludes es →
    admits { f with excludes := es } w c = f.admits w c
  /-- So may included ones, as long as there is still one group to be included. -/
  leavesOut_includes {is : List (List Tag)} : LeavesOut f.includes is → is ≠ [] →
    admits { f with includes := is } w c = f.admits w c
  /-- If all have an unknown tag nothing is admitted. -/
  all_hasUnknown : f.includes ≠ [] → (∀ g ∈ f.includes, HasUnknown g) → f.admits w c = false
  /-- With one more group to be included there may be one more that is admitted, -/
  addsGroup_includes {g : List Tag} {is : List (List Tag)} : f.includes ≠ [] →
    AddsGroup g f.includes is → f.admits w c = true → admits { f with includes := is } w c = true
  /-- and with one more tag in a group one less. -/
  addsTag_includes {t : Tag} {is : List (List Tag)} : AddsTag t f.includes is →
    admits { f with includes := is } w c = true → f.admits w c = true
  /-- With one more group to be excluded there may be one less that is admitted, -/
  addsGroup_excludes {g : List Tag} {es : List (List Tag)} : AddsGroup g f.excludes es →
    admits { f with excludes := es } w c = true → f.admits w c = true
  /-- and with one more tag in a group one more. -/
  addsTag_excludes {t : Tag} {es : List (List Tag)} : AddsTag t f.excludes es →
    f.admits w c = true → admits { f with excludes := es } w c = true

theorem groupLaws (w : World) (c : Candidate) (f : Filter) : GroupLaws w c f where
  sameGroups hi he :=
    admits_eq_of_isStricter (isStricter_of_sameGroups rfl hi.symm he.symm)
      (isStricter_of_sameGroups rfl hi he)
  leavesOut_excludes h :=
    admits_eq_of_isStricter (isStricter_of_excludes rfl rfl h.isCovered)
      (isStricter_of_excludes rfl rfl (.of_subset h.subset))
  leavesOut_includes h hne := by
    -- The filter has the group that is still there.
    obtain ⟨g, hg⟩ := List.exists_mem_of_ne_nil _ hne
    have hne' : f.includes ≠ [] := List.ne_nil_of_mem (h.subset hg)
    exact admits_eq_of_isStricter (isStricter_of_includes rfl hne (.of_subset h.subset) rfl)
      (isStricter_of_includes rfl hne' h.isCovered rfl)
  all_hasUnknown hne hall := by
    have hcovered : IsCovered f.includes [] := fun g hg => .inl (hall g hg)
    have hincluded : f.includesCandidate w c = false := by
      rw [includesCandidate, List.isEmpty_eq_false_iff.2 hne, Bool.false_or, Bool.eq_false_iff]
      exact fun h => Bool.false_ne_true (any_groupHolds_of_isCovered hcovered h)
    rw [admits, hincluded, Bool.and_false, Bool.false_and]
  addsGroup_includes hne h :=
    admits_of_isStricter (isStricter_of_includes rfl hne (.of_subset h.subset) rfl)
  addsTag_includes h := admits_of_isStricter (isStricter_of_includes rfl h.ne_nil h.isCovered rfl)
  addsGroup_excludes h :=
    admits_of_isStricter (isStricter_of_excludes rfl rfl (.of_subset h.subset))
  addsTag_excludes h := admits_of_isStricter (isStricter_of_excludes rfl rfl h.isCovered)

end Filter

namespace Larder

/-- A sack of flour on its shelf. -/
def flour : WorldObject :=
  { id := ⟨1⟩, defName := "flour", categories := ["Foods"], inStorage := true }

/-- What is in storage, and food if it glitters. -/
def provisions : Filter where
  includes := [[Tag.read "in_storage"], [Tag.read "category:foods", Tag.read "glittering"]]
  excludes := [[Tag.read "def:flour", Tag.read "!glittering"]]

end Larder

namespace Filter

open Larder

/-- Nothing glitters as far as a filter can tell, nor does anything not. So the flour passes
    with and without the groups that ask for it, and in whatever order they are; but it does
    not pass if no other group is included. -/
theorem groupLaws_larder :
    let stored := [Tag.read "in_storage"]
    let glittering := [Tag.read "category:foods", Tag.read "glittering"]
    let answer (includes excludes : List (List Tag)) :=
      admits { provisions with includes, excludes } {} (.object flour)
    answer [stored, glittering] provisions.excludes = true ∧
      answer [glittering, stored, glittering] provisions.excludes = true ∧
      answer [stored] provisions.excludes = true ∧ answer [stored, glittering] [] = true ∧
      answer [glittering] provisions.excludes = false := by
  intro stored glittering answer
  have hlaws := groupLaws {} (.object flour) provisions
  have hadmits : answer [stored, glittering] provisions.excludes = true := by decide +kernel
  have hglittering : HasUnknown glittering := ⟨Tag.read "glittering", by simp [glittering], rfl⟩
  have hsame (gs : List (List Tag)) : SameGroups gs gs :=
    ⟨fun g hg => ⟨g, hg, fun _ => Iff.rfl⟩, fun g hg => ⟨g, hg, fun _ => Iff.rfl⟩⟩
  have hmixed : SameGroups provisions.includes [glittering, stored, glittering] := by
    refine ⟨fun g hg => ⟨g, ?_, fun _ => Iff.rfl⟩, fun g hg => ⟨g, ?_, fun _ => Iff.rfl⟩⟩
    · have hg' : g ∈ [stored, glittering] := hg
      grind
    · change g ∈ [stored, glittering]
      grind
  have hstored : LeavesOut provisions.includes [stored] := by
    refine ⟨List.cons_subset_cons _ (List.nil_subset _), fun g hg hne => ?_⟩
    have hg' : g = glittering := by
      have hg' : g ∈ [stored, glittering] := hg
      grind
    exact hg' ▸ hglittering
  have hexcludes : LeavesOut provisions.excludes [] := by
    refine ⟨List.nil_subset _, fun g hg _ => ?_⟩
    rw [List.mem_singleton.1 hg]
    exact ⟨Tag.read "!glittering", by simp, rfl⟩
  have hdull := groupLaws {} (.object flour) { provisions with includes := [glittering] }
  exact ⟨hadmits, (hlaws.sameGroups hmixed (hsame _)).trans hadmits,
    (hlaws.leavesOut_includes hstored (List.cons_ne_nil _ _)).trans hadmits,
    (hlaws.leavesOut_excludes hexcludes).trans hadmits,
    hdull.all_hasUnknown (List.cons_ne_nil _ _) (List.forall_mem_singleton.2 hglittering)⟩

end Filter
end WorkPriority
