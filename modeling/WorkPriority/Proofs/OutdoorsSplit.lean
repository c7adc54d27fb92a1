import WorkPriority.Proofs.Breakdowns

/-!
# Indoors and outdoors

There are two ways to tell what is outdoors from what is not: a filter can ask for it,
before anything is measured, and the breakdown by zone has a key for it, under which
measured members are put together. They agree (`Evaluators.outdoors_split`). If all that is
not outdoors is excluded from a signal, what is left has the value that the signal has under
that key; and if all outdoors is excluded, what is left has the breakdown of the signal
without that key.

The reason is that a filter with one more group that is excluded admits what it did before
and the group does not hold of (`Filter.admits_excluding`). Where that depends on the place
alone, the population is made of the same members, less those in the wrong places
(`Evaluators.members_excluding`), whatever the source measures and whomever it leaves out
for other reasons.
-/

namespace WorkPriority

/-! ### One more excluded group -/

namespace Filter

/-- The filter with one more group of tags that must not all hold. -/
def excluding (f : Filter) (group : List Tag) : Filter :=
  { f with excludes := f.excludes ++ [group] }

theorem admits_excluding (f : Filter) (group : List Tag) (w : World) (c : Candidate) :
    (f.excluding group).admits w c = (f.admits w c && !groupHolds w c group) := by
  rw [admits, admits, excluding, List.any_append, List.any_cons, List.any_nil, Bool.or_false,
    Bool.not_or, ← Bool.and_assoc]
  rfl

end Filter

/-- The signal that does not measure what has every tag of a group. -/
def Signal.excluding (s : Signal) (group : List Tag) : Signal :=
  { s with filter := s.filter.excluding group }

/-! ### Places -/

/-- Whether a group holds depends on where the candidate is: it does not in the places that
    are kept. -/
def ExcludesPlaces (w : World) (group : List Tag) (kept : ZoneKey → Bool) : Prop :=
  ∀ c : Candidate, groupHolds w c group = !kept (ZoneKey.resolve w c.zone)

theorem groupHolds_singleton (w : World) (c : Candidate) {t : Tag} (ht : t.unknown? = none) :
    groupHolds w c [t] = t.isTrueOf w c := by
  rw [groupHolds, List.all_cons, List.all_nil, Bool.and_true, Tag.holds, ht]
  rfl

/-- Who is outdoors is under the key of no zone. -/
theorem excludesPlaces_outdoors (w : World) :
    ExcludesPlaces w [Tag.read "outdoors"] fun k => k != .unscoped := by
  have hread : Tag.read "outdoors" = .flag .outdoors := by rfl
  intro c
  rw [hread, groupHolds_singleton w c rfl]
  exact (Bool.not_not _).symm

theorem excludesPlaces_not_outdoors (w : World) :
    ExcludesPlaces w [Tag.read "!outdoors"] fun k => k == .unscoped := by
  have hread : Tag.read "!outdoors" = .not (.flag .outdoors) := by rfl
  intro c
  rw [hread, groupHolds_singleton w c rfl]
  rfl

/-! ### Populations -/

/-- Those that are elsewhere are the members elsewhere. -/
theorem map_filter_places {w : World} {kept : ZoneKey → Bool} {β : Type} {f : β → Member Float}
    {q r : β → Bool} (h : ∀ x, q x = (kept (ZoneKey.resolve w (f x).zone) && r x)) (xs : List β) :
    (xs.filter q).map f =
      ((xs.filter r).map f).filter fun m => kept (ZoneKey.resolve w m.zone) := by
  rw [List.filter_map, List.filter_filter]
  exact congrArg _ (List.filter_congr fun x _ => h x)

section Populations

variable {w : World} {group : List Tag} {kept : ZoneKey → Bool}
  (hplaces : ExcludesPlaces w group kept) (s : Signal)

include hplaces

theorem admits_excluding_places (c : Candidate) : (s.excluding group).filter.admits w c =
    (kept (ZoneKey.resolve w c.zone) && s.filter.admits w c) := by
  rw [Signal.excluding, Filter.admits_excluding, hplaces, Bool.not_not, Bool.and_comm]

theorem members_objectPopulation_excluding (objects : List (WorldObject × Float)) :
    (objectPopulation w (s.excluding group) objects).members =
      (objectPopulation w s objects).members.filter fun m => kept (ZoneKey.resolve w m.zone) :=
  map_filter_places (fun e => admits_excluding_places hplaces s (.object e.1)) objects

/-- It is the same whether the place is asked for before or after what is measured. -/
theorem members_agentPopulation_excluding (measure : Agent → Float) (takesPart : Float → Bool) :
    (agentPopulation w (s.excluding group) measure takesPart).members =
      (agentPopulation w s measure takesPart).members.filter fun m =>
        kept (ZoneKey.resolve w m.zone) :=
  calc (agentPopulation w (s.excluding group) measure takesPart).members
    _ = (((w.agents.filter fun a => s.filter.admits w (.agent a)).map fun a =>
          { value := measure a, zone := a.zone, agent := some a.id }).filter fun m =>
            kept (ZoneKey.resolve w m.zone)).filter fun m => takesPart m.value :=
      congrArg (List.filter _)
        (map_filter_places (fun a => admits_excluding_places hplaces s (.agent a)) w.agents)
    _ = (agentPopulation w s measure takesPart).members.filter fun m =>
          kept (ZoneKey.resolve w m.zone) := List.filter_comm ..

namespace Evaluators

variable {s}

/-- Excluding what is in some places leaves the members elsewhere. -/
theorem members_excluding (hs : s.source.kind.hasPlace = true) {p : Population}
    (hp : standard.population w s = .ok p) :
    ∃ q, standard.population w (s.excluding group) = .ok q ∧
      q.members = p.members.filter fun m => kept (ZoneKey.resolve w m.zone) := by
  obtain ⟨name, source⟩ := s
  cases source
  case environmentCondition | weather => exact absurd hs Bool.false_ne_true
  all_goals obtain rfl : _ = p := Except.ok.inj hp
  case objectCount | constructionProgress =>
    exact ⟨_, rfl, members_objectPopulation_excluding hplaces _ _⟩
  all_goals exact ⟨_, rfl, members_agentPopulation_excluding hplaces _ _ _⟩

end Evaluators

end Populations

/-! ### The two ways -/

namespace Evaluators

open SignalValue

/-- What a filter takes to be outdoors is what the breakdown by zone has under the key of no
    zone, for whatever is measured and however it is filtered and aggregated. -/
theorem outdoors_split (w : World) {s : Signal} (hs : s.hasZones = true) :
    ∃ v outside inside t,
      standard.value w s = .ok v ∧
      standard.value w (s.excluding [Tag.read "!outdoors"]) = .ok outside ∧
      standard.value w (s.excluding [Tag.read "outdoors"]) = .ok inside ∧
      v.zones = some t ∧ v.zone? .unscoped = some outside.total ∧
      inside.zones = some (t.filter fun k _ => k != .unscoped) := by
  have hplace : s.source.kind.hasPlace = true := (Bool.and_eq_true_iff.1 hs).2
  obtain ⟨p, hp⟩ := standard_measures w s
  obtain ⟨q, hq, hqmembers⟩ := members_excluding (excludesPlaces_not_outdoors w) hplace hp
  obtain ⟨r, hr, hrmembers⟩ := members_excluding (excludesPlaces_outdoors w) hplace hp
  refine ⟨_, _, _, zonesOf w s.aggregation p.members, value_of_population hp,
    value_of_population hq, value_of_population hr, if_pos hs, ?_, ?_⟩
  · rw [zone?_ofMembers hs, ofMembers, hqmembers]
    rfl
  · rw [← zonesOf_filter, ofMembers, hrmembers]
    exact if_pos hs

end Evaluators

namespace Camp

/-- A tent in a clearing. One of the three in the camp is in the tent, another in the clearing,
    and nobody knows where the third is. -/
def world : World where
  zones := [⟨⟨1⟩, "tent", .room⟩, ⟨⟨2⟩, "clearing", .outdoors⟩]
  agents := [{ id := ⟨1⟩, name := "Ada", zone := some ⟨1⟩, traits := ["nimble"] },
    { id := ⟨2⟩, name := "Ben", zone := some ⟨2⟩, traits := ["nimble", "kind"] },
    { id := ⟨3⟩, name := "Cal", traits := ["kind"] }]

/-- How many are nimble. -/
def nimble : Signal := { name := "nimble", source := .traitCount "nimble", locatable := true }

end Camp

namespace Evaluators

/-- One who is nimble is in the tent, and one outdoors. -/
theorem outdoors_split_camp : Camp.nimble.hasZones = true ∧ ∃ v outside inside t,
    standard.value Camp.world Camp.nimble = .ok v ∧
    standard.value Camp.world (Camp.nimble.excluding [Tag.read "!outdoors"]) = .ok outside ∧
    standard.value Camp.world (Camp.nimble.excluding [Tag.read "outdoors"]) = .ok inside ∧
    v.zones = some t ∧ t.keys = [.unscoped, .zone ⟨1⟩] ∧ v.zone? .unscoped = some outside.total ∧
    inside.zones = some (t.filter fun k _ => k != .unscoped) ∧
    (t.filter fun k _ => k != .unscoped).keys = [.zone ⟨1⟩] := by
  have hs : Camp.nimble.hasZones = true := rfl
  obtain ⟨v, outside, inside, t, hv, houtside, hinside, ht, hunscoped, hzones⟩ :=
    outdoors_split Camp.world hs
  obtain rfl : _ = v := Except.ok.inj hv
  obtain rfl : _ = t := Option.some.inj ht
  exact ⟨hs, _, outside, inside, _, hv, houtside, hinside, ht, by decide +kernel, hunscoped,
    hzones, by decide +kernel⟩

end Evaluators
end WorkPriority
