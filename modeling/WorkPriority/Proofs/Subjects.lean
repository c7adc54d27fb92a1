import WorkPriority.Filter

/-!
# What tags are about

Most tags speak of objects only, or of agents only (`Tag.subject?`). Asked about a candidate of
the other kind such a tag does not hold, with one exception: a comparison that was not
understood holds of everything, and so also of what does not have the quantity that it would
compare (`Tag.holds_of_other_subject`).

A negation is about nothing in particular: where the tag behind it does not hold, it does. So it
is with tags about places, for objects and agents are both in places.
-/

namespace WorkPriority

/-- What a tag may speak of to the exclusion of the rest. -/
inductive Subject where
  /-- Objects. -/
  | objects
  /-- Agents. -/
  | agents
deriving DecidableEq

/-- What a candidate is one of. -/
def Candidate.subject : Candidate → Subject
  | object _ => .objects
  | agent _ => .agents

/-- Who can have a property, if not both objects and agents can. -/
def Flag.subject? : Flag → Option Subject
  | inStorage | forbidden | underConstruction => some .objects
  | deceased | incapacitated | captive | guest | paused => some .agents
  | outdoors => none

/-- Who has a quantity. -/
def Measure.subject : Measure → Subject
  | stack | hitPoints => .objects
  | attr _ | need _ => .agents

/-- What a tag speaks of, if it does not speak of both objects and agents. -/
def Tag.subject? : Tag → Option Subject
  | flag f => f.subject?
  | definition _ | kind _ | category _ => some .objects
  | race _ | allegiance _ | trait _ | affliction _ => some .agents
  | measure m _ => some m.subject
  | not _ | zone _ | unknown _ => none

/-- Whether a tag is a comparison that was not understood. -/
def Tag.isUnparsed : Tag → Bool
  | measure _ comparison => !comparison.isParsed
  | _ => false

variable {w : World} {c : Candidate} {k : Subject}

namespace Candidate

/-- Nobody has the properties of others. -/
theorem hasFlag_of_subject_ne {f : Flag} (hf : f.subject? = some k) (hc : c.subject ≠ k) :
    c.hasFlag w f = false := by
  cases c with
  | object o =>
    cases f with
    | inStorage | forbidden | underConstruction => exact absurd (Option.some.inj hf) hc
    | deceased | incapacitated | captive | guest | paused => rfl
    | outdoors => nomatch hf
  | agent a =>
    cases f with
    | inStorage | forbidden | underConstruction => rfl
    | deceased | incapacitated | captive | guest | paused => exact absurd (Option.some.inj hf) hc
    | outdoors => nomatch hf

/-- Nor their quantities. -/
theorem quantity?_of_subject_ne {m : Measure} (hc : c.subject ≠ m.subject) :
    c.quantity? m = none := by
  cases c with
  | object o =>
    cases m with
    | stack | hitPoints => exact absurd rfl hc
    | attr name | need name => rfl
  | agent a =>
    cases m with
    | stack | hitPoints => rfl
    | attr name | need name => exact absurd rfl hc

end Candidate

namespace Tag

theorem unknown?_of_subject? {t : Tag} (ht : t.subject? = some k) : t.unknown? = none := by
  cases t with
  | not t => nomatch ht
  | unknown text => nomatch ht
  | _ => rfl

/-- Of the other kind of candidate hold just the comparisons that were not understood. -/
theorem holds_of_subject_ne {t : Tag} (ht : t.subject? = some k) (hc : c.subject ≠ k) :
    t.holds w c = t.isUnparsed := by
  rw [holds, unknown?_of_subject? ht, Option.isNone_none, Bool.true_and]
  cases t with
  | not t => nomatch ht
  | zone z => nomatch ht
  | unknown text => nomatch ht
  | flag f =>
    rw [isTrueOf, Candidate.hasFlag_of_subject_ne ht hc]
    rfl
  | definition name | kind name | category name =>
    cases c with
    | object o => exact absurd (Option.some.inj ht) hc
    | agent a => rfl
  | race name | allegiance al | trait name | affliction name =>
    cases c with
    | object o => rfl
    | agent a => exact absurd (Option.some.inj ht) hc
  | measure m comparison =>
    obtain rfl := Option.some.inj ht
    rw [isTrueOf, Candidate.quantity?_of_subject_ne hc, isUnparsed]
    cases comparison.isParsed <;> rfl

/-- A tag that was read does not hold of the other kind of candidate, unless what stands behind
    its operator is neither a number nor an interval: then it does. -/
theorem holds_of_other_subject (w : World) {c : Candidate} (s : String) {k : Subject}
    (hk : (read s).subject? = some k) (hc : c.subject ≠ k) :
    (read s).holds w c = (read s).isUnparsed :=
  holds_of_subject_ne hk hc

/-- Nobody has a stack of five pieces, but anybody passes for one who has plenty. -/
theorem holds_of_other_subject_plenty :
    let someone : Candidate := .agent { id := ⟨1⟩, name := "Ida" }
    someone.subject ≠ .objects ∧
      (read "stack>=5").subject? = some .objects ∧ (read "stack>=5").holds {} someone = false ∧
      (read "stack>=plenty").subject? = some .objects ∧
      (read "stack>=plenty").holds {} someone = true := by
  intro someone
  have hsubject : someone.subject ≠ .objects := by decide
  have hfive : (read "stack>=5").subject? = some .objects := by decide +kernel
  have hplenty : (read "stack>=plenty").subject? = some .objects := by decide +kernel
  refine ⟨hsubject, hfive, ?_, hplenty, ?_⟩
  · exact (holds_of_other_subject {} _ hfive hsubject).trans (by decide +kernel)
  · exact (holds_of_other_subject {} _ hplenty hsubject).trans (by decide +kernel)

/-- There are tags that hold of the other kind of candidate. -/
theorem not_only_of_own_subject : ¬∀ (w : World) (c : Candidate) (s : String) (k : Subject),
    (read s).subject? = some k → c.subject ≠ k → (read s).holds w c = false := by
  intro h
  have := h {} (.agent { id := ⟨1⟩, name := "Ida" }) "stack>=plenty" .objects (by decide +kernel)
    (by decide)
  revert this
  decide +kernel

end Tag
end WorkPriority
