import WorkPriority.Filter

/-!
# Reports of unknown tags

Each unknown tag is reported once, however often filters meet it. The memory of
what was reported so far is a set of texts that is carried along as a candidate
is tested (`UnknownTags.test`), tag by tag and group by group. A tag that is not
reached is not reported, and which tags are reached depends on the answers before.

The memory itself has no say in an answer: a test is the answer of the filter,
together with a report of the unknown tags that are met (`UnknownTags.test_eq`).
-/

namespace WorkPriority

/-- The unknown tags that were reported, each once. -/
structure UnknownTags where
  /-- The texts, in the order in which they were first met. -/
  texts : List String := []

namespace UnknownTags

/-- Adds one text, unless it is there. -/
def report (u : UnknownTags) (text : String) : UnknownTags :=
  if text ∈ u.texts then u else ⟨u.texts ++ [text]⟩

/-- Adds texts, one after the other. -/
def reportAll (u : UnknownTags) (texts : List String) : UnknownTags := texts.foldl report u

/-- Tests whether a candidate has a tag. If the tag is unknown, under any number of
    negations, it is reported, and does not hold. -/
def testTag (u : UnknownTags) (w : World) (c : Candidate) (t : Tag) : Bool × UnknownTags :=
  match t.unknown? with
  | some text => (false, u.report text)
  | none =>
    match t with
    | .not t =>
      let (answer, u) := u.testTag w c t
      (!answer, u)
    | t => (t.isTrueOf w c, u)

/-- Tests the tags of a group, up to the first that does not hold. -/
def testGroup (u : UnknownTags) (w : World) (c : Candidate) : List Tag → Bool × UnknownTags
  | [] => (true, u)
  | t :: ts =>
    match u.testTag w c t with
    | (true, u) => u.testGroup w c ts
    | (false, u) => (false, u)

/-- Tests groups, up to the first that holds. -/
def testGroups (u : UnknownTags) (w : World) (c : Candidate) :
    List (List Tag) → Bool × UnknownTags
  | [] => (false, u)
  | g :: gs =>
    match u.testGroup w c g with
    | (true, u) => (true, u)
    | (false, u) => u.testGroups w c gs

/-- Tests a candidate, and remembers the unknown tags that are met. -/
def test (u : UnknownTags) (w : World) (c : Candidate) (f : Filter) : Bool × UnknownTags :=
  if !f.admitsAgent c then (false, u)
  else
    let (included, u) := if f.includes.isEmpty then (true, u) else u.testGroups w c f.includes
    if !included then (false, u)
    else
      let (excluded, u) := u.testGroups w c f.excludes
      (!excluded, u)

/-! ### Answers and reports apart -/

section Tests

variable (u : UnknownTags) (w : World) (c : Candidate)

theorem testTag_eq (t : Tag) : u.testTag w c t = (t.holds w c, u.reportAll t.unknown?.toList) := by
  induction t with
  | not t ih =>
    rw [testTag, Tag.holds, Tag.unknown?]
    rw [Tag.holds] at ih
    cases h : t.unknown? with
    | some text => rfl
    | none =>
      dsimp only
      rw [ih, h]
      rfl
  | unknown text => rfl
  | _ => rfl

theorem testGroup_eq (g : List Tag) :
    u.testGroup w c g = (groupHolds w c g, u.reportAll (unknownInGroup w c g)) := by
  induction g generalizing u with
  | nil => rfl
  | cons t ts ih =>
    rw [testGroup, testTag_eq, unknownInGroup, groupHolds, List.all_cons]
    cases h : t.unknown? with
    | some text =>
      rw [Tag.holds, h]
      rfl
    | none =>
      cases hholds : t.holds w c with
      | true => exact ih u
      | false => rfl

theorem reportAll_append (texts texts' : List String) :
    u.reportAll (texts ++ texts') = (u.reportAll texts).reportAll texts' :=
  List.foldl_append

theorem testGroups_eq (gs : List (List Tag)) : u.testGroups w c gs =
    (gs.any (groupHolds w c), u.reportAll (unknownInGroups w c gs)) := by
  induction gs generalizing u with
  | nil => rfl
  | cons g gs ih =>
    rw [testGroups, testGroup_eq, unknownInGroups, reportAll_append, List.any_cons]
    cases groupHolds w c g with
    | true => rfl
    | false => exact ih _

/-- A test gives the answer of the filter, whatever was reported before, and reports what the
    filter meets. -/
theorem test_eq (f : Filter) :
    u.test w c f = (f.admits w c, u.reportAll (f.unknownMet w c)) := by
  have hincluded : (if f.includes.isEmpty then (true, u) else u.testGroups w c f.includes) =
      (f.includesCandidate w c, u.reportAll (unknownInGroups w c f.includes)) := by
    rw [Filter.includesCandidate]
    cases f.includes with
    | nil => rfl
    | cons g gs => exact u.testGroups_eq w c (g :: gs)
  rw [test, hincluded, Filter.admits, Filter.unknownMet]
  dsimp only
  cases f.admitsAgent c with
  | false => rfl
  | true =>
    cases f.includesCandidate w c with
    | false => exact congrArg (false, u.reportAll ·) (List.append_nil _).symm
    | true =>
      rw [testGroups_eq, ← reportAll_append]
      rfl

end Tests

/-! ### What is remembered -/

theorem mem_report (u : UnknownTags) (s text : String) :
    s ∈ (u.report text).texts ↔ s ∈ u.texts ∨ s = text := by
  unfold report
  split
  · rename_i h
    exact ⟨Or.inl, fun hs => hs.elim id fun e => e ▸ h⟩
  · simp

/-- What is remembered grows by exactly what is reported. -/
theorem mem_reportAll (u : UnknownTags) (s : String) (texts : List String) :
    s ∈ (u.reportAll texts).texts ↔ s ∈ u.texts ∨ s ∈ texts := by
  unfold reportAll
  induction texts generalizing u with
  | nil => simp
  | cons t ts ih => rw [List.foldl_cons, ih, mem_report, List.mem_cons, or_assoc]

/-- Nothing is remembered twice. -/
theorem nodup_report {u : UnknownTags} (h : u.texts.Nodup) (text : String) :
    (u.report text).texts.Nodup := by
  rw [report]
  split
  · exact h
  · rename_i hnew
    exact List.nodup_append.2 ⟨h, List.pairwise_singleton _ _, fun a ha b hb hab =>
      hnew (List.mem_singleton.1 hb ▸ hab ▸ ha)⟩

theorem nodup_reportAll {u : UnknownTags} (h : u.texts.Nodup) (texts : List String) :
    (u.reportAll texts).texts.Nodup := by
  induction texts generalizing u with
  | nil => exact h
  | cons text texts ih => exact ih (nodup_report h text)

end UnknownTags
end WorkPriority
