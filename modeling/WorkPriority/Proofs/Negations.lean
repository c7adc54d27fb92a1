import WorkPriority.Proofs.TagsReadBack
import WorkPriority.UnknownTags

/-!
# Negations count by parity

Any number of marks may stand before a tag, with blanks between them. Each is a negation, so
that the answer for the whole text is the answer for the tag, negated once for each mark: an
even number of marks does nothing. An unknown tag is the exception. It does not hold, and
neither does its negation, for whether it is known is asked before any negation is looked at;
what is reported then is the text behind the marks (`Tag.negates`).
-/

namespace WorkPriority

namespace Tag

open Text

/-- A text behind marks, with any blanks in front of it and of each mark. -/
inductive Marked (cs : List Char) : Nat → List Char → Prop
  /-- The text. -/
  | text : Marked cs 0 cs
  /-- Behind a blank. -/
  | blank {n : Nat} {b : Char} {marked : List Char} (hb : isBlank b = true)
    (h : Marked cs n marked) : Marked cs n (b :: marked)
  /-- Behind a mark. -/
  | mark {n : Nat} {marked : List Char} (h : Marked cs n marked) : Marked cs (n + 1) ('!' :: marked)

variable {cs marked : List Char} {n : Nat}

/-- Every mark is read as a negation. -/
theorem Marked.readChars_eq (h : Marked cs n marked) :
    readChars marked = not^[n] (readChars cs) := by
  induction h with
  | text => rfl
  | blank hb _ ih => rw [readChars, if_pos hb, ih]
  | mark _ ih =>
    rw [Function.iterate_succ_apply', ← ih]
    rfl

/-! ### What is not marked -/

/-- An unknown tag without marks keeps its text. -/
theorem text_of_unknown?_readAtom {text : String} (hcs : Trimmed cs)
    (h : (readAtom cs).unknown? = some text) : text = String.ofList cs := by
  cases hread : readMeasure? cs with
  | some t =>
    obtain ⟨m, c, rfl, -⟩ := isMeasured_of_readMeasure? hcs.last hread
    rw [readAtom, hread] at h
    cases h
  | none =>
    have hatom := unmeasured_of_readMeasure?_eq_none hread
    generalize readAtom cs = t at h hatom
    cases hatom with
    | named hp =>
      have hnamed : ∀ p ∈ named, ∀ v, (p.2 v).unknown? = none := by
        simp [named, unknown?]
      rw [hnamed _ hp] at h
      cases h
    | flag | allegiance | zone => cases h
    | unknown => exact (Option.some.inj h).symm

/-! ### What is negated -/

section Tests

variable (u : UnknownTags) (w : World) (c : Candidate)

theorem unknown?_iterate_not (n : Nat) (t : Tag) : (not^[n] t).unknown? = t.unknown? := by
  induction n with
  | zero => rfl
  | succ n ih =>
    rw [Function.iterate_succ_apply', ← ih]
    rfl

/-- A tag that is unknown under its negations is reported, whatever their number. -/
theorem testTag_of_unknown {t : Tag} {text : String} (h : t.unknown? = some text) (n : Nat) :
    u.testTag w c (not^[n] t) = (false, u.report text) := by
  rw [UnknownTags.testTag_eq, holds, unknown?_iterate_not, h]
  rfl

/-- Negations of what is known change the answer each time, and report nothing. -/
theorem testTag_of_known {t : Tag} (h : t.unknown? = none) (n : Nat) :
    u.testTag w c (not^[n] t) = (Bool.not^[n] (u.testTag w c t).1, u) := by
  rw [UnknownTags.testTag_eq, UnknownTags.testTag_eq, unknown?_iterate_not, h]
  refine congrArg (·, u) ?_
  induction n with
  | zero => rfl
  | succ n ih =>
    rw [Function.iterate_succ_apply', Function.iterate_succ_apply', ← ih, holds, holds, unknown?,
      unknown?_iterate_not, h]
    rfl

end Tests

/-- What the marks in front of a text do to the tag. -/
structure Negates (n : Nat) (s marked : String) : Prop where
  /-- Each is a negation. -/
  read : Tag.read marked = not^[n] (Tag.read s)
  /-- The answer for a known tag is negated by each of them. -/
  known : (Tag.read s).unknown? = none → ∀ (u : UnknownTags) (w : World) (c : Candidate),
    u.testTag w c (Tag.read marked) = (Bool.not^[n] (u.testTag w c (Tag.read s)).1, u)
  /-- An unknown tag does not hold under any of them, and its text is reported. -/
  unknown : (Tag.read s).unknown?.isSome = true →
    ∀ (u : UnknownTags) (w : World) (c : Candidate),
      u.testTag w c (Tag.read marked) = (false, u.report (trim s))
  /-- An even number of them does nothing. -/
  even : Even n → ∀ (u : UnknownTags) (w : World) (c : Candidate),
    u.testTag w c (Tag.read marked) = u.testTag w c (Tag.read s)

theorem unknown?_read {s : String} (hs : (trim s).toList.head? ≠ some '!')
    (h : (read s).unknown?.isSome = true) : (read s).unknown? = some (trim s) := by
  rw [trim, String.toList_ofList] at hs
  obtain ⟨text, htext⟩ := Option.isSome_iff_exists.1 h
  rw [htext]
  rw [read, readChars_eq_readAtom_trimChars hs] at htext
  rw [text_of_unknown?_readAtom (trimmed_trimChars _) htext, trim]

/-- Marks in front of a text are negations, and only their parity counts. -/
theorem negates {s marked : String} {n : Nat} (hs : (trim s).toList.head? ≠ some '!')
    (hmarked : Marked s.toList n marked.toList) : Negates n s marked := by
  have hread : read marked = not^[n] (read s) := hmarked.readChars_eq
  refine ⟨hread, fun hknown u w c => ?_, fun hunknown u w c => ?_, fun heven u w c => ?_⟩
  · rw [hread, testTag_of_known u w c hknown]
  · rw [hread, testTag_of_unknown u w c (unknown?_read hs hunknown)]
  · rw [hread]
    cases h : (read s).unknown? with
    | none =>
      rw [testTag_of_known u w c h, Bool.involutive_not.iterate_even heven]
      exact (testTag_of_known u w c h 0).symm
    | some text => rw [testTag_of_unknown u w c h, ← testTag_of_unknown u w c h 0]; rfl

/-- A crate that is not forbidden passes for one that is not forbidden an odd number of times, and
    does not for one that is not sparkly any number of times. -/
theorem negates_crate :
    let crate : Candidate := .object { id := ⟨1⟩, defName := "crate" }
    let test (text : String) := ({} : UnknownTags).testTag {} crate (read text)
    Marked "forbidden".toList 3 "! !\t!forbidden".toList ∧
      Marked " sparkly".toList 2 "!! sparkly".toList ∧
      test "! !\t!forbidden" = (true, {}) ∧ test "!! sparkly" = (false, ⟨["sparkly"]⟩) := by
  intro crate test
  have hforbidden : Marked "forbidden".toList 3 "! !\t!forbidden".toList :=
    .mark (.blank rfl (.mark (.blank rfl (.mark .text))))
  have hsparkly : Marked " sparkly".toList 2 "!! sparkly".toList := .mark (.mark .text)
  refine ⟨hforbidden, hsparkly, ?_, ?_⟩
  · have hknown : (read "forbidden").unknown? = none := by decide +kernel
    have hanswer : Bool.not^[3] (test "forbidden").1 = true := by decide +kernel
    exact ((negates (by decide) hforbidden).known hknown {} {} crate).trans
      (congrArg (Prod.mk · ({} : UnknownTags)) hanswer)
  · exact (negates (by decide) hsparkly).unknown (by decide +kernel) {} {} crate

end Tag
end WorkPriority
