import WorkPriority.Proofs.TagsReadBack

/-!
# Where comparisons begin

A tag that compares a quantity is a keyword, for some quantities a colon and a name, and then an
operator and what to compare with, with blanks around the name and the operator. It is split
where it looks like that (`Tag.splits`): the name is not cut short, for it ends where the
first operator stands, and an operator of two characters is not taken for the shorter one that
it starts with, for the longer ones are tried first.

The names have none of the characters of operators here. What becomes of those that have is told
in `Tag.isClearName`.
-/

namespace WorkPriority

open Text

/-- Blanks on one line. -/
def IsGap (cs : List Char) : Prop := ∀ c ∈ cs, isBlank c = true ∧ c ≠ '\n'

/-- A name of a quantity in which no operator can stand. -/
structure IsName (name : List Char) : Prop where
  ne_nil : name ≠ []
  trimmed : Trimmed name
  line : '\n' ∉ name
  /-- It has none of the characters that operators are made of. -/
  plain : ∀ c ∈ name, c ∉ ['<', '>', '=', '!']

/-- An operator between blanks, and behind them what to compare with. -/
structure Spelling where
  /-- The blanks before the operator. -/
  before : List Char
  /-- The operator. -/
  op : Operator
  /-- The blanks behind the operator. -/
  behind : List Char
  /-- What to compare with. -/
  rest : List Char
  isGap_before : IsGap before
  isGap_behind : IsGap behind
  trimmed : Trimmed rest
  line : '\n' ∉ rest
  /-- An equals sign right behind a shorter operator would be the second half of a longer one. -/
  apart : behind = [] → op.isLong = false → rest.head? ≠ some '='

namespace Spelling

variable (s : Spelling)

/-- The characters of the comparison. -/
def chars : List Char := s.before ++ (s.op.sign ++ (s.behind ++ s.rest))

end Spelling

variable {cs gap name : List Char}

theorem Operator.ofParts_sign (op : Operator) (rest : List Char) :
    Comparison.ofParts op.sign rest = Comparison.ofOperator op rest := by
  rcases op with r | _
  · cases r <;> rfl
  · rfl

/-- A relation is that of the operator. -/
theorem Comparison.op_of_ofOperator {op : Operator} {rest : List Char} {r : Relation} {x : Float}
    (h : ofOperator op rest = relation r x) : op = .relation r := by
  cases op with
  | within =>
    rw [ofOperator] at h
    split at h <;> cases h
  | relation q =>
    rw [ofOperator] at h
    split at h
    · cases h
      rfl
    · cases h

/-! ### Blanks -/

theorem IsGap.dropWhile_append (h : IsGap gap) (cs : List Char) :
    (gap ++ cs).dropWhile isBlank = cs.dropWhile isBlank :=
  List.dropWhile_append_of_pos fun c hc => (h c hc).1

theorem IsGap.newline_not_mem (h : IsGap gap) : '\n' ∉ gap := fun hmem => (h _ hmem).2 rfl

/-- Blanks are no characters of operators. -/
theorem IsGap.plain (h : IsGap gap) : ∀ c ∈ gap, c ∉ ['<', '>', '=', '!'] := by
  intro c hc hmem
  have hblank := (h c hc).1
  simp only [List.mem_cons, List.not_mem_nil, or_false] at hmem
  rcases hmem with rfl | rfl | rfl | rfl <;> exact absurd hblank (by decide)

theorem IsName.trimChars_append (h : IsName name) (hgap : IsGap gap) :
    trimChars (gap ++ name) = name := by
  rw [trimChars, hgap.dropWhile_append]
  exact h.trimmed.trimChars_eq

namespace Spelling

variable (s : Spelling)

/-! ### The comparison -/

/-- What stands behind a shorter operator does not make a longer one of it. -/
theorem head_behind_append (h : s.op.isLong = false) : (s.behind ++ s.rest).head? ≠ some '=' := by
  cases hbehind : s.behind with
  | nil => exact s.apart hbehind h
  | cons b bs =>
    have hb : b ∈ s.behind := hbehind ▸ List.mem_cons_self
    intro heq
    exact s.isGap_behind.plain b hb (by simp [Option.some.inj heq])

/-- The comparison is read as its operator and what stands behind that. -/
theorem readComparison?_chars :
    Tag.readComparison? s.chars = some (.ofParts s.op.sign s.rest) := by
  rw [Tag.readComparison?, chars, s.isGap_before.dropWhile_append,
    dropWhile_eq_self (s.op.head_sign_append _), Operator.read?_sign s.head_behind_append]
  dsimp only
  rw [s.isGap_behind.dropWhile_append, dropWhile_eq_self s.trimmed.head, s.op.ofParts_sign]
  exact if_neg fun h => s.line (List.contains_iff_mem.1 h)

theorem newline_not_mem_chars : '\n' ∉ s.chars := by
  simp only [chars, List.mem_append, not_or]
  exact ⟨s.isGap_before.newline_not_mem, fun h => (s.op.not_blank_of_mem_sign _ h).2 rfl,
    s.isGap_behind.newline_not_mem, s.line⟩

/-- If nothing is compared with, the blanks behind the operator are at the end of the tag. -/
theorem exists_trimEnd_eq (lead : List Char) : ∃ s' : Spelling,
    s'.op = s.op ∧ s'.rest = s.rest ∧ trimEnd (lead ++ s.chars) = lead ++ s'.chars := by
  by_cases hrest : s.rest = []
  · refine ⟨{ s with behind := [], isGap_behind := fun _ h => absurd h List.not_mem_nil,
                     apart := fun _ _ => by simp [hrest] }, rfl, rfl, ?_⟩
    have hsign : ∀ c ∈ (lead ++ s.before ++ s.op.sign).getLast?, isBlank c = false := by
      intro c hc
      rw [List.getLast?_append_of_ne_nil _ s.op.sign_ne_nil] at hc
      exact (s.op.not_blank_of_mem_sign c (List.mem_of_mem_getLast? hc)).1
    simp only [chars, hrest, List.append_nil, ← List.append_assoc]
    rw [trimEnd_append_of_blank fun c hc => (s.isGap_behind c hc).1, trimEnd_eq_self hsign]
  · refine ⟨s, rfl, rfl, trimEnd_eq_self fun c hc => s.trimmed.last c ?_⟩
    simpa only [chars, ← List.append_assoc, List.getLast?_append_of_ne_nil _ hrest] using hc

end Spelling

/-! ### The name -/

namespace Tag

variable (s : Spelling)

/-- With blanks in front of it, a name is followed by the comparison, and no shorter name is. -/
theorem nameSplit_chars (hgap : IsGap gap) (hname : IsName name) :
    NameSplit (gap ++ name ++ s.chars) (gap ++ name) s.chars (.ofParts s.op.sign s.rest) := by
  have hline : '\n' ∉ gap ++ name := by
    rw [List.mem_append, not_or]
    exact ⟨hgap.newline_not_mem, hname.line⟩
  have hplain : ∀ c ∈ gap ++ name, c ∉ ['<', '>', '=', '!'] := fun c hc =>
    (List.mem_append.1 hc).elim (hgap.plain c) (hname.plain c)
  have hlast : ∀ c ∈ (gap ++ name).getLast?, isBlank c = false := by
    rw [List.getLast?_append_of_ne_nil _ hname.ne_nil]
    exact hname.trimmed.last
  have hne : gap ++ name ≠ [] := List.append_ne_nil_of_right_ne_nil _ hname.ne_nil
  refine ⟨rfl, hne, hline, s.readComparison?_chars, fun as bs heq has hbs => ?_⟩
  -- No operator can start within the name.
  obtain ⟨a, as, rfl⟩ := List.exists_cons_of_ne_nil has
  rw [heq] at hline hplain hlast
  have hclear : isClearName s.chars (a :: (as ++ bs)) = true := by
    refine isClearName_iff.2 ⟨fun c hc hsign => ?_, fun hmark => ?_⟩
    · exact hplain c (List.mem_cons_of_mem a hc) (by simp at hsign ⊢; tauto)
    · exact hplain '!' (List.mem_cons_of_mem a (List.mem_of_mem_getLast? hmark.1)) (by decide)
  have hlast : ∀ c ∈ ([a] ++ (as ++ bs)).getLast?, isBlank c = false := hlast
  refine readComparison?_within (last_of_append hlast) ?_ hclear rfl hbs
  rw [List.mem_append, not_or]
  exact ⟨fun h => hline (List.mem_cons_of_mem a h), s.newline_not_mem_chars⟩

/-- The name ends before the blanks in front of the operator. -/
theorem readNamedMeasure?_chars (make : String → Measure) (hgap : IsGap gap)
    (hname : IsName name) : readNamedMeasure? make (gap ++ name ++ s.chars) =
      some (measure (make (String.ofList name)) (.ofParts s.op.sign s.rest)) := by
  have hread : readNamed? [] (gap ++ name ++ s.chars) =
      some (gap ++ name, .ofParts s.op.sign s.rest) :=
    readNamed?_eq_some_iff.2 ⟨_, _, nameSplit_chars s hgap hname, rfl⟩
  rw [readNamedMeasure?, hread, Option.map_some]
  dsimp only
  rw [hname.trimChars_append hgap]

end Tag

/-! ### Tags -/

/-- The quantities that have names of their own, by their keywords. -/
def Measure.named : List (List Char × (String → Measure)) :=
  [("attr".toList, attr), ("need".toList, need)]

/-- The quantities that have none. -/
def Measure.unnamed : List (List Char × Measure) :=
  [("stack".toList, stack), ("hp".toList, hitPoints)]

namespace Tag

/-- A comparison behind a keyword is read as it is behind the keyword alone, whether or not there
    are blanks at its end. -/
theorem readChars_of_readMeasure? (s : Spelling) (lead : List Char) {t : Tag}
    (hlead : ∃ a as, lead = a :: as ∧ isBlank a = false ∧ a ≠ '!')
    (h : ∀ s' : Spelling, s'.op = s.op → s'.rest = s.rest →
      readMeasure? (lead ++ s'.chars) = some t) : readChars (lead ++ s.chars) = t := by
  obtain ⟨s', hop, hrest, htrim⟩ := s.exists_trimEnd_eq lead
  obtain ⟨a, as, rfl, hblank, hmark⟩ := hlead
  rw [List.cons_append, readChars, if_neg (Bool.eq_false_iff.1 hblank),
    if_neg (by simpa using hmark), ← List.cons_append, htrim, readAtom, h s' hop hrest]
  rfl

/-- How a spelled comparison is read. -/
structure Splits (s : Spelling) : Prop where
  /-- Behind a keyword and a name, which may have blanks before it, -/
  named {gap name : List Char} : IsGap gap → IsName name → ∀ p ∈ Measure.named,
    read (String.ofList (p.1 ++ ':' :: (gap ++ name ++ s.chars))) =
      measure (p.2 (String.ofList name)) (.ofParts s.op.sign s.rest)
  /-- and behind a keyword alone. -/
  unnamed : ∀ p ∈ Measure.unnamed,
    read (String.ofList (p.1 ++ s.chars)) = measure p.2 (.ofParts s.op.sign s.rest)
  /-- No other operator is read. -/
  operator : ∀ r x, Comparison.ofParts s.op.sign s.rest = .relation r x → s.op = .relation r

theorem splits (s : Spelling) : Splits s where
  named {gap name} hgap hname := by
    have hread (make : String → Measure) (s' : Spelling) (hop : s'.op = s.op)
        (hrest : s'.rest = s.rest) : readNamedMeasure? make (gap ++ name ++ s'.chars) =
          some (measure (make (String.ofList name)) (.ofParts s.op.sign s.rest)) := by
      rw [← hop, ← hrest]
      exact readNamedMeasure?_chars s' make hgap hname
    simp only [Measure.named, List.forall_mem_cons, read, String.toList_ofList]
    refine ⟨?_, ?_, by simp⟩
    · exact readChars_of_readMeasure? s ("attr:".toList ++ (gap ++ name))
        ⟨_, _, rfl, by decide, by decide⟩ (hread .attr)
    · exact readChars_of_readMeasure? s ("need:".toList ++ (gap ++ name))
        ⟨_, _, rfl, by decide, by decide⟩ (hread .need)
  unnamed := by
    have hread (m : Measure) (s' : Spelling) (hop : s'.op = s.op) (hrest : s'.rest = s.rest) :
        (readComparison? s'.chars).map (measure m) =
          some (measure m (.ofParts s.op.sign s.rest)) := by
      rw [s'.readComparison?_chars, hop, hrest]
      rfl
    simp only [Measure.unnamed, List.forall_mem_cons, read, String.toList_ofList]
    refine ⟨?_, ?_, by simp⟩
    · exact readChars_of_readMeasure? s _ ⟨_, _, rfl, by decide, by decide⟩ (hread .stack)
    · exact readChars_of_readMeasure? s _ ⟨_, _, rfl, by decide, by decide⟩ (hread .hitPoints)
  operator r x h := by
    rw [s.op.ofParts_sign] at h
    exact Comparison.op_of_ofOperator h

/-- At least five, with some blanks. -/
def atLeastFive : Spelling where
  before := "\t ".toList
  op := .relation .atLeast
  behind := [' ']
  rest := ['5']
  isGap_before := by simp [IsGap, isBlank]
  isGap_behind := by simp [IsGap, isBlank]
  trimmed := ⟨by simp [isBlank], by simp [isBlank]⟩
  line := by decide
  apart h := absurd h (List.cons_ne_nil _ _)

/-- A name may have blanks in it, and marks are not needed to tell where it ends. -/
theorem splits_heavy :
    IsGap [' '] ∧ IsName "heavy lifting".toList ∧
      read "attr: heavy lifting\t >= 5" =
        measure (.attr "heavy lifting") (.ofParts ['>', '='] ['5']) ∧
      read "hp\t >= 5" = measure .hitPoints (.ofParts ['>', '='] ['5']) := by
  have hgap : IsGap [' '] := by simp [IsGap, isBlank]
  have hname : IsName "heavy lifting".toList :=
    ⟨by simp, ⟨by simp [isBlank], by simp [isBlank]⟩, by simp, by simp⟩
  have h := splits atLeastFive
  exact ⟨hgap, hname, h.named hgap hname ("attr".toList, .attr) (by simp [Measure.named]),
    h.unnamed ("hp".toList, .hitPoints) (by simp [Measure.unnamed])⟩

end Tag
end WorkPriority
