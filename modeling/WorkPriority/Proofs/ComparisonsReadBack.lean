import WorkPriority.Proofs.IntervalsReadBack
import WorkPriority.Tag

/-!
# Which comparisons read back

A comparison that was read from a tag is written as an operator and a number, an
interval or a text that is neither. Reading this gives the same comparison
again, with two exceptions (`Comparison.readBack`).

* Of an interval only the finite bounds are written, and what is left out is
  read as the open end of its own side.
* A text that is no number stands directly behind its operator, whatever blanks
  there were in between. If it starts with an equals sign, the two are read as
  one operator of two characters, and behind that may well be a number.

`Comparison.isClear` tells them apart.
-/

namespace WorkPriority

open Decimal

/-! ### Operators -/

namespace Operator

/-- What was read as an operator and a rest is their text. -/
theorem eq_of_read? {cs rest : List Char} {op : Operator} (h : read? cs = some (op, rest)) :
    cs = op.sign ++ rest := by
  obtain ⟨op', _, h⟩ := List.exists_of_findSome?_eq_some h
  obtain ⟨rest', hstrip, heq⟩ := Option.map_eq_some_iff.1 h
  cases heq
  exact Text.stripLead_eq_some.1 hstrip

/-- The operators of two characters, all of which have the equals sign in second place. -/
def isLong : Operator → Bool
  | relation .above | relation .below | within => false
  | _ => true

/-- An operator is read as itself, unless an equals sign behind it makes a longer one. -/
theorem read?_sign {op : Operator} {rest : List Char}
    (h : op.isLong = false → rest.head? ≠ some '=') :
    read? (op.sign ++ rest) = some (op, rest) := by
  cases hop : op.isLong with
  | true =>
    rcases op with r | _
    · cases r with
      | above | below => cases hop
      | atLeast | atMost | equal | unequal => rfl
    · cases hop
  | false =>
    -- Each longer operator fails at its second character.
    have hlong : Text.stripLead ['='] rest = none := by
      cases rest with
      | nil => rfl
      | cons c cs => exact if_neg fun heq => h hop (congrArg some (beq_iff_eq.1 heq).symm)
    rcases op with r | _
    · cases r with
      | above | below => simp [read?, all, sign, Relation.sign, Text.stripLead, hlong]
      | atLeast | atMost | equal | unequal => cases hop
    · simp [read?, all, sign, Relation.sign, Text.stripLead, hlong]

/-- An equals sign behind a shorter operator makes a longer one. -/
theorem read?_sign_equals {op : Operator} (h : op.isLong = false) (rest : List Char) :
    ∃ r : Relation, r.sign = op.sign ++ ['='] ∧ (relation r).isLong = true ∧
      read? (op.sign ++ '=' :: rest) = some (.relation r, rest) := by
  rcases op with r | _
  · cases r with
    | above => exact ⟨.atLeast, rfl, rfl, rfl⟩
    | below => exact ⟨.atMost, rfl, rfl, rfl⟩
    | atLeast => cases h
    | atMost => cases h
    | equal => cases h
    | unequal => cases h
  · exact ⟨.equal, rfl, rfl, rfl⟩

theorem sign_ne_nil (op : Operator) : op.sign ≠ [] := by
  rcases op with r | _
  · cases r <;> decide
  · decide

/-- The characters of operators are neither blanks nor line breaks. -/
theorem not_blank_of_mem_sign (op : Operator) :
    ∀ c ∈ op.sign, Text.isBlank c = false ∧ c ≠ '\n' := by
  have hall : op.sign.all (fun c => !Text.isBlank c && c != '\n') = true := by
    rcases op with r | _
    · cases r <;> rfl
    · rfl
  intro c hc
  simpa using List.all_eq_true.1 hall c hc

theorem head_sign_append (op : Operator) (rest : List Char) :
    ∀ c ∈ (op.sign ++ rest).head?, Text.isBlank c = false := by
  obtain ⟨a, as, h⟩ := List.exists_cons_of_ne_nil op.sign_ne_nil
  intro c hc
  rw [h, List.cons_append, List.head?_cons, Option.mem_some_iff] at hc
  refine (op.not_blank_of_mem_sign c ?_).1
  rw [h, hc]
  exact List.mem_cons_self

/-- An operator is read wherever one stands. -/
theorem isSome_read?_iff {cs : List Char} : (read? cs).isSome = true ↔
    ∃ (op : Operator) (rest : List Char), cs = op.sign ++ rest := by
  constructor
  · intro h
    obtain ⟨⟨op, rest⟩, hop⟩ := Option.isSome_iff_exists.1 h
    exact ⟨op, rest, eq_of_read? hop⟩
  · rintro ⟨op, rest, rfl⟩
    have hmem : op ∈ all := by
      rcases op with r | _
      · cases r <;> decide
      · decide
    refine List.findSome?_isSome_iff.2 ⟨op, hmem, ?_⟩
    rw [Text.stripLead_eq_some.2 rfl]
    rfl

/-- Operators start with one of three characters, or are a mark and an equals sign. -/
theorem exists_sign_append_iff {d : Char} {ds : List Char} :
    (∃ (op : Operator) (rest : List Char), d :: ds = op.sign ++ rest) ↔
      d ∈ ['<', '>', '='] ∨ d = '!' ∧ ds.head? = some '=' := by
  constructor
  · rintro ⟨op, rest, h⟩
    rcases op with r | _
    · cases r with
      | unequal =>
        obtain ⟨hd, hds⟩ := List.cons.inj h
        exact .inr ⟨hd, congrArg List.head? hds⟩
      | atLeast | atMost | above | below | equal =>
        rw [(List.cons.inj h).1]
        exact .inl (by decide)
    · rw [(List.cons.inj h).1]
      exact .inl (by decide)
  · rintro (h | ⟨rfl, h⟩)
    · simp only [List.mem_cons, List.not_mem_nil, or_false] at h
      rcases h with rfl | rfl | rfl
      · exact ⟨.relation .below, ds, rfl⟩
      · exact ⟨.relation .above, ds, rfl⟩
      · exact ⟨.within, ds, rfl⟩
    · obtain ⟨tail, rfl⟩ := List.head?_eq_some_iff.1 h
      exact ⟨.relation .unequal, tail, rfl⟩

end Operator

/-! ### Comparisons -/

namespace Comparison

/-- A comparison that reads back. A text that is no comparison does not, if a longer operator
    is read at its start and then either a blank is dropped behind it or a number read. -/
def isClear : Comparison → Bool
  | relation _ _ => true
  | within i => i.isClear
  | unparsed text =>
    match text.toList with
    | _ :: '=' :: rest =>
      (Interval.readNumber? (Text.trimChars rest)).isNone && !rest.head?.any Text.isBlank
    | _ => true

/-- A comparison that was read from a line without blanks at its end. -/
def IsRead (c : Comparison) : Prop :=
  ∃ op rest, Text.Trimmed rest ∧ '\n' ∉ rest ∧ c = ofOperator op rest

theorem isRead_of_readComparison? {cs : List Char} {c : Comparison}
    (hlast : ∀ c ∈ cs.getLast?, Text.isBlank c = false) (h : Tag.readComparison? cs = some c) :
    c.IsRead := by
  rw [Tag.readComparison?] at h
  split at h
  · rename_i op rest hop
    dsimp only at h
    split at h
    · cases h
    · rename_i hline
      cases h
      have htail := Text.last_dropWhile hlast
      rw [Operator.eq_of_read? hop] at htail
      refine ⟨op, _, ⟨Text.head_dropWhile rest, Text.last_dropWhile (Text.last_of_append htail)⟩,
        fun hmem => hline (List.contains_iff_mem.2 hmem), rfl⟩
  · cases h

/-- An operator and what stands on its line behind it are read as their comparison. -/
theorem readComparison?_sign {op : Operator} {rest : List Char}
    (h : op.isLong = false → rest.head? ≠ some '=')
    (hhead : ∀ c ∈ rest.head?, Text.isBlank c = false) (hline : '\n' ∉ rest) :
    Tag.readComparison? (op.sign ++ rest) = some (ofOperator op rest) := by
  rw [Tag.readComparison?, Text.dropWhile_eq_self (op.head_sign_append rest),
    Operator.read?_sign h]
  dsimp only
  rw [Text.dropWhile_eq_self hhead, if_neg fun hc => hline (List.contains_iff_mem.1 hc)]

/-- What a comparison is of which the operator and the rest were read. -/
theorem ofOperator_cases (op : Operator) (rest : List Char) :
    (∃ r x, ofOperator op rest = relation r x ∧ x.isNaN = false) ∨
      (∃ i : Interval Float, ofOperator op rest = within i) ∨
      ofOperator op rest = unparsed (String.ofList (op.sign ++ rest)) ∧
        (op.isLong = true → Interval.readNumber? (Text.trimChars rest) = none) := by
  cases op with
  | within =>
    rw [ofOperator]
    split
    · rename_i i hi
      exact .inr (.inl ⟨i, rfl⟩)
    · exact .inr (.inr ⟨rfl, fun h => absurd h Bool.false_ne_true⟩)
  | relation r =>
    rw [ofOperator]
    split
    · rename_i x hx
      exact .inl ⟨r, x, rfl, Interval.not_nan_of_readNumber? hx⟩
    · rename_i hnone
      exact .inr (.inr ⟨rfl, fun _ => hnone⟩)

/-- A number behind its relation. -/
theorem readBack_relation (r : Relation) {x : Float} (hn : x.isNaN = false) :
    Tag.readComparison? (relation r x).writeChars = some (relation r x) := by
  have htrim := Interval.trimmed_plainChars hn
  have hread : Tag.readComparison? ((Operator.relation r).sign ++ plainChars x) =
      some (ofOperator (.relation r) (plainChars x)) := by
    refine readComparison?_sign (fun _ h => ?_) htrim.head
      (Interval.not_mem_plainChars hn (.inl rfl))
    exact Interval.not_mem_plainChars hn (.inr (.inr rfl)) (List.mem_of_head? h)
  rw [ofOperator, htrim.trimChars_eq, Interval.readNumber?_plainChars hn] at hread
  exact hread

/-- An interval behind an equals sign. -/
theorem readBack_within (i : Interval Float) :
    Tag.readComparison? (within i).writeChars = some (within i.reopened) := by
  have hread : Tag.readComparison? (Operator.within.sign ++ i.writeChars) =
      some (ofOperator .within i.writeChars) := by
    refine readComparison?_sign (fun _ h => ?_) (fun c h => ?_) fun h => ?_
    · exact (Interval.not_blank_of_mem_writeChars (List.mem_of_head? h)).2.2 rfl
    · exact (Interval.not_blank_of_mem_writeChars (List.mem_of_head? h)).1
    · exact (Interval.not_blank_of_mem_writeChars h).2.1 rfl
  rw [ofOperator, Interval.readChars?_writeChars] at hread
  exact hread

theorem isClear_of_isLong {op : Operator} (h : op.isLong = true) (rest : List Char) :
    (unparsed (String.ofList (op.sign ++ rest))).isClear =
      ((Interval.readNumber? (Text.trimChars rest)).isNone && !rest.head?.any Text.isBlank) := by
  rw [isClear, String.toList_ofList]
  rcases op with r | _
  · cases r with
    | above | below => cases h
    | atLeast | atMost | equal | unequal => rfl
  · cases h

theorem isClear_of_not_isLong {op : Operator} (h : op.isLong = false) {rest : List Char}
    (hrest : rest.head? ≠ some '=') :
    (unparsed (String.ofList (op.sign ++ rest))).isClear = true := by
  obtain ⟨a, ha⟩ : ∃ a, op.sign = [a] := by
    rcases op with r | _
    · cases r with
      | above | below => exact ⟨_, rfl⟩
      | atLeast | atMost | equal | unequal => cases h
    · exact ⟨_, rfl⟩
  rw [isClear, String.toList_ofList, ha]
  split
  · rename_i heq
    have hcons : rest = '=' :: _ := (List.cons.inj heq).2
    rw [hcons] at hrest
    exact absurd rfl hrest
  · rfl

/-- An equals sign behind an operator is taken for its second character. -/
theorem readBack_equals {op : Operator} (h : op.isLong = false) {rest : List Char}
    (hline : '\n' ∉ rest) : ∃ c, Tag.readComparison? (op.sign ++ '=' :: rest) = some c ∧
      c.same (unparsed (String.ofList (op.sign ++ '=' :: rest))) =
        (unparsed (String.ofList (op.sign ++ '=' :: rest))).isClear := by
  obtain ⟨r, hr, hlong, hread⟩ := Operator.read?_sign_equals h rest
  have hsign : op.sign ++ '=' :: rest = (Operator.relation r).sign ++ rest := by
    rw [Operator.sign, hr, List.append_assoc]
    rfl
  refine ⟨ofOperator (.relation r) (rest.dropWhile Text.isBlank), ?_, ?_⟩
  · rw [Tag.readComparison?, Text.dropWhile_eq_self (op.head_sign_append _), hread]
    exact if_neg fun hc =>
      hline ((List.dropWhile_sublist _).subset (List.contains_iff_mem.1 hc))
  · rw [hsign, isClear_of_isLong hlong, ofOperator, Text.trimChars_dropWhile]
    cases hx : Interval.readNumber? (Text.trimChars rest) with
    | some x => rfl
    | none =>
      have heq : String.ofList ((Operator.relation r).sign ++ rest.dropWhile Text.isBlank) =
          String.ofList ((Operator.relation r).sign ++ rest) ↔
            rest.head?.any Text.isBlank = false := by
        rw [String.ofList_inj, List.append_cancel_left_eq, Text.dropWhile_eq_self_iff]
      rw [Bool.eq_iff_iff, same, beq_iff_eq, heq, Option.isNone_none, Bool.true_and,
        Bool.not_eq_true']

/-- A text behind the operator that it was read behind. -/
theorem readBack_unparsed {op : Operator} {rest : List Char} (htrim : Text.Trimmed rest)
    (hline : '\n' ∉ rest) (hof : ofOperator op rest = unparsed (String.ofList (op.sign ++ rest)))
    (hlong : op.isLong = true → Interval.readNumber? (Text.trimChars rest) = none) :
    ∃ c, Tag.readComparison? (op.sign ++ rest) = some c ∧
      c.same (unparsed (String.ofList (op.sign ++ rest))) =
        (unparsed (String.ofList (op.sign ++ rest))).isClear := by
  by_cases h : op.isLong = false → rest.head? ≠ some '='
  · refine ⟨_, (readComparison?_sign h htrim.head hline).trans (congrArg some hof), ?_⟩
    rw [same, beq_self_eq_true]
    cases hop : op.isLong with
    | true =>
      have hblank : rest.head?.any Text.isBlank = false :=
        Text.dropWhile_eq_self_iff.1 (Text.dropWhile_eq_self htrim.head)
      rw [isClear_of_isLong hop, hlong hop, hblank]
      rfl
    | false => rw [isClear_of_not_isLong hop (h hop)]
  · push Not at h
    obtain ⟨hshort, hequals⟩ := h
    obtain ⟨tail, rfl⟩ := List.head?_eq_some_iff.1 hequals
    exact readBack_equals hshort fun hmem => hline (List.mem_cons_of_mem _ hmem)

/-- A comparison that was read is read again from what is written of it, and it is the same
    if it was clear. -/
theorem readBack {c : Comparison} (hc : c.IsRead) :
    ∃ d, Tag.readComparison? c.writeChars = some d ∧ d.same c = c.isClear := by
  obtain ⟨op, rest, htrim, hline, rfl⟩ := hc
  rcases ofOperator_cases op rest with ⟨r, x, hof, hn⟩ | ⟨i, hof⟩ | ⟨hof, hlong⟩
  · rw [hof]
    refine ⟨_, readBack_relation r hn, ?_⟩
    rw [same, beq_self_eq_true, beq_self hn]
    rfl
  · rw [hof]
    exact ⟨_, readBack_within i, i.same_reopened⟩
  · obtain ⟨d, hread, hsame⟩ := readBack_unparsed htrim hline hof hlong
    rw [hof, writeChars, String.toList_ofList]
    exact ⟨d, hread, hsame⟩

/-- A comparison starts with an operator, and what follows is as tidy as what it was read
    from. -/
theorem writeChars_spec {c : Comparison} (hc : c.IsRead) : ∃ (op : Operator) (rest : List Char),
    c.writeChars = op.sign ++ rest ∧ Text.Trimmed rest ∧ '\n' ∉ rest := by
  obtain ⟨op, rest, htrim, hline, rfl⟩ := hc
  rcases ofOperator_cases op rest with ⟨r, x, hof, hn⟩ | ⟨i, hof⟩ | ⟨hof, -⟩
  · rw [hof]
    exact ⟨.relation r, _, rfl, Interval.trimmed_plainChars hn,
      Interval.not_mem_plainChars hn (.inl rfl)⟩
  · rw [hof]
    exact ⟨.within, _, rfl, Text.trimmed_of_not_blank fun c hc =>
      (Interval.not_blank_of_mem_writeChars hc).1, fun hmem =>
      (Interval.not_blank_of_mem_writeChars hmem).2.1 rfl⟩
  · rw [hof]
    exact ⟨op, rest, String.toList_ofList, htrim, hline⟩

theorem trimmed_writeChars {c : Comparison} (hc : c.IsRead) : Text.Trimmed c.writeChars := by
  obtain ⟨op, rest, heq, htrim, -⟩ := writeChars_spec hc
  rw [heq]
  refine ⟨op.head_sign_append rest, fun a ha => ?_⟩
  rw [List.getLast?_append] at ha
  cases hrest : rest.getLast? with
  | none =>
    rw [hrest, Option.none_or] at ha
    exact (op.not_blank_of_mem_sign a (List.mem_of_mem_getLast? ha)).1
  | some b =>
    rw [hrest, Option.some_or] at ha
    exact htrim.last a (hrest.trans ha)

theorem newline_not_mem_writeChars {c : Comparison} (hc : c.IsRead) : '\n' ∉ c.writeChars := by
  obtain ⟨op, rest, heq, -, hline⟩ := writeChars_spec hc
  rw [heq, List.mem_append, not_or]
  exact ⟨fun h => (op.not_blank_of_mem_sign _ h).2 rfl, hline⟩

theorem writeChars_ne_nil {c : Comparison} (hc : c.IsRead) : c.writeChars ≠ [] := by
  obtain ⟨op, rest, heq, -, -⟩ := writeChars_spec hc
  rw [heq]
  exact List.append_ne_nil_of_left_ne_nil op.sign_ne_nil rest

end Comparison
end WorkPriority
