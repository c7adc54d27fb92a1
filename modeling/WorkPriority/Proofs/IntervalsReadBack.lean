import WorkPriority.Interval.Notation
import WorkPriority.Proofs.Blanks
import WorkPriority.Proofs.NumbersReadBack

/-!
# Which intervals read back

An interval is written as a number if its bounds are equal, and as its finite bounds around a
tilde otherwise. So a bound that is not finite is read again as the open end of its side
(`Interval.readChars?_writeChars`), and that is the interval that was written just if it is
*clear*: it is a point, or it has no bound but numbers and the open ends of their own sides
(`Interval.isClear`).

A definition can give an interval in three forms. A number and a text that are accepted never
have a bound that is `nan`; a table may have one, since its bounds are taken as they are. A text
and a table may give an infinite bound on the wrong side. All else that is accepted is clear and
reads back (`Interval.readBack_of_form`).
-/

namespace WorkPriority

open Decimal

/-! ### Numbers -/

/-- A numeral is no blank, and no sign of the tag language. -/
theorem Decimal.not_blank_of_isNumeral {c : Char} (h : isNumeral c = true) :
    Text.isBlank c = false ∧ c ≠ '\n' ∧ c ≠ '~' ∧ c ≠ '=' := by
  rw [isNumeral, Bool.or_eq_true] at h
  rcases h with h | h
  · have hlow : 48 ≤ c.toNat := by
      rw [Char.isDigit, Bool.and_eq_true, decide_eq_true_eq, decide_eq_true_eq] at h
      exact h.1
    have hhigh : c.toNat ≤ 57 := by
      rw [Char.isDigit, Bool.and_eq_true, decide_eq_true_eq, decide_eq_true_eq] at h
      exact h.2
    have hne (d : Char) (hd : d.isDigit = false) : c ≠ d := by
      rintro rfl
      exact absurd (h.symm.trans hd) (by decide)
    refine ⟨?_, hne _ (by decide), hne _ (by decide), hne _ (by decide)⟩
    simp only [Text.isBlank, Bool.or_eq_false_iff, Bool.and_eq_false_iff, decide_eq_false_iff_not,
      beq_eq_false_iff_ne]
    omega
  · have hmem : c ∈ ['-', '.', 'i', 'n', 'f'] := List.contains_iff_mem.1 h
    simp only [List.mem_cons, List.not_mem_nil, or_false] at hmem
    rcases hmem with rfl | rfl | rfl | rfl | rfl <;> decide

namespace Interval

theorem not_nan_of_readNumber? {cs : List Char} {x : Float} (h : readNumber? cs = some x) :
    x.isNaN = false := by
  rw [readNumber?, Option.filter_eq_some_iff] at h
  simpa using h.2

/-- A number that was written is read, and is no blank text. -/
theorem readNumber?_plainChars {x : Float} (hn : x.isNaN = false) :
    readNumber? (plainChars x) = some x := by
  rw [readNumber?, read?_plainChars hn, Option.filter_some, hn]
  rfl

theorem trimmed_plainChars {x : Float} (hn : x.isNaN = false) : Text.Trimmed (plainChars x) :=
  Text.trimmed_of_not_blank fun c hc =>
    (not_blank_of_isNumeral ((plainChars_numeral hn).2 c hc)).1

theorem not_mem_plainChars {x : Float} (hn : x.isNaN = false) {c : Char}
    (hc : c = '\n' ∨ c = '~' ∨ c = '=') : c ∉ plainChars x := by
  intro hmem
  obtain ⟨-, hnewline, htilde, hequals⟩ := not_blank_of_isNumeral ((plainChars_numeral hn).2 c hmem)
  rcases hc with hc | hc | hc
  · exact hnewline hc
  · exact htilde hc
  · exact hequals hc

/-! ### Intervals -/

/-- An interval that is no point has its infinite bounds on their own sides. -/
def isClear (i : Interval Float) : Bool :=
  i.lo == i.hi || (i.lo.isFinite || Scalar.bottom == i.lo) && (i.hi.isFinite || Scalar.top == i.hi)

/-- What is told of an interval by its finite bounds, or by a single point. -/
def reopened (i : Interval Float) : Interval Float :=
  if i.lo == i.hi then point i.lo
  else ⟨if i.lo.isFinite then i.lo else Scalar.bottom, if i.hi.isFinite then i.hi else Scalar.top⟩

theorem mem_writeBound (x : Float) : ∀ c ∈ writeBound x, isNumeral c = true := by
  rw [writeBound]
  split
  · rename_i hf
    exact (plainChars_numeral (isNaN_of_isFinite hf)).2
  · simp

/-- A bound is read as itself, or as the open end where it is not written. -/
theorem readBound?_writeBound (openEnd x : Float) :
    readBound? openEnd (writeBound x) = some (if x.isFinite then x else openEnd) := by
  rw [writeBound]
  split
  · rename_i hf
    have hn := isNaN_of_isFinite hf
    rw [readBound?, (trimmed_plainChars hn).trimChars_eq]
    split
    · rename_i h
      exact absurd h (plainChars_numeral hn).1
    · exact readNumber?_plainChars hn
  · rfl

/-- What is written of an interval is in numerals around at most one tilde. -/
theorem mem_writeChars (i : Interval Float) :
    ∀ c ∈ i.writeChars, isNumeral c = true ∨ c = '~' := by
  rw [writeChars]
  split
  · rename_i heq
    exact fun c hc => .inl ((plainChars_numeral (isNaN_of_beq heq).1).2 c hc)
  · intro c hc
    rcases List.mem_append.1 hc with hc | hc
    · exact .inl (mem_writeBound i.lo c hc)
    · rcases List.mem_cons.1 hc with hc | hc
      · exact .inr hc
      · exact .inl (mem_writeBound i.hi c hc)

theorem not_blank_of_mem_writeChars {i : Interval Float} {c : Char} (hc : c ∈ i.writeChars) :
    Text.isBlank c = false ∧ c ≠ '\n' ∧ c ≠ '=' := by
  rcases mem_writeChars i c hc with h | rfl
  · obtain ⟨hblank, hnewline, -, hequals⟩ := not_blank_of_isNumeral h
    exact ⟨hblank, hnewline, hequals⟩
  · decide

/-- Every interval that was written is read, as far as its finite bounds tell. -/
theorem readChars?_writeChars (i : Interval Float) : readChars? i.writeChars = some i.reopened := by
  have htrim : Text.trimChars i.writeChars = i.writeChars :=
    (Text.trimmed_of_not_blank fun c hc => (not_blank_of_mem_writeChars hc).1).trimChars_eq
  rw [readChars?, htrim, reopened, writeChars]
  cases heq : i.lo == i.hi with
  | true =>
    have hlo := (isNaN_of_beq heq).1
    rw [if_pos rfl, if_pos rfl,
      Text.splitOnce_of_not_mem (not_mem_plainChars hlo (.inr (.inl rfl))),
      readNumber?_plainChars hlo]
    rfl
  | false =>
    have htilde : '~' ∉ writeBound i.lo := fun h =>
      (not_blank_of_isNumeral (mem_writeBound i.lo _ h)).2.2.1 rfl
    rw [if_neg Bool.false_ne_true, if_neg Bool.false_ne_true, Text.splitOnce_append _ htilde]
    dsimp only
    rw [readBound?_writeBound, readBound?_writeBound]
    rfl

/-- That is the same interval if it is clear. -/
theorem same_reopened (i : Interval Float) : i.reopened.same i = i.isClear := by
  rw [reopened, isClear]
  cases heq : i.lo == i.hi with
  | true =>
    change (i.lo == i.lo && i.lo == i.hi) = _
    rw [beq_self (isNaN_of_beq heq).1, heq]
    rfl
  | false =>
    have hside (x openEnd : Float) :
        ((if x.isFinite then x else openEnd) == x) = (x.isFinite || openEnd == x) := by
      cases hf : x.isFinite with
      | true => exact beq_self (isNaN_of_isFinite hf)
      | false => rfl
    rw [if_neg Bool.false_ne_true, same, hside, hside, Bool.false_or]

/-! ### Forms -/

/-- The bounds of an interval are numbers. -/
structure Numeric (i : Interval Float) : Prop where
  /-- The bound written first is a number. -/
  lo : i.lo.isNaN = false
  /-- The bound written second is a number. -/
  hi : i.hi.isNaN = false

theorem isNaN_bottom : (Scalar.bottom : Float).isNaN = false := by decide +kernel

theorem isNaN_top : (Scalar.top : Float).isNaN = false := by decide +kernel

theorem not_nan_of_readBound? {openEnd x : Float} (ho : openEnd.isNaN = false) {cs : List Char}
    (h : readBound? openEnd cs = some x) : x.isNaN = false := by
  rw [readBound?] at h
  split at h
  · cases h
    exact ho
  · exact not_nan_of_readNumber? h

theorem numeric_of_readChars? {cs : List Char} {i : Interval Float} (h : readChars? cs = some i) :
    i.Numeric := by
  rw [readChars?] at h
  split at h
  · rename_i left right _
    cases hlo : readBound? Scalar.bottom left with
    | none => rw [hlo] at h; cases h
    | some lo =>
      cases hhi : readBound? Scalar.top right with
      | none => rw [hlo, hhi] at h; cases h
      | some hi =>
        rw [hlo, hhi] at h
        cases h
        exact ⟨not_nan_of_readBound? isNaN_bottom hlo, not_nan_of_readBound? isNaN_top hhi⟩
  · obtain ⟨x, hx, rfl⟩ := Option.map_eq_some_iff.1 h
    exact ⟨not_nan_of_readNumber? hx, not_nan_of_readNumber? hx⟩

/-- Whether the bounds of a table, as far as they are given, are numbers. -/
def Form.isNumeric : Form → Bool
  | .bounds min max => min.all (!·.isNaN) && max.all (!·.isNaN)
  | _ => true

/-- An open end is a number, so a bound is one unless it is given as `nan`. -/
theorem isNaN_getD {x? : Option Float} {openEnd : Float} (ho : openEnd.isNaN = false) :
    (x?.getD openEnd).isNaN = false ↔ x?.all (!·.isNaN) = true := by
  cases x? with
  | none => exact iff_of_true ho rfl
  | some x => exact (iff_of_eq (Bool.not_eq_true' x.isNaN)).symm

/-- Only a table makes an interval with a bound that is not a number. -/
theorem numeric_iff {form : Form} {i : Interval Float} (h : ofForm? form = some i) :
    i.Numeric ↔ form.isNumeric = true := by
  cases form with
  | number x =>
    refine iff_of_true ?_ rfl
    rw [ofForm?] at h
    split at h
    · cases h
    · rename_i hn
      cases h
      exact ⟨Bool.eq_false_iff.2 hn, Bool.eq_false_iff.2 hn⟩
  | text s => exact iff_of_true (numeric_of_readChars? h) rfl
  | bounds min max =>
    obtain rfl := Option.some.inj h
    rw [Form.isNumeric, Bool.and_eq_true, ← isNaN_getD isNaN_bottom, ← isNaN_getD isNaN_top]
    exact ⟨fun h => ⟨h.lo, h.hi⟩, fun h => ⟨h.1, h.2⟩⟩

/-- Every interval that is accepted is written as a text that is read, and it is read as the same
    interval if it is clear, and only then. It has a bound that is not a number just if it was
    given as a table with such a bound. -/
theorem readBack_of_form {form : Form} {i : Interval Float} (h : ofForm? form = some i) :
    read? i.write = some i.reopened ∧ i.reopened.same i = i.isClear ∧
      (i.Numeric ↔ form.isNumeric = true) := by
  refine ⟨?_, same_reopened i, numeric_iff h⟩
  rw [read?, write, String.toList_ofList, readChars?_writeChars]

/-- A table without an upper bound reads back; with an infinite lower bound it does not, for
    this is read as the other infinity. -/
theorem readBack_of_form_tables :
    let upwards : Interval Float := ⟨Float.ofNat 2, Scalar.top⟩
    let reversed : Interval Float := ⟨Scalar.top, Float.ofNat 5⟩
    ofForm? (.bounds (some (Float.ofNat 2)) none) = some upwards ∧
      (∃ j, read? upwards.write = some j ∧ j.same upwards = true) ∧
      ofForm? (.bounds (some Scalar.top) (some (Float.ofNat 5))) = some reversed ∧
      (∃ j, read? reversed.write = some j ∧ j.same reversed = false) := by
  intro upwards reversed
  have hupwards : ofForm? (.bounds (some (Float.ofNat 2)) none) = some upwards := rfl
  have hreversed : ofForm? (.bounds (some Scalar.top) (some (Float.ofNat 5))) = some reversed := rfl
  obtain ⟨hread, hsame, -⟩ := readBack_of_form hupwards
  obtain ⟨hread', hsame', -⟩ := readBack_of_form hreversed
  exact ⟨hupwards, ⟨_, hread, hsame.trans (by decide +kernel)⟩, hreversed, _, hread',
    hsame'.trans (by decide +kernel)⟩

/-- There are intervals that are accepted and do not read back: nothing is equal to `nan`. -/
theorem not_always_readBack : ¬∀ (form : Form) (i : Interval Float), ofForm? form = some i →
    ∃ j, read? i.write = some j ∧ j.same i = true := by
  intro h
  let nan : Float := Float.ofBits 0x7FF8000000000000
  obtain ⟨j, -, hsame⟩ := h (.bounds (some nan) (some (Float.ofNat 1))) _ rfl
  rw [same, Bool.and_eq_true] at hsame
  have hnan : nan.isNaN = false := (isNaN_of_beq hsame.1).2
  revert hnan
  decide +kernel

end Interval
end WorkPriority
