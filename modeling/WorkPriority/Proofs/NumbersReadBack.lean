import WorkPriority.Decimal.Notation
import WorkPriority.Decimal.Reading
import WorkPriority.Proofs.ShortestDigits

/-!
# What is written of a number reads back as it

Numbers are kept as text in definitions, in saved filters and in reports, and
the digits that are written are as few as possible. All the same no number is
changed by writing it and reading it again (`read?_plainChars`), be it finite or
not, and the sign of zero is not lost either.

The digits of the shortest decimal are put around a point in three ways, which
all read back as one whole number and one power of ten
(`Digits.readFrom_positional`). The product of the two is the decimal, which
the number catches, so that the number is the nearest one to it.
-/

namespace WorkPriority.Decimal

/-! ### Digits -/

variable {ds : List Char}

theorem valueOf_eq (ds : List Char) : valueOf ds = Nat.ofDigitChars 10 ds 0 :=
  rfl

theorem valueOf_append (as bs : List Char) :
    valueOf (as ++ bs) = 10 ^ bs.length * valueOf as + valueOf bs := by
  rw [valueOf_eq, Nat.ofDigitChars_append, Nat.ofDigitChars_eq_ofDigitChars_zero]
  rfl

theorem valueOf_zeros (n : Nat) : valueOf (List.replicate n '0') = 0 := by
  rw [valueOf_eq, Nat.ofDigitChars_replicate_zero, Nat.mul_zero]

theorem valueOf_digitsOf (n : Nat) : valueOf (digitsOf n) = n :=
  Nat.ofDigitChars_ten_toDigits

theorem isDigit_of_mem_digitsOf {n : Nat} {c : Char} (h : c ∈ digitsOf n) : c.isDigit = true :=
  Nat.isDigit_of_mem_toDigits (by decide) (by decide) h

theorem isDigit_of_mem_zeros {n : Nat} {c : Char} (h : c ∈ List.replicate n '0') :
    c.isDigit = true := by
  rw [List.eq_of_mem_replicate h]
  rfl

/-- Digits end with the zeros that are dropped from them. -/
theorem eq_dropZerosEnd_append (ds : List Char) :
    ∃ k, ds = dropZerosEnd ds ++ List.replicate k '0' := by
  refine ⟨(ds.reverse.takeWhile (· == '0')).length, ?_⟩
  have hzeros : ds.reverse.takeWhile (· == '0') =
      List.replicate (ds.reverse.takeWhile (· == '0')).length '0' :=
    List.eq_replicate_of_mem fun c hc => beq_iff_eq.1 (List.mem_takeWhile_imp (p := (· == '0')) hc)
  calc ds = ds.reverse.reverse := ds.reverse_reverse.symm
    _ = (ds.reverse.takeWhile (· == '0') ++ ds.reverse.dropWhile (· == '0')).reverse := by
      rw [List.takeWhile_append_dropWhile]
    _ = dropZerosEnd ds ++ (ds.reverse.takeWhile (· == '0')).reverse := List.reverse_append
    _ = _ := by
      rw [hzeros, List.reverse_replicate, List.length_replicate]

theorem mem_of_mem_dropZerosEnd {c : Char} (h : c ∈ dropZerosEnd ds) : c ∈ ds := by
  obtain ⟨k, hk⟩ := eq_dropZerosEnd_append ds
  rw [hk]
  exact List.mem_append_left _ h

/-- Dropped zeros count as powers of ten. -/
theorem valueOf_dropZerosEnd (ds : List Char) : ∃ k : Nat,
    ds.length = (dropZerosEnd ds).length + k ∧ valueOf ds = 10 ^ k * valueOf (dropZerosEnd ds) := by
  obtain ⟨k, hk⟩ := eq_dropZerosEnd_append ds
  refine ⟨k, ?_, ?_⟩
  · rw [congrArg List.length hk, List.length_append, List.length_replicate]
  · rw [congrArg valueOf hk, valueOf_append, valueOf_zeros, List.length_replicate, Nat.add_zero]

/-- The decimal that digits around a point stand for. -/
def Digits.value (d : Digits) : ℚ := valueOf d.digits * 10 ^ (d.point - d.digits.length)

/-- Without the zeros at the end of its digits a decimal is the same. -/
theorem value_dropZerosEnd (n : Nat) (place : Int) :
    Digits.value ⟨dropZerosEnd (digitsOf n), (digitsOf n).length + place⟩ = n * 10 ^ place := by
  obtain ⟨k, hlen, hvalue⟩ := valueOf_dropZerosEnd (digitsOf n)
  have hexp : ((digitsOf n).length : Int) + place - (dropZerosEnd (digitsOf n)).length =
      k + place := by
    omega
  rw [valueOf_digitsOf] at hvalue
  calc Digits.value ⟨dropZerosEnd (digitsOf n), (digitsOf n).length + place⟩
      = valueOf (dropZerosEnd (digitsOf n)) * 10 ^ ((k : Int) + place) :=
        congrArg (fun e : Int => (valueOf (dropZerosEnd (digitsOf n)) : ℚ) * 10 ^ e) hexp
    _ = (10 ^ k * valueOf (dropZerosEnd (digitsOf n)) : Nat) * 10 ^ place := by
      rw [zpow_add₀ (by norm_num), zpow_natCast]
      push_cast
      ring
    _ = n * 10 ^ place := by
      rw [← hvalue]

/-! ### Reading digits around a point -/

theorem spanDigits_digits (hd : ∀ c ∈ ds, c.isDigit = true) : spanDigits ds = (ds, []) := by
  rw [spanDigits, List.takeWhile_eq_self_iff.2 hd, List.dropWhile_eq_nil_iff.2 hd]

/-- Digits without a point. -/
theorem readUnsigned_whole (negative : Bool) (hne : ds ≠ [])
    (hd : ∀ c ∈ ds, c.isDigit = true) :
    readUnsigned negative ds = some (ofScientific negative (valueOf ds) 0) := by
  have hempty : ds.isEmpty = false := List.isEmpty_eq_false_iff.2 hne
  rw [readUnsigned, spanDigits_digits hd]
  simp [hempty, readExponent]

/-- Digits with a point, which stands before at least one of them. -/
theorem readUnsigned_point (negative : Bool) {fs : List Char} (hne : fs ≠ [])
    (hd : ∀ c ∈ ds, c.isDigit = true) (hf : ∀ c ∈ fs, c.isDigit = true) :
    readUnsigned negative (ds ++ '.' :: fs) =
      some (ofScientific negative (valueOf (ds ++ fs)) (-fs.length)) := by
  have hspan : spanDigits (ds ++ '.' :: fs) = (ds, '.' :: fs) := by
    rw [spanDigits, List.takeWhile_append_of_pos hd, List.dropWhile_append_of_pos hd]
    simp
  have hempty : fs.isEmpty = false := List.isEmpty_eq_false_iff.2 hne
  rw [readUnsigned, hspan]
  simp [spanDigits_digits hf, hempty, readExponent]

/-- Characters are read as a whole number and a power of ten whose product is the decimal. -/
def Digits.ReadFrom (d : Digits) (negative : Bool) (cs : List Char) : Prop :=
  ∃ (s : Nat) (e : Int), readUnsigned negative cs = some (ofScientific negative s e) ∧
    (s : ℚ) * 10 ^ e = d.value ∧ e ≤ 0 ∧ Min.min 0 (d.point - d.digits.length) ≤ e

section Positional

variable {d : Digits} (negative : Bool) (hne : d.digits ≠ [])
  (hd : ∀ c ∈ d.digits, c.isDigit = true)

include hne hd

/-- All digits stand behind the point. -/
theorem Digits.readFrom_behind (hpoint : d.point ≤ 0) :
    d.ReadFrom negative ('0' :: '.' :: List.replicate (-d.point).toNat '0' ++ d.digits) := by
  have hzeros : ∀ c ∈ List.replicate (-d.point).toNat '0' ++ d.digits, c.isDigit = true :=
    fun c hc => (List.mem_append.1 hc).elim isDigit_of_mem_zeros (hd c)
  have hexp : -((List.replicate (-d.point).toNat '0' ++ d.digits).length : Int) =
      d.point - d.digits.length := by
    rw [List.length_append, List.length_replicate]
    omega
  have hvalue : valueOf (['0'] ++ (List.replicate (-d.point).toNat '0' ++ d.digits)) =
      valueOf d.digits := by
    rw [valueOf_append, valueOf_append, valueOf_zeros]
    simp [valueOf, digitValue]
  have hread := readUnsigned_point negative (by simp [hne])
    (List.forall_mem_singleton.2 (show '0'.isDigit = true from rfl)) hzeros
  rw [hvalue, hexp] at hread
  exact ⟨_, _, hread, rfl, by omega, by omega⟩

/-- All digits stand before the point, with zeros behind them. -/
theorem Digits.readFrom_before (hlen : d.digits.length ≤ d.point.toNat) :
    d.ReadFrom negative
      (d.digits ++ List.replicate (d.point.toNat - d.digits.length) '0') := by
  have hzeros : ∀ c ∈ d.digits ++ List.replicate (d.point.toNat - d.digits.length) '0',
      c.isDigit = true :=
    fun c hc => (List.mem_append.1 hc).elim (hd c) isDigit_of_mem_zeros
  have hpos := List.length_pos_of_ne_nil hne
  have hexp : d.point - d.digits.length = ((d.point.toNat - d.digits.length : Nat) : Int) := by
    omega
  refine ⟨_, _, readUnsigned_whole negative (by simp [hne]) hzeros, ?_, le_rfl, by omega⟩
  rw [Digits.value, valueOf_append, valueOf_zeros, List.length_replicate, hexp, zpow_natCast,
    zpow_zero]
  push_cast
  ring

omit hne in
/-- The point stands among the digits. -/
theorem Digits.readFrom_among (hpoint : 0 < d.point) (hlen : d.point.toNat < d.digits.length) :
    d.ReadFrom negative (d.digits.take d.point.toNat ++ '.' :: d.digits.drop d.point.toNat) := by
  have hexp : -((d.digits.drop d.point.toNat).length : Int) = d.point - d.digits.length := by
    rw [List.length_drop]
    omega
  have hrest : d.digits.drop d.point.toNat ≠ [] := by
    rw [ne_eq, List.drop_eq_nil_iff]
    omega
  refine ⟨_, _, readUnsigned_point negative hrest (fun c hc => hd c (List.mem_of_mem_take hc))
    (fun c hc => hd c (List.mem_of_mem_drop hc)), ?_⟩
  rw [List.take_append_drop, hexp]
  exact ⟨rfl, by omega, by omega⟩

/-- Wherever the point is, the digits around it are read as the decimal. -/
theorem Digits.readFrom_positional : d.ReadFrom negative d.positional := by
  rw [positional]
  split
  · exact readFrom_behind negative hne hd ‹_›
  · dsimp only
    split
    · exact readFrom_before negative hne hd ‹_›
    · exact readFrom_among negative hd (by omega) (by omega)

end Positional

/-! ### Reading the digits of a number -/

open Binary

/-- The logarithm of the digits is bounded by their power of ten, as no number catches what
    has more binary digits than there are exponents. -/
theorem log2_lt_of_catches {b : Binary} {s : Nat} {e : Int} (hb : b.Legal) (he : e ≤ 0)
    (hs : 0 < s) (hc : b.Catches (s * 10 ^ e)) : (s.log2 : Int) < 1024 - 4 * e := by
  have hlt : (b.significand : ℚ) + 1 ≤ 2 ^ (53 : Int) := by exact_mod_cast hb.significand_lt
  have hten : (10 : ℚ) ^ (-e) ≤ 2 ^ (-4 * e) :=
    Shortest.zpow_le_of_pow_le (m := 1) (n := 4) (by norm_num) one_le_two (by decide)
      (by norm_num) (by omega) (by push_cast; omega)
  refine lt_of_zpow_lt ?_
  calc (2 : ℚ) ^ (s.log2 : Int) ≤ s := zpow_log2_le hs
    _ = s * 10 ^ e * 10 ^ (-e) := by
      rw [mul_assoc, ← zpow_add₀ (by norm_num), add_neg_cancel, zpow_zero, mul_one]
    _ ≤ (b.significand + 1 / 2) * 2 ^ b.exponent * 10 ^ (-e) :=
      mul_le_mul_of_nonneg_right hc.high (by positivity)
    _ < 2 ^ (53 : Int) * 2 ^ b.exponent * 10 ^ (-e) := by
      gcongr
      linarith
    _ ≤ 2 ^ (53 : Int) * 2 ^ (971 : Int) * 2 ^ (-4 * e) := by
      gcongr
      · norm_num
      · exact hb.exponent_le
    _ = 2 ^ (1024 - 4 * e) := by
      rw [← zpow_add₀ two_ne_zero, ← zpow_add₀ two_ne_zero]
      congr 1
      omega

/-- The number that catches a decimal is what is read of it. -/
theorem ofScientific_of_catches {x : Float} {s : Nat} {e : Int} (hf : x.isFinite = true)
    (hpos : 0 < (decode x).significand) (hge : -341 ≤ e) (hle : e ≤ 0)
    (hc : (decode x).Catches (s * 10 ^ e)) : ofScientific (decode x).negative s e = x := by
  have hb := legal_decode hf
  have hs : s ≠ 0 := by
    rintro rfl
    simpa using hc.pos hpos
  have hlog : (s.log2 : Int) < 1024 - 4 * e := log2_lt_of_catches hb hle (Nat.pos_of_ne_zero hs) hc
  have hmag : -decimalBound ≤ (s.log2 : Int) * 30103 / 100000 + e ∧
      (s.log2 : Int) * 30103 / 100000 + e ≤ decimalBound := by
    rw [decimalBound]
    omega
  rw [ofScientific, if_neg, if_neg (not_lt.2 hmag.2)]
  · split
    · rename_i h0
      refine nearest_eq (nearestBits_of_catches hb hpos Nat.one_pos ?_)
      rwa [Nat.cast_mul, cast_pow_toNat 10 h0, Nat.cast_one, div_one, Nat.cast_ofNat]
    · rename_i h0
      refine nearest_eq (nearestBits_of_catches hb hpos (Nat.pow_pos (by decide)) ?_)
      rwa [cast_pow_toNat_neg 10 h0, div_inv_eq_mul, Nat.cast_ofNat]
  · simpa [hs] using hmag.1

/-- The digits that are written for a positive number. -/
theorem digits_ofBinary {b : Binary} (hb : b.Legal) (hs : 0 < b.significand) :
    b.Catches (Shortest.ofBinary b).value ∧ (Shortest.ofBinary b).digits ≠ [] ∧
      (∀ c ∈ (Shortest.ofBinary b).digits, c.isDigit = true) ∧
      -341 ≤ (Shortest.ofBinary b).point - (Shortest.ofBinary b).digits.length := by
  obtain ⟨n, place, hc, hge, hof⟩ := Shortest.ofBinary_spec hb hs
  obtain ⟨k, hlen, -⟩ := valueOf_dropZerosEnd (digitsOf n)
  rw [← value_dropZerosEnd] at hc
  rw [hof]
  refine ⟨hc, fun h => ?_,
    fun c hmem => isDigit_of_mem_digitsOf (mem_of_mem_dropZerosEnd hmem), by dsimp only; omega⟩
  -- No digits stand for zero, which is not caught.
  have hzero : Digits.value ⟨dropZerosEnd (digitsOf n), (digitsOf n).length + place⟩ = 0 := by
    rw [Digits.value, show dropZerosEnd (digitsOf n) = [] from h, valueOf_eq]
    simp
  exact (hzero ▸ hc.pos hs).false

/-- The shortest decimal of a number reads back as the number. -/
theorem readUnsigned_ofBinary {x : Float} (hf : x.isFinite = true)
    (hpos : 0 < (decode x).significand) :
    readUnsigned (decode x).negative (Shortest.ofBinary (decode x)).positional = some x := by
  obtain ⟨hc, hne, hd, hge⟩ := digits_ofBinary (legal_decode hf) hpos
  obtain ⟨s, e, hread, heq, hle, hmin⟩ :=
    Digits.readFrom_positional (decode x).negative hne hd
  rw [hread, ofScientific_of_catches hf hpos (by omega) hle (heq ▸ hc)]

/-! ### Reading back -/

theorem toLower_of_isDigit {c : Char} (h : c.isDigit = true) : c.toLower = c := by
  rw [Char.isDigit, Bool.and_eq_true, decide_eq_true_eq, decide_eq_true_eq] at h
  rw [Char.toLower, dif_neg]
  rintro ⟨hupper, -⟩
  exact absurd (UInt32.le_trans hupper h.2) (by decide)

/-- What starts with a digit is none of the words that do not. -/
theorem word_ne {c d : Char} (hc : c.isDigit = true) (hd : d.isDigit = false) (cs ds : List Char) :
    (String.ofList ((c :: cs).map Char.toLower) == String.ofList (d :: ds)) = false := by
  rw [beq_eq_false_iff_ne, ne_eq, String.ofList_inj, List.map_cons, toLower_of_isDigit hc,
    List.cons.injEq]
  rintro ⟨rfl, -⟩
  exact absurd (hc.symm.trans hd) (by decide)

/-- What starts with a digit is read as digits. -/
theorem read?_of_digit {c : Char} (cs : List Char) (negative : Bool) (hc : c.isDigit = true) :
    read? (if negative then '-' :: c :: cs else c :: cs) = readUnsigned negative (c :: cs) := by
  have hsign : readSign (if negative then '-' :: c :: cs else c :: cs) = (negative, c :: cs) := by
    cases negative
    · -- A digit is no sign.
      rw [if_neg Bool.false_ne_true, readSign]
      · intro _ h
        rw [(List.cons.inj h).1] at hc
        exact absurd hc (by decide)
      · intro _ h
        rw [(List.cons.inj h).1] at hc
        exact absurd hc (by decide)
    · rfl
  have hinf : "inf" = String.ofList ['i', 'n', 'f'] := rfl
  have hinfinity : "infinity" = String.ofList ['i', 'n', 'f', 'i', 'n', 'i', 't', 'y'] := rfl
  have hnan : "nan" = String.ofList ['n', 'a', 'n'] := rfl
  rw [read?, hsign]
  dsimp only
  rw [hinf, hinfinity, hnan, word_ne hc (by decide), word_ne hc (by decide),
    word_ne hc (by decide)]
  rfl

/-- Digits around a point start with a digit. -/
theorem Digits.positional_eq_cons (d : Digits) (hne : d.digits ≠ [])
    (hd : ∀ c ∈ d.digits, c.isDigit = true) :
    ∃ c cs, d.positional = c :: cs ∧ c.isDigit = true := by
  obtain ⟨c, cs, hcons⟩ := List.exists_cons_of_ne_nil hne
  have hc : c.isDigit = true := hd c (hcons ▸ List.mem_cons_self)
  rw [positional]
  split
  · exact ⟨_, _, rfl, rfl⟩
  · rename_i hpoint
    dsimp only
    split
    · exact ⟨c, _, by rw [hcons, List.cons_append], hc⟩
    · obtain ⟨k, hk⟩ : ∃ k, d.point.toNat = k + 1 := ⟨d.point.toNat - 1, by omega⟩
      exact ⟨c, _, by rw [hk, hcons, List.take_succ_cons, List.cons_append], hc⟩

theorem read?_infinite (negative : Bool) :
    read? (if negative then '-' :: "inf".toList else "inf".toList) =
      some (nearest negative (Nat.pow 2 1024) 1) := by
  cases negative <;> rfl

theorem plainChars_eq {x : Float} (hn : x.isNaN = false) :
    plainChars x =
      let body := if !x.isFinite then "inf".toList
        else if (decode x).significand == 0 then ['0']
        else (Shortest.ofBinary (decode x)).positional
      if (decode x).negative then '-' :: body else body :=
  if_neg (Bool.eq_false_iff.1 hn)

theorem plainChars_of_infinite {x : Float} (hn : x.isNaN = false) (hf : x.isFinite = false) :
    plainChars x = if (decode x).negative then '-' :: "inf".toList else "inf".toList := by
  rw [plainChars_eq hn, hf]
  rfl

theorem plainChars_of_zero {x : Float} (hf : x.isFinite = true)
    (hzero : (decode x).significand = 0) :
    plainChars x = if (decode x).negative then ['-', '0'] else ['0'] := by
  rw [plainChars_eq (isNaN_of_isFinite hf), hf, hzero]
  rfl

theorem plainChars_of_pos {x : Float} (hf : x.isFinite = true)
    (hpos : 0 < (decode x).significand) :
    plainChars x = if (decode x).negative then '-' :: (Shortest.ofBinary (decode x)).positional
      else (Shortest.ofBinary (decode x)).positional := by
  rw [plainChars_eq (isNaN_of_isFinite hf), hf, beq_eq_false_iff_ne.2 hpos.ne']
  rfl

/-- What is written of a number is read as the number. -/
theorem read?_plainChars {x : Float} (hn : x.isNaN = false) : read? (plainChars x) = some x := by
  cases hf : x.isFinite with
  | false =>
    have hbits : nearestBits (Nat.pow 2 1024) 1 = (decode x).bits := by
      rw [bits_of_infinite hn hf]
      decide +kernel
    rw [plainChars_of_infinite hn hf, read?_infinite, nearest_eq hbits]
  | true =>
    by_cases hzero : (decode x).significand = 0
    · have hbits : nearestBits 0 1 = (decode x).bits := by
        have hexp : (decode x).exponent = -1074 := by
          by_contra h
          have := (legal_decode hf).normal h
          omega
        rw [bits, hexp, hzero]
        rfl
      have hread : readUnsigned (decode x).negative ['0'] =
          some (nearest (decode x).negative 0 1) :=
        readUnsigned_whole _ (List.cons_ne_nil _ _) (List.forall_mem_singleton.2 rfl)
      rw [plainChars_of_zero hf hzero, read?_of_digit _ _ (by decide), hread, nearest_eq hbits]
    · have hpos := Nat.pos_of_ne_zero hzero
      obtain ⟨-, hne, hd, -⟩ := digits_ofBinary (legal_decode hf) hpos
      obtain ⟨c, cs, hcons, hc⟩ := Digits.positional_eq_cons _ hne hd
      rw [plainChars_of_pos hf hpos, hcons, read?_of_digit _ _ hc, ← hcons,
        readUnsigned_ofBinary hf hpos]

/-! ### The characters of numbers -/

/-- The characters in which numbers are written. -/
def isNumeral (c : Char) : Bool := c.isDigit || ['-', '.', 'i', 'n', 'f'].contains c

theorem isNumeral_of_isDigit {c : Char} (h : c.isDigit = true) : isNumeral c = true := by
  rw [isNumeral, h, Bool.true_or]

theorem Digits.isNumeral_of_mem_positional (d : Digits) (hd : ∀ c ∈ d.digits, c.isDigit = true)
    {c : Char} (h : c ∈ d.positional) : isNumeral c = true := by
  rw [positional] at h
  split at h
  · rcases List.mem_append.1 h with h | h
    · rcases List.mem_cons.1 h with rfl | h
      · rfl
      · rcases List.mem_cons.1 h with rfl | h
        · rfl
        · exact isNumeral_of_isDigit (isDigit_of_mem_zeros h)
    · exact isNumeral_of_isDigit (hd c h)
  · dsimp only at h
    split at h
    · rcases List.mem_append.1 h with h | h
      · exact isNumeral_of_isDigit (hd c h)
      · exact isNumeral_of_isDigit (isDigit_of_mem_zeros h)
    · rcases List.mem_append.1 h with h | h
      · exact isNumeral_of_isDigit (hd c (List.mem_of_mem_take h))
      · rcases List.mem_cons.1 h with rfl | h
        · rfl
        · exact isNumeral_of_isDigit (hd c (List.mem_of_mem_drop h))

/-- Numbers are written in numerals, of which there is at least one. -/
theorem plainChars_numeral {x : Float} (hn : x.isNaN = false) :
    plainChars x ≠ [] ∧ ∀ c ∈ plainChars x, isNumeral c = true := by
  cases hf : x.isFinite with
  | false =>
    rw [plainChars_of_infinite hn hf]
    split <;> exact ⟨List.cons_ne_nil _ _, List.all_eq_true.1 rfl⟩
  | true =>
    by_cases hzero : (decode x).significand = 0
    · rw [plainChars_of_zero hf hzero]
      split <;> exact ⟨List.cons_ne_nil _ _, List.all_eq_true.1 rfl⟩
    · have hpos := Nat.pos_of_ne_zero hzero
      obtain ⟨-, hne, hd, -⟩ := digits_ofBinary (legal_decode hf) hpos
      obtain ⟨c, cs, hcons, -⟩ := Digits.positional_eq_cons _ hne hd
      have hmem : ∀ c ∈ (Shortest.ofBinary (decode x)).positional, isNumeral c = true :=
        fun c => Digits.isNumeral_of_mem_positional _ hd
      rw [plainChars_of_pos hf hpos]
      split
      · exact ⟨List.cons_ne_nil _ _, List.forall_mem_cons.2 ⟨rfl, hmem⟩⟩
      · exact ⟨hcons ▸ List.cons_ne_nil _ _, hmem⟩

end WorkPriority.Decimal
