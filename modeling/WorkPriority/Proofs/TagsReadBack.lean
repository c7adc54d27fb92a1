import WorkPriority.Proofs.ComparisonsReadBack

/-!
# Which tags read back

Tags are kept in documents as the text that is written of them, so that writing
a tag must not change it. For almost all tags it does not: what is written of a
tag that was read is read as the same tag if, and only if, the tag is *clear*
(`Tag.same_read_write`). All tags are, but for comparisons that are themselves
not clear, and for names in front of comparisons that seem to end too early.

A name in front of a comparison is as short as possible and has one character at
least. So it is read back unless it is empty, or a comparison can be read within
it, behind its first character (`Tag.isClearName`).
-/

namespace WorkPriority

/-- The name of its own that a quantity has. -/
def Measure.name? : Measure → Option String
  | attr name | need name => some name
  | stack | hitPoints => none

namespace Tag

open Text

/-! ### Where comparisons are read -/

variable {cs name w : List Char} {c : Comparison}

/-- On one line there is a comparison wherever an operator stands behind blanks. -/
theorem readComparison?_isSome_iff (hline : '\n' ∉ cs) :
    (readComparison? cs).isSome = true ↔
      ∃ (op : Operator) (rest : List Char), cs.dropWhile isBlank = op.sign ++ rest := by
  rw [← Operator.isSome_read?_iff, readComparison?]
  cases hop : Operator.read? (cs.dropWhile isBlank) with
  | none => rfl
  | some found =>
    obtain ⟨op, rest⟩ := found
    have hmem : '\n' ∉ rest.dropWhile isBlank := by
      intro h
      have hrest : '\n' ∈ op.sign ++ rest :=
        List.mem_append_right _ ((List.dropWhile_sublist _).subset h)
      rw [← Operator.eq_of_read? hop] at hrest
      exact hline ((List.dropWhile_sublist _).subset hrest)
    dsimp only
    rw [if_neg fun hc => hmem (List.contains_iff_mem.1 hc)]
    rfl

/-! ### Names -/

/-- A text as a name and a comparison behind it: the name has a character, is on one line, and
    there is no comparison behind any shorter name. -/
structure NameSplit (cs name rest : List Char) (c : Comparison) : Prop where
  /-- Together they are the text. -/
  text : cs = name ++ rest
  /-- The name is not empty. -/
  ne_nil : name ≠ []
  /-- The name is on one line. -/
  line : '\n' ∉ name
  /-- The comparison stands behind the name. -/
  comparison : readComparison? rest = some c
  /-- No shorter name will do. -/
  shortest : ∀ as bs, name = as ++ bs → as ≠ [] → bs ≠ [] → readComparison? (bs ++ rest) = none

/-- The first character belongs to the name, and what follows is the name again if no
    comparison stands there. -/
theorem nameSplit_cons_iff {a : Char} {rest : List Char} (ha : a ≠ '\n')
    (hnone : readComparison? cs = none) :
    NameSplit (a :: cs) name rest c ↔ ∃ tail, name = a :: tail ∧ NameSplit cs tail rest c := by
  constructor
  · intro h
    obtain ⟨b, tail, rfl⟩ := List.exists_cons_of_ne_nil h.ne_nil
    obtain ⟨rfl, htext⟩ := List.cons.inj h.text
    have htext : cs = tail ++ rest := htext
    refine ⟨tail, rfl, htext, ?_, fun hmem => h.line (List.mem_cons_of_mem _ hmem), h.comparison,
      fun as bs heq _ hbs => ?_⟩
    · rintro rfl
      rw [List.nil_append] at htext
      rw [htext, h.comparison] at hnone
      cases hnone
    · exact h.shortest (a :: as) bs (congrArg (a :: ·) heq) (List.cons_ne_nil _ _) hbs
  · rintro ⟨tail, rfl, h⟩
    refine ⟨congrArg (a :: ·) h.text, List.cons_ne_nil _ _, ?_, h.comparison,
      fun as bs heq has hbs => ?_⟩
    · simpa [Ne.symm ha] using h.line
    · obtain ⟨b, as, rfl⟩ := List.exists_cons_of_ne_nil has
      have htail : tail = as ++ bs := (List.cons.inj heq).2
      by_cases hnil : as = []
      · rw [hnil, List.nil_append] at htail
        rwa [← htail, ← h.text]
      · exact h.shortest as bs htail hnil hbs

/-- The name ends where a comparison stands. -/
theorem nameSplit_singleton_iff {a : Char} {rest : List Char} {d : Comparison} (ha : a ≠ '\n')
    (hsome : readComparison? cs = some d) :
    NameSplit (a :: cs) name rest c ↔ name = [a] ∧ rest = cs ∧ c = d := by
  constructor
  · intro h
    obtain ⟨b, tail, rfl⟩ := List.exists_cons_of_ne_nil h.ne_nil
    obtain ⟨rfl, htext⟩ := List.cons.inj h.text
    have htext : cs = tail ++ rest := htext
    have hnil : tail = [] := by
      by_contra hne
      have hnone := h.shortest [a] tail rfl (List.cons_ne_nil _ _) hne
      rw [← htext, hsome] at hnone
      cases hnone
    have hcomp := h.comparison
    rw [hnil, List.nil_append] at htext
    rw [← htext, hsome] at hcomp
    exact ⟨by rw [hnil], htext.symm, (Option.some.inj hcomp).symm⟩
  · rintro ⟨rfl, rfl, rfl⟩
    refine ⟨rfl, List.cons_ne_nil _ _, by simpa using Ne.symm ha, hsome,
      fun as bs heq has hbs => ?_⟩
    -- One character is not split into two parts.
    have hlen := congrArg List.length heq
    have := List.length_pos_iff.2 has
    have := List.length_pos_iff.2 hbs
    rw [List.length_append, List.length_singleton] at hlen
    omega

/-- The name that is read is the one that splits the text. -/
theorem readNamed?_eq_some_iff {before : List Char} : readNamed? before cs = some (name, c) ↔
    ∃ raw rest, NameSplit cs raw rest c ∧ name = before.reverse ++ raw := by
  induction cs generalizing before with
  | nil =>
    refine iff_of_false (by simp [readNamed?]) ?_
    rintro ⟨raw, rest, h, -⟩
    exact h.ne_nil (List.append_eq_nil_iff.1 h.text.symm).1
  | cons a cs ih =>
    rw [readNamed?]
    by_cases ha : a = '\n'
    · rw [if_pos (beq_iff_eq.2 ha)]
      refine iff_of_false (by simp) ?_
      rintro ⟨raw, rest, h, -⟩
      obtain ⟨b, tail, rfl⟩ := List.exists_cons_of_ne_nil h.ne_nil
      exact h.line (ha ▸ (List.cons.inj h.text).1 ▸ List.mem_cons_self)
    · rw [if_neg (by simpa using ha)]
      cases hcs : readComparison? cs with
      | none =>
        dsimp only
        rw [ih]
        constructor
        · rintro ⟨tail, rest, h, rfl⟩
          exact ⟨a :: tail, rest, (nameSplit_cons_iff ha hcs).2 ⟨tail, rfl, h⟩, by simp⟩
        · rintro ⟨raw, rest, h, rfl⟩
          obtain ⟨tail, rfl, htail⟩ := (nameSplit_cons_iff ha hcs).1 h
          exact ⟨tail, rest, htail, by simp⟩
      | some d =>
        constructor
        · intro heq
          cases heq
          exact ⟨[a], cs, (nameSplit_singleton_iff ha hcs).2 ⟨rfl, rfl, rfl⟩, List.reverse_cons⟩
        · rintro ⟨raw, rest, h, rfl⟩
          obtain ⟨rfl, -, rfl⟩ := (nameSplit_singleton_iff ha hcs).1 h
          rw [List.reverse_cons]

/-- Whether no comparison seems to stand within a name, behind its first character, when it
    is written in front of a text. -/
def isClearName (rest : List Char) : List Char → Bool
  | [] => false
  | _ :: tail =>
    !tail.any ['<', '>', '='].contains && !(tail.getLast? == some '!' && rest.head? == some '=')

theorem readComparison?_eq_none_iff {d : Char} {ds : List Char} (hline : '\n' ∉ cs)
    (hdrop : cs.dropWhile isBlank = d :: ds) : readComparison? cs = none ↔
      d ∉ ['<', '>', '='] ∧ ¬(d = '!' ∧ ds.head? = some '=') := by
  rw [← Option.not_isSome_iff_eq_none, readComparison?_isSome_iff hline, hdrop,
    Operator.exists_sign_append_iff, not_or]

/-- A name is clear if none of its characters but the first seems to start an operator. -/
theorem isClearName_iff {a : Char} {tail rest : List Char} : isClearName rest (a :: tail) = true ↔
    (∀ c ∈ tail, c ∉ ['<', '>', '=']) ∧
      ¬(tail.getLast? = some '!' ∧ rest.head? = some '=') := by
  rw [isClearName, Bool.and_eq_true, Bool.not_eq_true', Bool.not_eq_true', Bool.and_eq_false_iff,
    List.any_eq_false]
  simp only [List.contains_iff_mem, beq_eq_false_iff_ne, not_and_or, ne_eq]

variable {a : Char} {tail : List Char}

/-- No comparison is read within a clear name. -/
theorem readComparison?_within {as bs : List Char}
    (hlast : ∀ c ∈ tail.getLast?, isBlank c = false) (hline : '\n' ∉ tail ++ w)
    (hclear : isClearName w (a :: tail) = true) (htail : tail = as ++ bs) (hbs : bs ≠ []) :
    readComparison? (bs ++ w) = none := by
  obtain ⟨hsigns, hbang⟩ := isClearName_iff.1 hclear
  subst htail
  obtain ⟨pre, d, ds, rfl, hpre, hd⟩ := exists_first hbs (last_of_append hlast)
  have hdrop : (pre ++ d :: ds ++ w).dropWhile isBlank = d :: (ds ++ w) := by
    rw [List.append_assoc, List.dropWhile_append_of_pos hpre]
    exact List.dropWhile_cons_of_neg (Bool.eq_false_iff.1 hd)
  have hline' : '\n' ∉ pre ++ d :: ds ++ w := fun h =>
    hline (by rw [List.append_assoc]; exact List.mem_append_right _ h)
  rw [readComparison?_eq_none_iff hline' hdrop]
  refine ⟨hsigns d (by simp), ?_⟩
  rintro ⟨rfl, hequals⟩
  -- The equals sign behind the mark is in the name, or it is the first of the comparison.
  cases ds with
  | nil => exact hbang ⟨by simp, hequals⟩
  | cons e es =>
    have he : e = '=' := Option.some.inj hequals
    exact hsigns e (by simp) (by simp [he])

/-- Within a name that is not clear a comparison is read. -/
theorem exists_readComparison?_within (hline : '\n' ∉ tail ++ w)
    (hclear : isClearName w (a :: tail) = false) :
    ∃ as bs, tail = as ++ bs ∧ bs ≠ [] ∧ readComparison? (bs ++ w) ≠ none := by
  have hsplit (as : List Char) (d : Char) (ds : List Char) (heq : tail = as ++ d :: ds)
      (hd : d ∈ ['<', '>', '='] ∨ d = '!' ∧ (ds ++ w).head? = some '=') :
      ∃ as bs, tail = as ++ bs ∧ bs ≠ [] ∧ readComparison? (bs ++ w) ≠ none := by
    refine ⟨as, d :: ds, heq, List.cons_ne_nil _ _, ?_⟩
    have hblank : isBlank d = false := by
      rcases hd with hd | ⟨rfl, -⟩
      · simp only [List.mem_cons, List.not_mem_nil, or_false] at hd
        rcases hd with rfl | rfl | rfl <;> rfl
      · rfl
    have hline' : '\n' ∉ d :: ds ++ w := fun h =>
      hline (by rw [heq, List.append_assoc]; exact List.mem_append_right _ h)
    rw [ne_eq, readComparison?_eq_none_iff hline'
      (List.dropWhile_cons_of_neg (Bool.eq_false_iff.1 hblank)), not_and_or, not_not, not_not]
    exact hd
  rw [← Bool.not_eq_true, isClearName_iff, not_and_or, not_not] at hclear
  rcases hclear with hsign | ⟨hmark, hequals⟩
  · push Not at hsign
    obtain ⟨d, hmem, hd⟩ := hsign
    obtain ⟨as, ds, heq⟩ := List.append_of_mem hmem
    exact hsplit as d ds heq (.inl hd)
  · obtain ⟨as, heq⟩ := List.getLast?_eq_some_iff.1 hmark
    exact hsplit as '!' [] heq (.inr ⟨rfl, hequals⟩)

/-- A name in front of a comparison is read back if it is clear. -/
theorem readNamed?_of_isClearName (htrim : Trimmed name) (hline : '\n' ∉ name ++ w)
    (hread : readComparison? w = some c) (hclear : isClearName w name = true) :
    readNamed? [] (name ++ w) = some (name, c) := by
  cases name with
  | nil => cases hclear
  | cons a tail =>
    refine readNamed?_eq_some_iff.2 ⟨a :: tail, w, ⟨rfl, List.cons_ne_nil _ _,
      fun h => hline (List.mem_append_left _ h), hread, fun as bs heq has hbs => ?_⟩, rfl⟩
    obtain ⟨b, as, rfl⟩ := List.exists_cons_of_ne_nil has
    have hlast : ∀ c ∈ ([a] ++ tail).getLast?, isBlank c = false := htrim.last
    exact readComparison?_within (last_of_append hlast)
      (fun h => hline (List.mem_cons_of_mem _ h)) hclear (List.cons.inj heq).2 hbs

/-- A name that is not clear is not read back. -/
theorem trimChars_ne_of_not_isClearName (hline : '\n' ∉ name ++ w)
    (hhead : ∀ c ∈ w.head?, isBlank c = false) (hread : readComparison? w = some c)
    (hclear : isClearName w name = false) {raw : List Char} {d : Comparison}
    (h : readNamed? [] (name ++ w) = some (raw, d)) : trimChars raw ≠ name := by
  obtain ⟨raw, rest, hsplit, rfl⟩ := readNamed?_eq_some_iff.1 h
  intro htrim
  cases name with
  | nil =>
    -- The operator becomes the name, and is no blank.
    obtain ⟨b, tail, rfl⟩ := List.exists_cons_of_ne_nil hsplit.ne_nil
    have hb : w.head? = some b := by
      rw [← List.nil_append w, hsplit.text]
      rfl
    have hblank := blank_of_trimChars_eq_nil htrim b List.mem_cons_self
    rw [hhead b hb] at hblank
    cases hblank
  | cons a tail =>
    obtain ⟨as, bs, htail, hbs, hsome⟩ :=
      exists_readComparison?_within (fun h => hline (List.mem_cons_of_mem _ h)) hclear
    -- A name that reads back is neither longer nor shorter than what was written.
    have hraw : raw = a :: tail ∧ rest = w := by
      rcases List.append_eq_append_iff.1 hsplit.text with ⟨e, hraw, hw⟩ | ⟨e, hname, hrest⟩
      · have hnil : e = [] := by
          by_contra hne
          have hnone := hsplit.shortest _ e hraw (List.cons_ne_nil _ _) hne
          rw [← hw, hread] at hnone
          cases hnone
        rw [hnil] at hraw hw
        exact ⟨hraw.trans (List.append_nil _), hw.symm⟩
      · have hlen := length_trimChars_le raw
        rw [htrim, hname, List.length_append] at hlen
        have hnil : e = [] := List.length_eq_zero_iff.1 (by omega)
        rw [hnil] at hname hrest
        exact ⟨(hname.trans (List.append_nil _)).symm, hrest⟩
    obtain ⟨rfl, rfl⟩ := hraw
    exact hsome (hsplit.shortest (a :: as) bs (congrArg (a :: ·) htail) (List.cons_ne_nil _ _) hbs)

/-! ### Measured quantities -/

/-- A tag that reads back: only a comparison may be in the way of that, or a name in front
    of a comparison. -/
def isClear : Tag → Bool
  | not t => t.isClear
  | measure m c => c.isClear && m.name?.all fun n => isClearName c.writeChars n.toList
  | _ => true

/-- A quantity and a comparison that were read from one line. -/
structure IsMeasured (m : Measure) (c : Comparison) : Prop where
  /-- The comparison was read. -/
  comparison : c.IsRead
  /-- The name has no blanks around it. -/
  trimmed : ∀ n ∈ m.name?, Trimmed n.toList
  /-- The name is on one line. -/
  line : ∀ n ∈ m.name?, '\n' ∉ n.toList

variable {m : Measure} {t : Tag}

theorem isMeasured_of_readNamedMeasure? {measure : String → Measure}
    (hname : ∀ n, (measure n).name? = some n) (hlast : ∀ c ∈ cs.getLast?, isBlank c = false)
    (h : readNamedMeasure? measure cs = some t) :
    ∃ m c, t = .measure m c ∧ IsMeasured m c := by
  obtain ⟨⟨raw, c⟩, hnamed, rfl⟩ := Option.map_eq_some_iff.1 h
  obtain ⟨raw, rest, hsplit, rfl⟩ := readNamed?_eq_some_iff.1 hnamed
  rw [hsplit.text] at hlast
  refine ⟨_, _, rfl, Comparison.isRead_of_readComparison? (last_of_append hlast)
    hsplit.comparison, fun n hn => ?_, fun n hn => ?_⟩
  · rw [hname, Option.mem_some_iff] at hn
    rw [← hn, String.toList_ofList]
    exact trimmed_trimChars _
  · rw [hname, Option.mem_some_iff] at hn
    rw [← hn, String.toList_ofList]
    exact fun hmem => hsplit.line (trimChars_subset _ hmem)

/-- What is read as a quantity and a comparison. -/
theorem isMeasured_of_readMeasure? (hlast : ∀ c ∈ cs.getLast?, isBlank c = false)
    (h : readMeasure? cs = some t) : ∃ m c, t = .measure m c ∧ IsMeasured m c := by
  have hunnamed {lead rest : List Char} {m : Measure} (hm : m.name? = none)
      (hlead : stripLead lead cs = some rest)
      (hread : (readComparison? rest).map (.measure m) = some t) :
      ∃ m c, t = .measure m c ∧ IsMeasured m c := by
    obtain ⟨c, hc, rfl⟩ := Option.map_eq_some_iff.1 hread
    rw [stripLead_eq_some.1 hlead] at hlast
    refine ⟨m, c, rfl, Comparison.isRead_of_readComparison? (last_of_append hlast) hc, ?_, ?_⟩
    · simp [hm]
    · simp [hm]
  have hnamed {lead rest : List Char} {measure : String → Measure}
      (hm : ∀ n, (measure n).name? = some n) (hlead : stripLead lead cs = some rest)
      (hread : readNamedMeasure? measure rest = some t) :
      ∃ m c, t = .measure m c ∧ IsMeasured m c := by
    rw [stripLead_eq_some.1 hlead] at hlast
    exact isMeasured_of_readNamedMeasure? hm (last_of_append hlast) hread
  rw [readMeasure?] at h
  split at h
  · exact hunnamed rfl ‹_› h
  · split at h
    · exact hunnamed rfl ‹_› h
    · split at h
      · exact hnamed (fun _ => rfl) ‹_› h
      · split at h
        · exact hnamed (fun _ => rfl) ‹_› h
        · cases h

/-! ### Memberships -/

/-- The memberships that keep a name, under the word before the colon. -/
def named : List (List Char × (String → Tag)) :=
  [("def".toList, definition), ("kind".toList, kind), ("category".toList, category),
    ("race".toList, race), ("trait".toList, trait), ("affliction".toList, affliction)]

/-- A membership keeps a name, or stands for one of few words. -/
theorem readMembership?_cases {key value : List Char} (h : readMembership? key value = some t) :
    (∃ p ∈ named, ∃ v, Trimmed v ∧ v ≠ [] ∧ t = p.2 (String.ofList v)) ∨
      (∃ a, t = allegiance a) ∨ ∃ k, t = zone k := by
  rw [readMembership?] at h
  dsimp only at h
  split at h
  · cases h
  · rename_i hempty
    have hv : trimChars value ≠ [] := by simpa using hempty
    have hnamed {make : String → Tag} {k : List Char} (hmem : (k, make) ∈ named)
        (ht : some (make (String.ofList (trimChars value))) = some t) :
        ∃ p ∈ named, ∃ v, Trimmed v ∧ v ≠ [] ∧ t = p.2 (String.ofList v) :=
      ⟨_, hmem, _, trimmed_trimChars value, hv, (Option.some.inj ht).symm⟩
    split at h
    · exact .inl (hnamed (k := "def".toList) (by simp [named]) h)
    · exact .inl (hnamed (k := "kind".toList) (by simp [named]) h)
    · exact .inl (hnamed (k := "category".toList) (by simp [named]) h)
    · exact .inl (hnamed (k := "race".toList) (by simp [named]) h)
    · exact .inl (hnamed (k := "trait".toList) (by simp [named]) h)
    · exact .inl (hnamed (k := "affliction".toList) (by simp [named]) h)
    · obtain ⟨a, -, ha⟩ := Option.map_eq_some_iff.1 h
      exact .inr (.inl ⟨a, ha.symm⟩)
    · obtain ⟨k, -, hk⟩ := Option.map_eq_some_iff.1 h
      exact .inr (.inr ⟨k, hk.symm⟩)
    · cases h

theorem writeChars_named : ∀ p ∈ named, ∀ n, (p.2 n).writeChars = p.1 ++ ':' :: n.toList := by
  simp only [named, List.forall_mem_cons]
  exact ⟨fun _ => rfl, fun _ => rfl, fun _ => rfl, fun _ => rfl, fun _ => rfl, fun _ => rfl,
    by simp⟩

/-- No word of a membership is that of a quantity. -/
theorem readMeasure?_named : ∀ p ∈ named, ∀ v, readMeasure? (p.1 ++ ':' :: v) = none := by
  simp only [named, List.forall_mem_cons]
  exact ⟨fun _ => rfl, fun _ => rfl, fun _ => rfl, fun _ => rfl, fun _ => rfl, fun _ => rfl,
    by simp⟩

theorem readMembership?_named {v : List Char} (htrim : Trimmed v) (hne : v ≠ []) :
    ∀ p ∈ named, readMembership? p.1 v = some (p.2 (String.ofList v)) := by
  have hempty : v.isEmpty = false := List.isEmpty_eq_false_iff.2 hne
  have hkey : ∀ k ∈ ["def", "kind", "category", "race", "trait", "affliction"],
      keyword (trimChars k.toList) = k := by decide
  simp only [List.forall_mem_cons] at hkey
  obtain ⟨hdef, hkind, hcategory, hrace, htrait, haffliction, -⟩ := hkey
  rw [named, List.forall_mem_cons, List.forall_mem_cons, List.forall_mem_cons,
    List.forall_mem_cons, List.forall_mem_cons, List.forall_mem_cons]
  dsimp only [readMembership?]
  rw [htrim.trimChars_eq, hempty, hdef, hkind, hcategory, hrace, htrait, haffliction]
  exact ⟨rfl, rfl, rfl, rfl, rfl, rfl, by simp⟩

/-- The words of memberships have neither colons, blanks nor marks. -/
theorem key_named : ∀ p ∈ named, p.1 ≠ [] ∧ ∀ c ∈ p.1, isBlank c = false ∧ c ≠ ':' ∧ c ≠ '!' := by
  have hall : named.all (fun p => !p.1.isEmpty &&
      p.1.all fun c => !isBlank c && c != ':' && c != '!') = true := rfl
  intro p hp
  have h := List.all_eq_true.1 hall p hp
  simpa [and_assoc] using h

/-! ### Atoms -/

/-- A text that is no negation is read as an atom, without the blanks around it. -/
theorem readChars_eq_readAtom_trimChars (hmark : (trimChars cs).head? ≠ some '!') :
    readChars cs = readAtom (trimChars cs) := by
  induction cs with
  | nil => rfl
  | cons c cs ih =>
    rw [readChars]
    cases hc : isBlank c with
    | true =>
      rw [trimChars_cons_of_blank hc] at hmark ⊢
      exact ih hmark
    | false =>
      rw [trimChars_cons_of_not_blank hc] at hmark ⊢
      have hne : c ≠ '!' := fun h => hmark (congrArg some h)
      rw [if_neg Bool.false_ne_true, if_neg (by simpa using hne), trimEnd_cons hc]

theorem readChars_eq_readAtom (htrim : Trimmed cs) (hmark : cs.head? ≠ some '!') :
    readChars cs = readAtom cs := by
  rw [← htrim.trimChars_eq] at hmark
  rw [readChars_eq_readAtom_trimChars hmark, htrim.trimChars_eq]

/-- A membership that keeps a name is read back. -/
theorem readChars_named {v : List Char} (htrim : Trimmed v) (hne : v ≠ [])
    {p : List Char × (String → Tag)} (hp : p ∈ named) :
    readChars (p.2 (String.ofList v)).writeChars = p.2 (String.ofList v) := by
  obtain ⟨hkey, hchars⟩ := key_named p hp
  obtain ⟨a, as, ha⟩ := List.exists_cons_of_ne_nil hkey
  obtain ⟨hblank, -, hmark⟩ := hchars a (ha ▸ List.mem_cons_self)
  have hcolon : ':' ∉ p.1 := fun h => (hchars _ h).2.1 rfl
  have hhead : (p.1 ++ ':' :: v).head? = some a := by rw [ha]; rfl
  have hlast : (p.1 ++ ':' :: v).getLast? = v.getLast? := by
    rw [List.append_cons, List.getLast?_append_of_ne_nil _ hne]
  have hwhole : Trimmed (p.1 ++ ':' :: v) := by
    refine ⟨fun c hc => ?_, fun c hc => htrim.last c (hlast ▸ hc)⟩
    rw [hhead, Option.mem_some_iff] at hc
    exact hc ▸ hblank
  rw [writeChars_named p hp, String.toList_ofList, readChars_eq_readAtom hwhole, readAtom,
    readMeasure?_named p hp, splitOnce_append v hcolon]
  · dsimp only
    rw [readMembership?_named htrim hne p hp]
    rfl
  · rw [hhead]
    exact fun h => hmark (Option.some.inj h)

theorem readChars_flag (f : Flag) : readChars (flag f).writeChars = flag f := by
  cases f <;> rfl

theorem readChars_allegiance (a : Allegiance) :
    readChars (allegiance a).writeChars = allegiance a := by
  cases a <;> rfl

theorem readChars_zone (k : ZoneKind) : readChars (zone k).writeChars = zone k := by
  cases k <;> rfl

/-- What an atom is that compares no quantity. -/
inductive Unmeasured (cs : List Char) : Tag → Prop
  /-- A membership that keeps a name. -/
  | named {p : List Char × (String → Tag)} {v : List Char} (hp : p ∈ named) (htrim : Trimmed v)
    (hne : v ≠ []) : Unmeasured cs (p.2 (String.ofList v))
  /-- A property. -/
  | flag (f : Flag) : Unmeasured cs (flag f)
  /-- An allegiance. -/
  | allegiance (a : Allegiance) : Unmeasured cs (allegiance a)
  /-- A kind of zone. -/
  | zone (k : ZoneKind) : Unmeasured cs (zone k)
  /-- The text itself, which is no tag. -/
  | unknown (h : readAtom cs = unknown (String.ofList cs)) :
    Unmeasured cs (unknown (String.ofList cs))

theorem unmeasured_of_readMeasure?_eq_none (h : readMeasure? cs = none) :
    Unmeasured cs (readAtom cs) := by
  have hatom := readAtom.eq_1 cs
  rw [h] at hatom
  dsimp only at hatom
  split at hatom
  · rename_i key value _
    cases hmember : readMembership? key value with
    | none =>
      rw [hmember] at hatom
      exact hatom ▸ .unknown hatom
    | some t =>
      rw [hmember] at hatom
      rw [hatom]
      rcases readMembership?_cases hmember with ⟨p, hp, v, htrim, hne, rfl⟩ | ⟨a, rfl⟩ | ⟨k, rfl⟩
      · exact .named hp htrim hne
      · exact .allegiance a
      · exact .zone k
  · cases hflag : Flag.ofWord? cs with
    | none =>
      rw [hflag] at hatom
      exact hatom ▸ .unknown hatom
    | some f =>
      rw [hflag] at hatom
      exact hatom ▸ .flag f

/-- It is not the same as a quantity and a comparison. -/
theorem Unmeasured.same_measure (h : Unmeasured cs t) (m : Measure) (c : Comparison) :
    t.same (measure m c) = false := by
  cases h with
  | named hp =>
    have hnamed : ∀ p ∈ Tag.named, ∀ n, (p.2 n).same (measure m c) = false := by
      simp [Tag.named, same]
    exact hnamed _ hp _
  | flag | allegiance | zone | unknown => rfl

/-- It is read back. -/
theorem Unmeasured.same_readChars (h : Unmeasured cs t) (htrim : Trimmed cs)
    (hmark : cs.head? ≠ some '!') : (readChars t.writeChars).same t = t.isClear := by
  cases h with
  | named hp hv hne =>
    have hnamed : ∀ p ∈ Tag.named, ∀ n, (p.2 n).same (p.2 n) = (p.2 n).isClear := by
      simp [Tag.named, same, isClear]
    rw [readChars_named hv hne hp, hnamed _ hp]
  | flag f =>
    rw [readChars_flag]
    exact beq_self_eq_true f
  | allegiance a =>
    rw [readChars_allegiance]
    exact beq_self_eq_true a
  | zone k =>
    rw [readChars_zone]
    exact beq_self_eq_true k
  | unknown h =>
    -- Its text is read once more.
    have hwrite : (Tag.unknown (String.ofList cs)).writeChars = cs := String.toList_ofList
    rw [hwrite, readChars_eq_readAtom htrim hmark, h]
    exact beq_self_eq_true (String.ofList cs)

/-- Only what is read as a quantity may be the same as one. -/
theorem same_readAtom_measure (cs : List Char) (m : Measure) (c : Comparison) :
    (readAtom cs).same (measure m c) = (readMeasure? cs).any fun t => t.same (measure m c) := by
  cases h : readMeasure? cs with
  | some t =>
    rw [readAtom, h]
    rfl
  | none => exact (unmeasured_of_readMeasure?_eq_none h).same_measure m c

theorem writeChars_measure (m : Measure) (c : Comparison) :
    (measure m c).writeChars = m.writeChars ++ c.writeChars :=
  rfl

/-- What is written of a quantity and a comparison is an atom. -/
theorem readChars_measure (h : IsMeasured m c) :
    readChars (measure m c).writeChars = readAtom (measure m c).writeChars := by
  have htrim := Comparison.trimmed_writeChars h.comparison
  have hne := Comparison.writeChars_ne_nil h.comparison
  obtain ⟨a, as, ha, hblank, hmark⟩ : ∃ a as, m.writeChars = a :: as ∧ isBlank a = false ∧
      a ≠ '!' := by
    cases m <;> exact ⟨_, _, rfl, by decide, by decide⟩
  have hhead : (m.writeChars ++ c.writeChars).head? = some a := by rw [ha]; rfl
  refine readChars_eq_readAtom ⟨fun b hb => ?_, fun b hb => htrim.last b ?_⟩ ?_
  · rw [writeChars_measure, hhead, Option.mem_some_iff] at hb
    exact hb ▸ hblank
  · rwa [writeChars_measure, List.getLast?_append_of_ne_nil _ hne] at hb
  · rw [writeChars_measure, hhead]
    exact fun h => hmark (Option.some.inj h)

/-- A quantity without a name is read back if its comparison is. -/
theorem readBack_unnamed (h : c.IsRead)
    (hread : readMeasure? (m.writeChars ++ c.writeChars) =
      (readComparison? c.writeChars).map (measure m)) :
    ((readMeasure? (m.writeChars ++ c.writeChars)).any fun t => t.same (measure m c)) =
      c.isClear := by
  obtain ⟨d, hd, hsame⟩ := Comparison.readBack h
  rw [hread, hd, ← hsame]
  exact congrArg (· && d.same c) (beq_self_eq_true m)

/-- A quantity with a name is read back if its comparison is, and its name is clear. -/
theorem readBack_named (make : String → Measure) {n : String}
    (hinj : ∀ n n', make n = make n' → n = n') (h : c.IsRead) (htrim : Trimmed n.toList)
    (hline : '\n' ∉ n.toList) :
    ((readNamedMeasure? make (n.toList ++ c.writeChars)).any
        fun t => t.same (measure (make n) c)) =
      (c.isClear && isClearName c.writeChars n.toList) := by
  obtain ⟨d, hd, hsame⟩ := Comparison.readBack h
  have hline' : '\n' ∉ n.toList ++ c.writeChars := by
    rw [List.mem_append, not_or]
    exact ⟨hline, Comparison.newline_not_mem_writeChars h⟩
  rw [readNamedMeasure?]
  cases hclear : isClearName c.writeChars n.toList with
  | true =>
    rw [readNamed?_of_isClearName htrim hline' hd hclear, Bool.and_true, ← hsame]
    dsimp only [Option.map_some, Option.any_some]
    rw [htrim.trimChars_eq, String.ofList_toList]
    exact congrArg (· && d.same c) (beq_self_eq_true (make n))
  | false =>
    rw [Bool.and_false]
    cases hnamed : readNamed? [] (n.toList ++ c.writeChars) with
    | none => rfl
    | some found =>
      obtain ⟨raw, e⟩ := found
      have hne := trimChars_ne_of_not_isClearName hline'
        (Comparison.trimmed_writeChars h).head hd hclear hnamed
      have hmake : (make (String.ofList (trimChars raw)) == make n) = false := by
        rw [beq_eq_false_iff_ne]
        intro heq
        exact hne (by rw [← hinj _ _ heq, String.toList_ofList])
      exact congrArg (· && e.same c) hmake

/-- What is read back of a quantity and a comparison. -/
theorem same_readChars_measure (h : IsMeasured m c) :
    (readChars (measure m c).writeChars).same (measure m c) = (measure m c).isClear := by
  rw [readChars_measure h, same_readAtom_measure, writeChars_measure, isClear]
  cases m with
  | stack => exact (readBack_unnamed h.comparison rfl).trans (Bool.and_true _).symm
  | hitPoints => exact (readBack_unnamed h.comparison rfl).trans (Bool.and_true _).symm
  | attr n =>
    exact readBack_named .attr (fun _ _ => Measure.attr.inj) h.comparison
      (h.trimmed n rfl) (h.line n rfl)
  | need n =>
    exact readBack_named .need (fun _ _ => Measure.need.inj) h.comparison
      (h.trimmed n rfl) (h.line n rfl)

/-- An atom is read back just if it is clear. -/
theorem same_readChars_atom (htrim : Trimmed cs) (hmark : cs.head? ≠ some '!') :
    (readChars (readAtom cs).writeChars).same (readAtom cs) = (readAtom cs).isClear := by
  cases h : readMeasure? cs with
  | some t =>
    have hatom : readAtom cs = t := by
      rw [readAtom, h]
      rfl
    obtain ⟨m, c, rfl, hmeasured⟩ := isMeasured_of_readMeasure? htrim.last h
    rw [hatom, same_readChars_measure hmeasured]
  | none => exact (unmeasured_of_readMeasure?_eq_none h).same_readChars htrim hmark

/-! ### Tags -/

theorem same_readChars (cs : List Char) :
    (readChars (readChars cs).writeChars).same (readChars cs) = (readChars cs).isClear := by
  induction cs with
  | nil => exact same_readChars_atom ⟨by simp, by simp⟩ (by simp)
  | cons c cs ih =>
    rw [readChars]
    split
    · exact ih
    · rename_i hblank
      split
      · -- A negation is written in front of what it negates.
        have hread (w : List Char) : readChars ('!' :: w) = not (readChars w) := rfl
        exact (congrArg (fun t : Tag => t.same (not (readChars cs))) (hread _)).trans ih
      · rename_i hmark
        refine same_readChars_atom (trimmed_trimEnd fun d hd => ?_) fun h => hmark ?_
        · rw [List.head?_cons, Option.mem_some_iff] at hd
          exact hd ▸ Bool.eq_false_iff.2 hblank
        · exact beq_iff_eq.2 (Option.some.inj (mem_head_of_trimEnd h))

/-- A tag that was read is the same after it is written and read again if it is clear, and
    only then. -/
theorem same_read_write (s : String) : (read (read s).write).same (read s) = (read s).isClear := by
  rw [read, write, String.toList_ofList]
  exact same_readChars s.toList

example : (read "!attr: Cooking >= 5").isClear = true := by decide +kernel

example : (read "attr: >=5").isClear = false := by decide +kernel

/-- There are tags that do not read back: a threshold that is kept as its text, since it was
    written with a blank too many, is written as a threshold. -/
theorem not_same_read_write : ¬∀ s, (read (read s).write).same (read s) = true := by
  intro h
  have := h "hp> =5"
  revert this
  decide +kernel

end Tag
end WorkPriority
