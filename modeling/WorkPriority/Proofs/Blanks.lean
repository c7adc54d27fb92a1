import WorkPriority.Text
import Mathlib.Data.List.Basic
import Mathlib.Data.List.TakeWhile

/-!
# Blanks

What is read from a text does not depend on the blanks around it. A text without blanks at its
ends (`Text.Trimmed`) is what trimming leaves of any text, and trimming leaves it as it is; and
what stands before the first separator is what is split off there.
-/

namespace WorkPriority

namespace Text

variable {cs : List Char}

/-- A text without blanks at its ends. -/
structure Trimmed (cs : List Char) : Prop where
  /-- It does not start with a blank. -/
  head : ∀ c ∈ cs.head?, isBlank c = false
  /-- It does not end with a blank. -/
  last : ∀ c ∈ cs.getLast?, isBlank c = false

theorem head_dropWhile (cs : List Char) :
    ∀ c ∈ (cs.dropWhile isBlank).head?, isBlank c = false := by
  intro c hc
  have h := List.head?_dropWhile_not isBlank cs
  rw [Option.mem_def.1 hc] at h
  exact h

theorem dropWhile_eq_self (h : ∀ c ∈ cs.head?, isBlank c = false) :
    cs.dropWhile isBlank = cs := by
  cases cs with
  | nil => rfl
  | cons c cs => exact List.dropWhile_cons_of_neg (Bool.eq_false_iff.1 (h c rfl))

theorem dropWhile_eq_self_iff : cs.dropWhile isBlank = cs ↔ cs.head?.any isBlank = false := by
  refine ⟨fun h => ?_, fun h => dropWhile_eq_self fun c hc => ?_⟩
  · cases cs with
    | nil => rfl
    | cons c cs =>
      refine head_dropWhile (c :: cs) c ?_
      rw [h]
      rfl
  · rw [Option.mem_def.1 hc] at h
    exact h

/-- The end of a text does not change by what stands before it. -/
theorem last_of_append {as : List Char} (h : ∀ c ∈ (as ++ cs).getLast?, isBlank c = false) :
    ∀ c ∈ cs.getLast?, isBlank c = false := by
  intro c hc
  apply h
  rw [List.getLast?_append, Option.mem_def.1 hc]
  rfl

theorem last_dropWhile (h : ∀ c ∈ cs.getLast?, isBlank c = false) :
    ∀ c ∈ (cs.dropWhile isBlank).getLast?, isBlank c = false := by
  rw [← List.takeWhile_append_dropWhile (p := isBlank) (l := cs)] at h
  exact last_of_append h

theorem trimEnd_eq_self (h : ∀ c ∈ cs.getLast?, isBlank c = false) : trimEnd cs = cs := by
  have hrev : cs.reverse.dropWhile isBlank = cs.reverse :=
    dropWhile_eq_self (by rwa [List.head?_reverse])
  rw [trimEnd, hrev, List.reverse_reverse]

/-- A character that is no blank keeps its place. -/
theorem trimEnd_cons {c : Char} (hc : isBlank c = false) : trimEnd (c :: cs) = c :: trimEnd cs := by
  rw [trimEnd, trimEnd, List.reverse_cons, List.dropWhile_append]
  split
  · rename_i h
    rw [List.isEmpty_iff.1 h, List.dropWhile_cons_of_neg (Bool.eq_false_iff.1 hc)]
    rfl
  · rw [List.reverse_append, List.reverse_singleton, List.singleton_append]

theorem trimEnd_append_of_blank {bs : List Char} (h : ∀ b ∈ bs, isBlank b = true)
    (cs : List Char) : trimEnd (cs ++ bs) = trimEnd cs := by
  rw [trimEnd, trimEnd, List.reverse_append, List.dropWhile_append_of_pos]
  exact fun b hb => h b (List.mem_reverse.1 hb)

theorem last_trimEnd (cs : List Char) : ∀ c ∈ (trimEnd cs).getLast?, isBlank c = false := by
  rw [trimEnd, List.getLast?_reverse]
  exact head_dropWhile cs.reverse

theorem trimEnd_prefix_self (cs : List Char) : trimEnd cs <+: cs := by
  rw [trimEnd, ← List.reverse_suffix, List.reverse_reverse]
  exact List.dropWhile_suffix _

theorem mem_head_of_trimEnd {c : Char} (h : c ∈ (trimEnd cs).head?) : c ∈ cs.head? := by
  obtain ⟨bs, hbs⟩ := trimEnd_prefix_self cs
  rw [← hbs, List.head?_append, Option.mem_def.1 h]
  rfl

theorem trimmed_trimEnd (h : ∀ c ∈ cs.head?, isBlank c = false) : Trimmed (trimEnd cs) :=
  ⟨fun c hc => h c (mem_head_of_trimEnd hc), last_trimEnd cs⟩

theorem trimmed_trimChars (cs : List Char) : Trimmed (trimChars cs) :=
  trimmed_trimEnd (head_dropWhile cs)

theorem Trimmed.trimChars_eq (h : Trimmed cs) : trimChars cs = cs := by
  rw [trimChars, dropWhile_eq_self h.head, trimEnd_eq_self h.last]

theorem trimmed_of_not_blank (h : ∀ c ∈ cs, isBlank c = false) : Trimmed cs :=
  ⟨fun c hc => h c (List.mem_of_mem_head? hc), fun c hc => h c (List.mem_of_mem_getLast? hc)⟩

theorem trimChars_cons_of_blank {c : Char} (hc : isBlank c = true) :
    trimChars (c :: cs) = trimChars cs := by
  rw [trimChars, trimChars, List.dropWhile_cons_of_pos hc]

theorem trimChars_cons_of_not_blank {c : Char} (hc : isBlank c = false) :
    trimChars (c :: cs) = c :: trimEnd cs := by
  rw [trimChars, List.dropWhile_cons_of_neg (Bool.eq_false_iff.1 hc), trimEnd_cons hc]

theorem trimChars_dropWhile (cs : List Char) : trimChars (cs.dropWhile isBlank) = trimChars cs := by
  rw [trimChars, trimChars, dropWhile_eq_self (head_dropWhile cs)]

theorem length_trimChars_le (cs : List Char) : (trimChars cs).length ≤ cs.length :=
  (trimEnd_prefix_self _).length_le.trans (List.dropWhile_suffix _).length_le

theorem trimChars_subset (cs : List Char) : trimChars cs ⊆ cs := fun _ h =>
  (List.dropWhile_suffix _).subset ((trimEnd_prefix_self _).subset h)

/-- Nothing but blanks is trimmed. -/
theorem blank_of_trimChars_eq_nil (h : trimChars cs = []) : ∀ c ∈ cs, isBlank c = true := by
  rw [trimChars, trimEnd, List.reverse_eq_nil_iff, List.dropWhile_eq_nil_iff] at h
  have hdrop : cs.dropWhile isBlank = [] := by
    cases hcons : cs.dropWhile isBlank with
    | nil => rfl
    | cons c tail =>
      have hc := head_dropWhile cs c (hcons ▸ rfl)
      rw [h c (by simp [hcons])] at hc
      cases hc
  exact List.dropWhile_eq_nil_iff.1 hdrop

/-- A text that does not end with a blank has a first character that is none. -/
theorem exists_first (hne : cs ≠ []) (hlast : ∀ c ∈ cs.getLast?, isBlank c = false) :
    ∃ pre d ds, cs = pre ++ d :: ds ∧ (∀ c ∈ pre, isBlank c = true) ∧ isBlank d = false := by
  cases hdrop : cs.dropWhile isBlank with
  | nil =>
    rw [List.dropWhile_eq_nil_iff] at hdrop
    have hend := hlast _ (List.getLast?_eq_getLast_of_ne_nil hne)
    rw [hdrop _ (List.getLast_mem hne)] at hend
    cases hend
  | cons d ds =>
    refine ⟨cs.takeWhile isBlank, d, ds, ?_, fun c hc => List.mem_takeWhile_imp hc,
      head_dropWhile cs d (hdrop ▸ rfl)⟩
    rw [← hdrop, List.takeWhile_append_dropWhile]

/-- What is split at a separator that does not occur before. -/
theorem splitOnce_append {sep : Char} {as : List Char} (bs : List Char) (h : sep ∉ as) :
    splitOnce sep (as ++ sep :: bs) = some (as, bs) := by
  induction as with
  | nil => rw [List.nil_append, splitOnce, if_pos (beq_self_eq_true sep)]
  | cons a as ih =>
    have hne : a ≠ sep := fun heq => h (heq ▸ List.mem_cons_self)
    rw [List.cons_append, splitOnce, if_neg (by simpa using hne),
      ih fun hmem => h (List.mem_cons_of_mem _ hmem)]
    rfl

theorem splitOnce_of_not_mem {sep : Char} (h : sep ∉ cs) : splitOnce sep cs = none := by
  induction cs with
  | nil => rfl
  | cons c cs ih =>
    have hne : c ≠ sep := fun heq => h (heq ▸ List.mem_cons_self)
    rw [splitOnce, if_neg (by simpa using hne), ih fun hmem => h (List.mem_cons_of_mem _ hmem)]
    rfl

end Text
end WorkPriority
