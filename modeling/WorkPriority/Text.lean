/-!
# Text

The few operations on text that the definition language and its reports rest
on. They are stated on lists of characters, so that they can be reasoned about
by induction, and lifted to strings where strings are compared or printed.

* `Text.isBlank` and `Text.trim`: white space, in the sense of the Unicode
  property of that name, and its removal at both ends.
* `Text.sameLetters`: equality up to the case of ASCII letters, by which names
  of things in the world are matched.
* `Text.keyword`: the form of a word in which it is compared with the keywords
  of the tag language.
* `Text.splitOnce`: the text before and after the first separator.
* `Text.padRight`, `Text.padLeft`: columns of reports.
-/

namespace WorkPriority
namespace Text

/-! ### White space -/

/-- The characters of the Unicode property `White_Space`. -/
def isBlank (c : Char) : Bool :=
  let n := c.toNat
  (9 ≤ n && n ≤ 13) || n == 0x20 || n == 0x85 || n == 0xA0 || n == 0x1680 ||
    (0x2000 ≤ n && n ≤ 0x200A) || n == 0x2028 || n == 0x2029 || n == 0x202F ||
    n == 0x205F || n == 0x3000

/-- Every white space character of ASCII is blank. -/
theorem isBlank_of_isWhitespace {c : Char} (h : c.isWhitespace = true) : isBlank c = true := by
  simp only [Char.isWhitespace, Bool.or_eq_true, decide_eq_true_eq] at h
  rcases h with ((rfl | rfl) | rfl) | rfl <;> decide

/-- The characters without the blanks at their end. -/
def trimEnd (cs : List Char) : List Char :=
  (cs.reverse.dropWhile isBlank).reverse

/-- The characters without the blanks at both ends. -/
def trimChars (cs : List Char) : List Char :=
  trimEnd (cs.dropWhile isBlank)

/-- A text without the blanks at both ends. -/
def trim (s : String) : String :=
  String.ofList (trimChars s.toList)

/-- Whether a text has nothing but blanks. -/
def isBlankText (s : String) : Bool :=
  s.toList.all isBlank

/-! ### Letter case -/

/-- Equality of two texts up to the case of ASCII letters. All other
    characters have to be equal. -/
def sameLetters (a b : String) : Bool :=
  a.toList.map Char.toLower == b.toList.map Char.toLower

/-- Lower case of a letter, as far as it leads into ASCII: of all the letters
    beyond ASCII only the Kelvin sign has a lower case that is one ASCII
    letter, so that two words whose lower case is compared with an ASCII
    keyword need no other case pair. -/
def lowerToAscii (c : Char) : Char :=
  if c == '\u212A' then 'k' else c.toLower

/-- The form of a word in which it is compared with keywords, which are ASCII
    words in lower case. -/
def keyword (cs : List Char) : String :=
  String.ofList (cs.map lowerToAscii)

/-! ### Separators -/

/-- The characters before and after the first `sep`, if there is one. -/
def splitOnce (sep : Char) : List Char → Option (List Char × List Char)
  | [] => none
  | c :: cs =>
    if c == sep then some ([], cs)
    else (splitOnce sep cs).map fun (before, after) => (c :: before, after)

/-- A split loses nothing but the separator, which the first part does not hold. -/
theorem splitOnce_eq_some {sep : Char} {cs before after : List Char}
    (h : splitOnce sep cs = some (before, after)) :
    cs = before ++ sep :: after ∧ sep ∉ before := by
  induction cs generalizing before after with
  | nil => simp [splitOnce] at h
  | cons c cs ih =>
    rw [splitOnce] at h
    split at h
    · rename_i hc
      simp only [Option.some.injEq, Prod.mk.injEq] at h
      obtain ⟨rfl, rfl⟩ := h
      simp [beq_iff_eq.1 hc]
    · rename_i hc
      obtain ⟨⟨b, a⟩, hs, he⟩ := Option.map_eq_some_iff.1 h
      simp only [Prod.mk.injEq] at he
      obtain ⟨rfl, rfl⟩ := he
      obtain ⟨rfl, hn⟩ := ih hs
      refine ⟨rfl, ?_⟩
      simp only [List.mem_cons, not_or]
      exact ⟨fun e => hc (by simp [e]), hn⟩

/-- The rest of `cs` behind `lead`, if it starts with that. -/
def stripLead : List Char → List Char → Option (List Char)
  | [], cs => some cs
  | _ :: _, [] => none
  | l :: lead, c :: cs => if l == c then stripLead lead cs else none

/-- A list of characters starts with `lead` exactly when it can be stripped of it. -/
theorem stripLead_eq_some {lead cs rest : List Char} :
    stripLead lead cs = some rest ↔ cs = lead ++ rest := by
  induction lead generalizing cs with
  | nil => simp [stripLead, eq_comm]
  | cons l lead ih =>
    cases cs with
    | nil => simp [stripLead]
    | cons c cs =>
      by_cases h : l = c
      · subst h; simp [stripLead, ih]
      · simp [stripLead, h, Ne.symm h]

/-! ### Columns -/

/-- A text filled up with spaces behind it to `width` characters; a longer one
    stays as it is. -/
def padRight (width : Nat) (s : String) : String :=
  s ++ String.ofList (List.replicate (width - s.length) ' ')

/-- A text filled up with spaces before it to `width` characters; a longer one
    stays as it is. -/
def padLeft (width : Nat) (s : String) : String :=
  String.ofList (List.replicate (width - s.length) ' ') ++ s

/-- The digits of a whole number, with a minus sign where it is negative. -/
def ofInt (n : Int) : String :=
  if n < 0 then "-" ++ toString n.natAbs else toString n.natAbs

/-- The digits of a whole number under a sign that is always written. -/
def signed (n : Int) : String :=
  if n < 0 then "-" ++ toString n.natAbs else "+" ++ toString n.natAbs

end Text
end WorkPriority
