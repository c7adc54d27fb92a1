/-!
# Lists in order

Lists whose elements are listed once each and by a numeric order: how the keys
of breakdowns are kept. `Sorted.ofList` puts any list into that form; it has
the same members (`Sorted.mem_ofList`).
-/

namespace WorkPriority
namespace Sorted

variable {α : Type} [DecidableEq α]

/-- Puts an element into a list in order, unless it is there. -/
def insert (order : α → Nat) (a : α) : List α → List α
  | [] => [a]
  | b :: bs =>
    if a = b then b :: bs
    else if order a ≤ order b then a :: b :: bs
    else b :: insert order a bs

/-- The members of a list, once each and in order. -/
def ofList (order : α → Nat) (as : List α) : List α := as.foldr (insert order) []

theorem mem_insert (order : α → Nat) (a b : α) (bs : List α) :
    b ∈ insert order a bs ↔ b = a ∨ b ∈ bs := by
  induction bs with
  | nil => simp [insert]
  | cons c cs ih =>
    by_cases h : a = c
    · subst h; simp [insert]
    · by_cases ho : order a ≤ order c
      · simp [insert, h, ho]
      · simp only [insert, h, ho, if_false, List.mem_cons, ih]
        exact ⟨fun h => by rcases h with h | h | h <;> simp [h],
          fun h => by rcases h with h | h | h <;> simp [h]⟩

/-- Ordering a list keeps its members. -/
theorem mem_ofList (order : α → Nat) (b : α) (as : List α) : b ∈ ofList order as ↔ b ∈ as := by
  induction as with
  | nil => simp [ofList]
  | cons a as ih =>
    have h : ofList order (a :: as) = insert order a (ofList order as) := rfl
    rw [h, mem_insert, ih, List.mem_cons]

end Sorted
end WorkPriority
