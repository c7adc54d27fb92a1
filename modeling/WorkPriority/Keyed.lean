/-!
# Tables of entries under keys

A finite table that holds at most one entry under each key it is asked for. An
entry set under a key that the table has replaces the entry there, and is added
at the end otherwise, so that a table keeps the order in which its keys first
came. What a table holds is what `Keyed.get?` finds: the laws below say what
each operation does to that.
-/

namespace WorkPriority

/-- A finite table of entries under keys. -/
structure Keyed (κ : Type) (α : Type) where
  /-- The keys with their entries, in the order in which the keys first came. -/
  entries : List (κ × α)

namespace Keyed

variable {κ α β : Type} [DecidableEq κ]

/-- The table without entries. -/
def empty : Keyed κ α := ⟨[]⟩

instance : Inhabited (Keyed κ α) := ⟨empty⟩

/-- Looks a key up in a list of entries. -/
def lookup (k : κ) : List (κ × α) → Option α
  | [] => none
  | (k', a) :: es => if k' = k then some a else lookup k es

/-- The entry under a key. -/
def get? (t : Keyed κ α) (k : κ) : Option α := lookup k t.entries

/-- Whether there is an entry under a key. -/
def has (t : Keyed κ α) (k : κ) : Bool := (t.get? k).isSome

/-- The keys, in the order in which they came. -/
def keys (t : Keyed κ α) : List κ := t.entries.map Prod.fst

/-- The number of entries. -/
def size (t : Keyed κ α) : Nat := t.entries.length

/-- Replaces the entry under a key in a list of entries, or adds one. -/
def insert (k : κ) (a : α) : List (κ × α) → List (κ × α)
  | [] => [(k, a)]
  | (k', b) :: es => if k' = k then (k, a) :: es else (k', b) :: insert k a es

/-- The table with the entry `a` under `k`. -/
def set (t : Keyed κ α) (k : κ) (a : α) : Keyed κ α := ⟨insert k a t.entries⟩

/-- The table with all of the entries set, one after the other. -/
def setAll (t : Keyed κ α) (es : List (κ × α)) : Keyed κ α :=
  es.foldl (fun t e => t.set e.1 e.2) t

/-- The table of a list of entries, of which the last under each key counts. -/
def ofList (es : List (κ × α)) : Keyed κ α := empty.setAll es

/-- The table with the entries that pass a test. -/
def filter (p : κ → α → Bool) (t : Keyed κ α) : Keyed κ α :=
  ⟨t.entries.filter fun e => p e.1 e.2⟩

/-- The table with every entry changed. -/
def map (f : κ → α → β) (t : Keyed κ α) : Keyed κ β := ⟨t.entries.map fun e => (e.1, f e.1 e.2)⟩

@[simp] theorem get?_empty (k : κ) : (empty : Keyed κ α).get? k = none := rfl

theorem lookup_insert (k k' : κ) (a : α) (es : List (κ × α)) :
    lookup k' (insert k a es) = if k = k' then some a else lookup k' es := by
  induction es with
  | nil => simp [insert, lookup]
  | cons e es ih =>
    obtain ⟨j, b⟩ := e
    by_cases hj : j = k
    · subst hj
      by_cases hk : j = k' <;> simp [insert, lookup, hk]
    · by_cases hk : j = k'
      · subst hk; simp [insert, lookup, hj, Ne.symm hj]
      · simp [insert, lookup, hj, hk, ih]

/-- What was set last under a key is found there, and nothing changes elsewhere. -/
theorem get?_set (t : Keyed κ α) (k k' : κ) (a : α) :
    (t.set k a).get? k' = if k = k' then some a else t.get? k' :=
  lookup_insert k k' a t.entries

theorem mem_keys_insert (k k' : κ) (a : α) (es : List (κ × α)) :
    k' ∈ (insert k a es).map Prod.fst ↔ k' = k ∨ k' ∈ es.map Prod.fst := by
  induction es with
  | nil => simp [insert]
  | cons e es ih =>
    obtain ⟨j, b⟩ := e
    by_cases hj : j = k
    · subst hj; simp [insert]
    · simp only [insert, hj, if_false, List.map_cons, List.mem_cons, ih]
      exact ⟨fun h => by rcases h with h | h | h <;> simp [h],
        fun h => by rcases h with h | h | h <;> simp [h]⟩

/-- Setting keeps the keys and adds the one that is set. -/
theorem mem_keys_set (t : Keyed κ α) (k k' : κ) (a : α) :
    k' ∈ (t.set k a).keys ↔ k' = k ∨ k' ∈ t.keys :=
  mem_keys_insert k k' a t.entries

theorem lookup_isSome (k : κ) (es : List (κ × α)) :
    (lookup k es).isSome = true ↔ k ∈ es.map Prod.fst := by
  induction es with
  | nil => simp [lookup]
  | cons e es ih =>
    obtain ⟨j, b⟩ := e
    by_cases hj : j = k
    · simp [lookup, hj]
    · simp [lookup, hj, ih, Ne.symm hj]

/-- A key has an entry exactly when it is one of the keys. -/
theorem has_iff_mem_keys (t : Keyed κ α) (k : κ) : t.has k = true ↔ k ∈ t.keys :=
  lookup_isSome k t.entries

end Keyed
end WorkPriority
