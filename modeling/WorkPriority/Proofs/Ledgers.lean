import WorkPriority.Proofs.Tables
import Mathlib.Data.List.Induction

/-!
# Ledgers of names

Names are given to whoever asks first. A *ledger* says what they were given to:
definitions that are stored, some of which are invalid, or nothing at all. What
is asked for is a *bid*, of which most have a name, and a bid whose name is taken
comes to nothing (`Ledger.grant_of_taken`).

So of several bids of one name the first decides what the name stands for
(`Ledger.defs_grantAll_of_define`, `Ledger.defs_grantAll_of_claim`), and it does
not matter whether a later one is there (`Ledger.grantAll_insert`). And what is
stored is as much as was asked for, with nothing invalid, only if every bid was
*admitted*: a definition that is valid, under a name that was not taken
(`Ledger.admitsAll_iff`).
-/

namespace WorkPriority

/-- What is asked of a ledger. -/
inductive Bid (α : Type) where
  /-- To store a definition under its name. -/
  | define (a : α) (valid : Bool)
  /-- To give a name to nothing. -/
  | claim (name : String)
  /-- Nothing: there is no name. -/
  | pass

/-- The name that is bid for. -/
def Bid.name? {α : Type} (name : α → String) : Bid α → Option String
  | define a _ => some (name a)
  | claim n => some n
  | pass => none

/-- The definition that a bid asks to store. -/
def Bid.definition? {α : Type} : Bid α → Option α
  | define a _ => some a
  | claim _ => none
  | pass => none

/-- A bid for nothing invalid. -/
def Bid.Plain {α : Type} (b : Bid α) : Prop := b = .pass ∨ ∃ a, b = .define a true

/-- What names were given to. -/
structure Ledger (α : Type) where
  /-- The definitions that are stored. -/
  defs : List α := []
  /-- The places of the definitions, by their names. -/
  index : Keyed String Nat := .empty
  /-- The names that stand for something invalid, stored or not. -/
  invalid : List String := []

namespace Ledger

variable {α : Type} (name : α → String)

/-- Whether a name was given. -/
def taken (l : Ledger α) (n : String) : Bool := l.index.has n || l.invalid.contains n

/-- The ledger after a bid. -/
def grant (l : Ledger α) : Bid α → Ledger α
  | .define a valid =>
    if l.taken (name a) then l
    else
      { defs := l.defs ++ [a]
        index := l.index.set (name a) l.defs.length
        invalid := if valid then l.invalid else l.invalid ++ [name a] }
  | .claim n => if l.taken n then l else { l with invalid := l.invalid ++ [n] }
  | .pass => l

/-- The ledger after several bids. -/
def grantAll (l : Ledger α) (bs : List (Bid α)) : Ledger α := bs.foldl (grant name) l

variable {name} {l : Ledger α} {b : Bid α} {bs : List (Bid α)} {n : String}

theorem taken_eq_true : l.taken n = true ↔ l.index.has n = true ∨ n ∈ l.invalid := by
  rw [taken, Bool.or_eq_true, List.contains_iff_mem]

theorem grantAll_cons (l : Ledger α) (b : Bid α) (bs : List (Bid α)) :
    l.grantAll name (b :: bs) = (l.grant name b).grantAll name bs :=
  rfl

theorem grantAll_append (l : Ledger α) (bs cs : List (Bid α)) :
    l.grantAll name (bs ++ cs) = (l.grantAll name bs).grantAll name cs :=
  List.foldl_append

/-! ### What a bid changes -/

/-- A bid whose name is taken comes to nothing. -/
theorem grant_of_taken (hb : b.name? name = some n) (hn : l.taken n = true) :
    l.grant name b = l := by
  cases b with
  | define a valid =>
    obtain rfl := Option.some.inj hb
    rw [grant, if_pos hn]
  | claim m =>
    obtain rfl := Option.some.inj hb
    rw [grant, if_pos hn]
  | pass => rfl

/-- After a bid its name is taken, and no other name besides those that were. -/
theorem taken_grant :
    (l.grant name b).taken n = true ↔ l.taken n = true ∨ b.name? name = some n := by
  cases b with
  | define a valid =>
    rw [grant, Bid.name?, Option.some.injEq]
    split
    · rename_i h
      exact ⟨.inl, fun hn => hn.elim id fun he => he ▸ h⟩
    · have hset : (l.index.set (name a) l.defs.length).has n = true ↔
          name a = n ∨ l.index.has n = true := by
        rw [Keyed.has, Keyed.get?_set]
        split
        · simp [*]
        · simp [*, Keyed.has]
      cases valid with
      | true => simp only [taken_eq_true, hset, if_true]; tauto
      | false =>
        simp only [taken_eq_true, hset, Bool.false_eq_true, if_false, List.mem_append,
          List.mem_singleton, eq_comm (a := n)]
        tauto
  | claim m =>
    rw [grant, Bid.name?, Option.some.injEq]
    split
    · rename_i h
      exact ⟨.inl, fun hn => hn.elim id fun he => he ▸ h⟩
    · simp only [taken_eq_true, List.mem_append, List.mem_singleton, eq_comm (a := n)]
      tauto
  | pass => simp [grant, Bid.name?]

/-- Two ledgers have given a name to the same. -/
structure SameAt (name : α → String) (n : String) (l m : Ledger α) : Prop where
  defs : ∀ a, name a = n → (a ∈ m.defs ↔ a ∈ l.defs)
  invalid : n ∈ m.invalid ↔ n ∈ l.invalid

theorem SameAt.trans {m k : Ledger α} (h : SameAt name n l m) (h' : SameAt name n m k) :
    SameAt name n l k :=
  ⟨fun a ha => (h'.defs a ha).trans (h.defs a ha), h'.invalid.trans h.invalid⟩

/-- A bid does not change what other names were given to, nor its own name if
    that is taken. -/
theorem sameAt_grant (h : b.name? name = some n → l.taken n = true) :
    SameAt name n l (l.grant name b) := by
  by_cases hb : b.name? name = some n
  · rw [grant_of_taken hb (h hb)]
    exact ⟨fun _ _ => .rfl, .rfl⟩
  cases b with
  | define a valid =>
    have hne : name a ≠ n := fun he => hb (congrArg some he)
    rw [grant]
    split
    · exact ⟨fun _ _ => .rfl, .rfl⟩
    · refine ⟨fun c hc => ?_, ?_⟩
      · have hca : c ≠ a := fun he => hne (he ▸ hc)
        simp [hca]
      · cases valid with
        | true => exact .rfl
        | false => simp [hne.symm]
  | claim m =>
    have hne : m ≠ n := fun he => hb (congrArg some he)
    rw [grant]
    split
    · exact ⟨fun _ _ => .rfl, .rfl⟩
    · exact ⟨fun _ _ => .rfl, by simp [hne.symm]⟩
  | pass => exact ⟨fun _ _ => .rfl, .rfl⟩

/-! ### What several bids change -/

theorem taken_grantAll : (l.grantAll name bs).taken n = true ↔
    l.taken n = true ∨ ∃ b ∈ bs, b.name? name = some n := by
  induction bs generalizing l with
  | nil => simp [grantAll]
  | cons b bs ih =>
    rw [grantAll_cons, ih, taken_grant, or_assoc, List.exists_mem_cons_iff]

/-- A name that is taken, or that no bid has, keeps what it was given to. -/
theorem sameAt_grantAll (h : (∃ b ∈ bs, b.name? name = some n) → l.taken n = true) :
    SameAt name n l (l.grantAll name bs) := by
  induction bs generalizing l with
  | nil => exact ⟨fun _ _ => .rfl, .rfl⟩
  | cons b bs ih =>
    have hb : b.name? name = some n → l.taken n = true := fun hb => h ⟨b, List.mem_cons_self, hb⟩
    refine (sameAt_grant hb).trans (ih fun ⟨c, hc, hcn⟩ => ?_)
    exact taken_grant.2 (.inl (h ⟨c, List.mem_cons_of_mem _ hc, hcn⟩))

/-- A later bid of a name may as well not be there. -/
theorem grantAll_insert {pre post : List (Bid α)} (hpre : ∃ c ∈ pre, c.name? name = some n)
    (hb : b.name? name = some n) :
    l.grantAll name (pre ++ b :: post) = l.grantAll name (pre ++ post) := by
  rw [grantAll_append, grantAll_append, grantAll_cons,
    grant_of_taken hb (taken_grantAll.2 (.inr hpre))]

/-! ### The first bid of a name -/

/-- After the first bid of a name, no other one changes what it was given to. -/
theorem sameAt_of_first {pre post : List (Bid α)} (hb : b.name? name = some n) :
    SameAt name n ((({} : Ledger α).grantAll name pre).grant name b)
      (({} : Ledger α).grantAll name (pre ++ b :: post)) := by
  rw [grantAll_append]
  exact sameAt_grantAll fun _ => taken_grant.2 (.inr hb)

section First

variable {pre : List (Bid α)} (hpre : ∀ c ∈ pre, c.name? name ≠ some n)

include hpre

/-- Up to its first bid, a name was not given to anything. -/
theorem not_taken_of_unbid : ¬(({} : Ledger α).grantAll name pre).taken n = true := by
  rw [taken_grantAll]
  rintro (h | ⟨c, hc, hcn⟩)
  · exact absurd h Bool.false_ne_true
  · exact hpre c hc hcn

theorem defs_of_unbid {a : α} (ha : name a = n) : a ∉ (({} : Ledger α).grantAll name pre).defs := by
  have h : SameAt name n {} (({} : Ledger α).grantAll name pre) :=
    sameAt_grantAll fun ⟨c, hc, hcn⟩ => absurd hcn (hpre c hc)
  rw [h.defs a ha]
  exact List.not_mem_nil

theorem invalid_of_unbid : n ∉ (({} : Ledger α).grantAll name pre).invalid :=
  fun h => not_taken_of_unbid hpre (taken_eq_true.2 (.inr h))

/-- If the first bid of a name is a definition, that is what is stored under the
    name, and it is valid if it was to be. -/
theorem defs_grantAll_of_define {a : α} (ha : name a = n) (valid : Bool) (post : List (Bid α)) :
    let l := ({} : Ledger α).grantAll name (pre ++ .define a valid :: post)
    (∀ c, name c = n → (c ∈ l.defs ↔ c = a)) ∧ (n ∈ l.invalid ↔ valid = false) := by
  intro l
  have h : SameAt name n _ l := sameAt_of_first (b := .define a valid) (congrArg some ha)
  have hfree : ¬(({} : Ledger α).grantAll name pre).taken (name a) = true :=
    ha ▸ not_taken_of_unbid hpre
  rw [grant, if_neg hfree] at h
  refine ⟨fun c hc => ?_, ?_⟩
  · rw [h.defs c hc, List.mem_append, List.mem_singleton]
    exact or_iff_right (defs_of_unbid hpre hc)
  · rw [h.invalid]
    cases valid with
    | true => simp [invalid_of_unbid hpre]
    | false => simp [ha]

/-- If the first bid of a name is no definition, nothing is stored under the
    name, and it is invalid. -/
theorem defs_grantAll_of_claim (post : List (Bid α)) :
    let l := ({} : Ledger α).grantAll name (pre ++ .claim n :: post)
    (∀ c, name c = n → c ∉ l.defs) ∧ n ∈ l.invalid := by
  intro l
  have h : SameAt name n _ l := sameAt_of_first (b := .claim n) rfl
  rw [grant, if_neg (not_taken_of_unbid hpre)] at h
  refine ⟨fun c hc => ?_, ?_⟩
  · rw [h.defs c hc]
    exact defs_of_unbid hpre hc
  · rw [h.invalid]
    exact List.mem_append_right _ (List.mem_singleton_self n)

end First

/-! ### Places -/

/-- The index of a ledger has the places of its definitions. -/
def Indexed (name : α → String) (l : Ledger α) : Prop := l.index.IsIndexOf (l.defs.map name)

theorem indexed_empty : ({} : Ledger α).Indexed name := Keyed.isIndexOf_empty

/-- What is stored goes behind all others, and that is its place. -/
theorem indexed_grant (h : l.Indexed name) : (l.grant name b).Indexed name := by
  cases b with
  | define a valid =>
    rw [grant]
    split
    · exact h
    · rename_i hfree
      rw [taken_eq_true, not_or] at hfree
      have hset := h.concat hfree.1
      rwa [List.length_map, ← List.map_singleton, ← List.map_append] at hset
  | claim n =>
    rw [grant]
    split
    · exact h
    · exact h
  | pass => exact h

theorem indexed_grantAll (h : l.Indexed name) : (l.grantAll name bs).Indexed name := by
  induction bs generalizing l with
  | nil => exact h
  | cons b bs ih => exact ih (indexed_grant h)

/-- If nothing but definitions is asked for, what is invalid is stored all the same. -/
theorem invalid_subset_grant (h : l.invalid ⊆ l.defs.map name)
    (hb : ∃ a valid, b = .define a valid) :
    (l.grant name b).invalid ⊆ (l.grant name b).defs.map name := by
  obtain ⟨a, valid, rfl⟩ := hb
  rw [grant]
  split
  · exact h
  · rw [List.map_append]
    cases valid with
    | true => exact fun n hn => List.mem_append_left _ (h hn)
    | false => exact List.append_subset.2 ⟨fun n hn => List.mem_append_left _ (h hn),
        List.subset_append_right _ _⟩

theorem invalid_subset_grantAll (h : l.invalid ⊆ l.defs.map name)
    (hbs : ∀ b ∈ bs, ∃ a valid, b = .define a valid) :
    (l.grantAll name bs).invalid ⊆ (l.grantAll name bs).defs.map name := by
  induction bs generalizing l with
  | nil => exact h
  | cons b bs ih =>
    obtain ⟨hb, hbs⟩ := List.forall_mem_cons.1 hbs
    exact ih (invalid_subset_grant h hb) hbs

/-- A ledger in which nothing is invalid. -/
structure Plain (name : α → String) (l : Ledger α) : Prop where
  indexed : l.Indexed name
  invalid : l.invalid = []

theorem plain_empty : ({} : Ledger α).Plain name := ⟨indexed_empty, rfl⟩

theorem plain_grant (h : l.Plain name) (hb : b.Plain) : (l.grant name b).Plain name := by
  refine ⟨indexed_grant h.indexed, ?_⟩
  obtain rfl | ⟨a, rfl⟩ := hb
  · exact h.invalid
  · rw [grant]
    split
    · exact h.invalid
    · exact h.invalid

theorem plain_grantAll (h : l.Plain name) (hbs : ∀ b ∈ bs, b.Plain) :
    (l.grantAll name bs).Plain name := by
  induction bs generalizing l with
  | nil => exact h
  | cons b bs ih =>
    exact ih (plain_grant h (hbs b List.mem_cons_self))
      fun c hc => hbs c (List.mem_cons_of_mem b hc)

/-- Where nothing is invalid, the names that are taken are those of what is stored. -/
theorem Plain.taken_eq (h : l.Plain name) (n : String) :
    l.taken n = l.defs.any fun a => name a == n := by
  rw [Bool.eq_iff_iff, taken_eq_true, h.indexed.has_iff, h.invalid, List.mem_map, List.any_eq_true]
  simp

/-! ### Admission -/

/-- A bid is a valid definition, and its name is not taken. -/
def Admits (name : α → String) (l : Ledger α) (b : Bid α) : Prop :=
  ∃ a, b = .define a true ∧ ¬l.taken (name a) = true

/-- Each of several bids is admitted in its turn. -/
def AdmitsAll (name : α → String) : Ledger α → List (Bid α) → Prop
  | _, [] => True
  | l, b :: bs => l.Admits name b ∧ (l.grant name b).AdmitsAll name bs

theorem length_defs_grant_le (name : α → String) (l : Ledger α) (b : Bid α) :
    (l.grant name b).defs.length ≤ l.defs.length + 1 := by
  cases b with
  | define a valid =>
    rw [grant]
    split <;> simp
  | claim n =>
    rw [grant]
    split <;> simp
  | pass => exact Nat.le_succ _

theorem length_invalid_le_grant (name : α → String) (l : Ledger α) (b : Bid α) :
    l.invalid.length ≤ (l.grant name b).invalid.length := by
  cases b with
  | define a valid =>
    rw [grant]
    split
    · exact Nat.le_refl _
    · cases valid <;> simp
  | claim n =>
    rw [grant]
    split <;> simp
  | pass => exact Nat.le_refl _

/-- A bid is admitted just if it adds a definition and no invalid name. -/
theorem admits_iff : l.Admits name b ↔
    (l.grant name b).defs.length = l.defs.length + 1 ∧
      (l.grant name b).invalid.length = l.invalid.length := by
  cases b with
  | define a valid =>
    rw [grant]
    by_cases hn : l.taken (name a) = true
    · simp [Admits, hn]
    · cases valid <;> simp [Admits, hn]
  | claim n =>
    rw [grant]
    split <;> simp [Admits]
  | pass => simp [Admits, grant]

/-- A bid that adds a definition adds the one that it asks to store. -/
theorem map_defs_grant (h : (l.grant name b).defs.length = l.defs.length + 1) :
    (l.grant name b).defs.map some = l.defs.map some ++ [b.definition?] := by
  cases b with
  | define a valid =>
    rw [grant] at h ⊢
    split at h
    · omega
    · rename_i hn
      rw [if_neg hn, List.map_append, List.map_singleton, Bid.definition?]
  | claim n =>
    rw [grant] at h
    split at h <;> exact absurd h (Nat.ne_of_lt (Nat.lt_succ_self _))
  | pass => exact absurd h (Nat.ne_of_lt (Nat.lt_succ_self _))

theorem length_defs_grantAll_le (name : α → String) (l : Ledger α) (bs : List (Bid α)) :
    (l.grantAll name bs).defs.length ≤ l.defs.length + bs.length := by
  induction bs generalizing l with
  | nil => exact Nat.le_refl _
  | cons b bs ih =>
    have hrest := ih (l.grant name b)
    have hb := length_defs_grant_le name l b
    rw [List.length_cons, grantAll_cons]
    omega

theorem length_invalid_le_grantAll (name : α → String) (l : Ledger α) (bs : List (Bid α)) :
    l.invalid.length ≤ (l.grantAll name bs).invalid.length := by
  induction bs generalizing l with
  | nil => exact Nat.le_refl _
  | cons b bs ih => exact Nat.le_trans (length_invalid_le_grant name l b) (ih _)

/-- All bids are admitted just if each adds a definition and none an invalid name. -/
theorem admitsAll_iff : l.AdmitsAll name bs ↔
    (l.grantAll name bs).defs.length = l.defs.length + bs.length ∧
      (l.grantAll name bs).invalid.length = l.invalid.length := by
  induction bs generalizing l with
  | nil => exact iff_of_true trivial ⟨rfl, rfl⟩
  | cons b bs ih =>
    -- A bid that adds less, or an invalid name, is not made up for by the rest.
    have hdefs := length_defs_grantAll_le name (l.grant name b) bs
    have hinvalid := length_invalid_le_grantAll name (l.grant name b) bs
    have hb := length_defs_grant_le name l b
    have hb' := length_invalid_le_grant name l b
    rw [AdmitsAll, admits_iff, ih, grantAll_cons, List.length_cons]
    omega

/-- If every bid adds a definition, those are stored in the order of the bids. -/
theorem map_defs_grantAll
    (h : (l.grantAll name bs).defs.length = l.defs.length + bs.length) :
    (l.grantAll name bs).defs.map some = l.defs.map some ++ bs.map Bid.definition? := by
  induction bs generalizing l with
  | nil => exact (List.append_nil _).symm
  | cons b bs ih =>
    rw [grantAll_cons, List.length_cons] at h
    have hdefs := length_defs_grantAll_le name (l.grant name b) bs
    have hb := length_defs_grant_le name l b
    rw [grantAll_cons, ih (by omega), map_defs_grant (by omega),
      List.append_assoc, List.singleton_append, List.map_cons]

/-! ### Looking names up -/

/-- The definition of a name. -/
def find? (l : Ledger α) (n : String) : Option α := (l.index.get? n).bind fun i => l.defs[i]?

/-- Whether a name stands for a definition that is valid. -/
def valid (l : Ledger α) (n : String) : Bool := l.index.has n && !l.invalid.contains n

theorem Indexed.find?_eq_some_iff (h : l.Indexed name) {a : α} :
    l.find? n = some a ↔ a ∈ l.defs ∧ name a = n :=
  h.bind_getElem?

theorem Indexed.valid_iff (h : l.Indexed name) :
    l.valid n = true ↔ (∃ a ∈ l.defs, name a = n) ∧ n ∉ l.invalid := by
  rw [valid, Bool.and_eq_true, h.has_iff, List.mem_map]
  simp

/-- The first bid of a name decides what is found under it: the definition that it
    asks to store, valid as it was to be. -/
theorem find?_of_define {pre post : List (Bid α)} (hpre : ∀ c ∈ pre, c.name? name ≠ some n) {a : α}
    (ha : name a = n) (valid : Bool) :
    let l := ({} : Ledger α).grantAll name (pre ++ .define a valid :: post)
    l.find? n = some a ∧ l.valid n = valid := by
  intro l
  have hl : l.Indexed name := indexed_grantAll indexed_empty
  obtain ⟨hdefs, hinvalid⟩ := defs_grantAll_of_define hpre ha valid post
  have hmem : a ∈ l.defs := (hdefs a ha).2 rfl
  refine ⟨hl.find?_eq_some_iff.2 ⟨hmem, ha⟩, ?_⟩
  rw [Bool.eq_iff_iff, hl.valid_iff, hinvalid]
  cases valid with
  | true => exact iff_of_true ⟨⟨a, hmem, ha⟩, Bool.noConfusion⟩ rfl
  | false => exact iff_of_false (fun h => h.2 rfl) Bool.false_ne_true

/-- If the first bid of a name is a claim, nothing is found under it. -/
theorem find?_of_claim {pre post : List (Bid α)} (hpre : ∀ c ∈ pre, c.name? name ≠ some n) :
    let l := ({} : Ledger α).grantAll name (pre ++ .claim n :: post)
    l.find? n = none ∧ l.valid n = false ∧ n ∈ l.invalid := by
  intro l
  have hl : l.Indexed name := indexed_grantAll indexed_empty
  obtain ⟨hdefs, hinvalid⟩ := defs_grantAll_of_claim hpre post
  refine ⟨Option.eq_none_iff_forall_ne_some.2 fun a ha => ?_, ?_, hinvalid⟩
  · obtain ⟨hmem, hname⟩ := hl.find?_eq_some_iff.1 ha
    exact hdefs a hname hmem
  · rw [Bool.eq_false_iff, Ne, hl.valid_iff]
    exact fun h => h.2 hinvalid

/-! ### Where definitions come from -/

/-- What is stored under a name that is not invalid was to be valid. -/
theorem define_of_mem {a : α} (ha : a ∈ (({} : Ledger α).grantAll name bs).defs)
    (hvalid : name a ∉ (({} : Ledger α).grantAll name bs).invalid) : Bid.define a true ∈ bs := by
  induction bs using List.reverseRecOn with
  | nil => exact absurd ha List.not_mem_nil
  | append_singleton bs b ih =>
    rw [grantAll_append] at ha hvalid
    -- Unless the last bid is that of `a`, there was `a` before.
    have hearlier (ha : a ∈ (({} : Ledger α).grantAll name bs).defs)
        (hvalid : name a ∉ (({} : Ledger α).grantAll name bs).invalid) :
        Bid.define a true ∈ bs ++ [b] :=
      List.mem_append_left _ (ih ha hvalid)
    cases b with
    | define c valid =>
      simp only [grantAll, List.foldl_cons, List.foldl_nil, grant] at ha hvalid
      split at ha
      · rename_i h
        rw [if_pos h] at hvalid
        exact hearlier ha hvalid
      · rename_i h
        rw [if_neg h] at hvalid
        rcases List.mem_append.1 ha with ha | ha
        · refine hearlier ha fun hinvalid => hvalid ?_
          cases valid with
          | true => exact hinvalid
          | false => exact List.mem_append_left _ hinvalid
        · obtain rfl := List.mem_singleton.1 ha
          cases valid with
          | true => exact List.mem_append_right _ (List.mem_singleton_self _)
          | false => exact absurd (List.mem_append_right _ (List.mem_singleton_self _)) hvalid
    | claim m =>
      simp only [grantAll, List.foldl_cons, List.foldl_nil, grant] at ha hvalid
      split at ha
      · rename_i h
        rw [if_pos h] at hvalid
        exact hearlier ha hvalid
      · rename_i h
        rw [if_neg h] at hvalid
        exact hearlier ha fun hinvalid => hvalid (List.mem_append_left _ hinvalid)
    | pass => exact hearlier ha hvalid

end Ledger
end WorkPriority
