import WorkPriority.Keyed
import Mathlib.Data.List.Nodup

/-!
# Laws of tables

What a table holds after several entries were set, and after entries were taken
out. A table is *distinct* if no key has two entries, as is every table that
was made by setting entries. Only of such a table does a look-up say all: the
entry found is then the only one (`get?_eq_some_iff`), and what is taken out
does not uncover another (`get?_filter`).

A table of places is the *index* of a list of keys if it has the place of each
(`IsIndexOf`). Only a list in which no key is twice has one.
-/

namespace WorkPriority.Keyed

variable {κ α β : Type} [DecidableEq κ]

/-- No key has two entries. -/
def Distinct (t : Keyed κ α) : Prop := t.keys.Nodup

/-! ### Looking up in lists -/

theorem lookup_append (k : κ) (es fs : List (κ × α)) :
    lookup k (es ++ fs) = (lookup k es).or (lookup k fs) := by
  induction es with
  | nil => rfl
  | cons e es ih =>
    obtain ⟨j, a⟩ := e
    by_cases hj : j = k
    · simp [lookup, hj]
    · simpa [lookup, hj] using ih

theorem mem_of_lookup {k : κ} {a : α} {es : List (κ × α)} (h : lookup k es = some a) :
    (k, a) ∈ es := by
  induction es with
  | nil => simp [lookup] at h
  | cons e es ih =>
    obtain ⟨j, b⟩ := e
    by_cases hj : j = k
    · simp only [lookup, hj, if_true, Option.some.injEq] at h
      rw [hj, h]
      exact List.mem_cons_self
    · simp only [lookup, hj, if_false] at h
      exact List.mem_cons_of_mem _ (ih h)

theorem lookup_eq_none_iff (k : κ) (es : List (κ × α)) :
    lookup k es = none ↔ k ∉ es.map Prod.fst := by
  rw [← lookup_isSome, Bool.not_eq_true, Option.isSome_eq_false_iff, Option.isNone_iff_eq_none]

theorem lookup_of_mem {k : κ} {a : α} {es : List (κ × α)} (hd : (es.map Prod.fst).Nodup)
    (h : (k, a) ∈ es) : lookup k es = some a := by
  induction es with
  | nil => exact absurd h List.not_mem_nil
  | cons e es ih =>
    rw [List.map_cons, List.nodup_cons] at hd
    rcases List.mem_cons.1 h with rfl | h
    · simp [lookup]
    · -- The first key is not that of a later entry.
      have hne : e.1 ≠ k := fun he => hd.1 (he ▸ List.mem_map_of_mem h)
      rw [lookup, if_neg hne]
      exact ih hd.2 h

/-- Where no key has two entries, it does not matter from which end one looks. -/
theorem lookup_reverse (k : κ) {es : List (κ × α)} (hd : (es.map Prod.fst).Nodup) :
    lookup k es.reverse = lookup k es := by
  cases h : lookup k es with
  | none =>
    rw [lookup_eq_none_iff] at h ⊢
    rwa [List.map_reverse, List.mem_reverse]
  | some a =>
    refine lookup_of_mem ?_ (List.mem_reverse.2 (mem_of_lookup h))
    rwa [List.map_reverse, List.nodup_reverse]

theorem lookup_filterMap {γ : Type} (k : κ) (key : γ → κ) (f : γ → Option α) (xs : List γ) :
    lookup k (xs.filterMap fun x => (f x).map fun a => (key x, a)) =
      xs.findSome? fun x => if key x = k then f x else none := by
  induction xs with
  | nil => rfl
  | cons x xs ih =>
    rw [List.findSome?_cons, ← ih]
    cases hf : f x with
    | none => simp [hf]
    | some a => by_cases hx : key x = k <;> simp [hf, hx, lookup]

theorem lookup_map_congr {γ : Type} {key : γ → κ} {f g : γ → α} {xs : List γ} {k : κ}
    (h : ∀ x ∈ xs, key x = k → f x = g x) :
    lookup k (xs.map fun x => (key x, f x)) = lookup k (xs.map fun x => (key x, g x)) := by
  induction xs with
  | nil => rfl
  | cons x xs ih =>
    have ih := ih fun y hy => h y (List.mem_cons_of_mem _ hy)
    rw [List.map_cons, List.map_cons, lookup, lookup, ih]
    split
    · rename_i hx
      rw [h x List.mem_cons_self hx]
    · rfl

/-- Where no two members have the same key, each is the one found under its own. -/
theorem find?_of_mem {γ : Type} (key : γ → κ) {xs : List γ} {x : γ} (hd : (xs.map key).Nodup)
    (hx : x ∈ xs) : (xs.find? fun y => key y == key x) = some x := by
  cases h : xs.find? fun y => key y == key x with
  | none => exact absurd (List.find?_eq_none.1 h x hx) (by simp)
  | some y =>
    have hy : key y = key x := by simpa using List.find?_some h
    rw [List.inj_on_of_nodup_map hd (List.mem_of_find?_eq_some h) hx hy]

/-- Where no two members have the same key, it does not matter in which order
    they are. -/
theorem find?_perm {γ : Type} {key : γ → κ} {xs ys : List γ} (hd : (xs.map key).Nodup)
    (hp : ys.Perm xs) (k : κ) :
    (ys.find? fun y => key y == k) = xs.find? fun x => key x == k := by
  cases h : xs.find? fun x => key x == k with
  | none =>
    rw [List.find?_eq_none] at h ⊢
    exact fun y hy => h y (hp.mem_iff.1 hy)
  | some x =>
    have hx : key x = k := by simpa using List.find?_some h
    have hmem : x ∈ ys := hp.mem_iff.2 (List.mem_of_find?_eq_some h)
    rw [← hx]
    exact find?_of_mem key ((hp.map key).nodup_iff.2 hd) hmem

theorem find?_reverse_of_mem {γ : Type} (key : γ → κ) {xs : List γ} {x : γ}
    (hd : (xs.map key).Nodup) (hx : x ∈ xs) :
    (xs.reverse.find? fun y => key y == key x) = some x :=
  (find?_perm hd xs.reverse_perm _).trans (find?_of_mem key hd hx)

/-- What only one member has to give is what is found. -/
theorem findSome?_of_mem {γ : Type} {f : γ → Option α} {xs : List γ} {x : γ} (hx : x ∈ xs)
    (h : ∀ y ∈ xs, y ≠ x → f y = none) : xs.findSome? f = f x := by
  cases hf : xs.findSome? f with
  | none => exact (List.findSome?_eq_none_iff.1 hf x hx).symm
  | some a =>
    obtain ⟨y, hy, ha⟩ := List.exists_of_findSome?_eq_some hf
    have hyx : y = x := by
      by_contra hne
      exact absurd (h y hy hne) (ha ▸ Option.some_ne_none a)
    rw [← ha, hyx]

/-! ### Distinct tables -/

theorem get?_eq_some_iff {t : Keyed κ α} (hd : t.Distinct) (k : κ) (a : α) :
    t.get? k = some a ↔ (k, a) ∈ t.entries :=
  ⟨mem_of_lookup, lookup_of_mem hd⟩

omit [DecidableEq κ] in
theorem distinct_empty : (empty : Keyed κ α).Distinct := List.nodup_nil

theorem mem_insert {k : κ} {a : α} {es : List (κ × α)} {e : κ × α} (h : e ∈ insert k a es) :
    e = (k, a) ∨ e ∈ es := by
  induction es with
  | nil => exact .inl (List.mem_singleton.1 h)
  | cons d es ih =>
    obtain ⟨j, b⟩ := d
    by_cases hj : j = k
    · rw [insert, if_pos hj] at h
      exact (List.mem_cons.1 h).imp id (List.mem_cons_of_mem _)
    · rw [insert, if_neg hj] at h
      rcases List.mem_cons.1 h with h | h
      · exact .inr (h ▸ List.mem_cons_self)
      · exact (ih h).imp id (List.mem_cons_of_mem _)

theorem nodup_insert (k : κ) (a : α) {es : List (κ × α)} (hd : (es.map Prod.fst).Nodup) :
    ((insert k a es).map Prod.fst).Nodup := by
  induction es with
  | nil => simp [insert]
  | cons e es ih =>
    obtain ⟨j, b⟩ := e
    by_cases hj : j = k
    · simpa [insert, hj] using hd
    · rw [List.map_cons, List.nodup_cons] at hd
      rw [insert, if_neg hj, List.map_cons, List.nodup_cons]
      refine ⟨fun h => ?_, ih hd.2⟩
      rcases (mem_keys_insert k j a es).1 h with h | h
      · exact hj h
      · exact hd.1 h

theorem distinct_set {t : Keyed κ α} (hd : t.Distinct) (k : κ) (a : α) : (t.set k a).Distinct :=
  nodup_insert k a hd

theorem distinct_setAll {t : Keyed κ α} (hd : t.Distinct) (es : List (κ × α)) :
    (t.setAll es).Distinct := by
  induction es generalizing t with
  | nil => exact hd
  | cons e es ih => exact ih (distinct_set hd e.1 e.2)

theorem distinct_ofList (es : List (κ × α)) : (ofList es).Distinct :=
  distinct_setAll distinct_empty es

omit [DecidableEq κ] in
theorem distinct_filter {t : Keyed κ α} (hd : t.Distinct) (p : κ → α → Bool) :
    (t.filter p).Distinct :=
  hd.sublist (List.filter_sublist.map _)

/-! ### Several entries -/

/-- Of the entries that are set under a key the last is found there, and what
    was there before if there is none. -/
theorem get?_setAll (t : Keyed κ α) (es : List (κ × α)) (k : κ) :
    (t.setAll es).get? k = (lookup k es.reverse).or (t.get? k) := by
  induction es generalizing t with
  | nil => rfl
  | cons e es ih =>
    change ((t.set e.1 e.2).setAll es).get? k = _
    rw [ih, get?_set, List.reverse_cons, lookup_append, Option.or_assoc]
    congr 1
    by_cases he : e.1 = k <;> simp [lookup, he]

theorem get?_ofList (es : List (κ × α)) (k : κ) : (ofList es).get? k = lookup k es.reverse := by
  rw [ofList, get?_setAll, get?_empty, Option.or_none]

/-- An entry that does not pass the test is not found any more, and the others
    are. -/
theorem get?_filter {t : Keyed κ α} (hd : t.Distinct) (p : κ → α → Bool) (k : κ) :
    (t.filter p).get? k = (t.get? k).filter (p k) := by
  refine Option.ext fun a => ?_
  rw [get?_eq_some_iff (distinct_filter hd p), Option.filter_eq_some_iff, get?_eq_some_iff hd]
  exact List.mem_filter

/-! ### Indexes -/

/-- The table has the place of every key of a list, and of no other key. -/
def IsIndexOf (t : Keyed κ Nat) (ks : List κ) : Prop := ∀ k i, t.get? k = some i ↔ ks[i]? = some k

theorem isIndexOf_empty : (empty : Keyed κ Nat).IsIndexOf [] := by
  intro k i
  simp

namespace IsIndexOf

variable {t : Keyed κ Nat} {ks : List κ}

/-- Two places of a key would both be the one that the table has. -/
theorem nodup (h : t.IsIndexOf ks) : ks.Nodup := by
  refine List.nodup_iff_getElem?_ne_getElem?.2 fun i j hij hj he => ?_
  have hj' : ks[j]? = some ks[j] := List.getElem?_eq_getElem hj
  have hplace := (h _ i).2 (he.trans hj')
  rw [(h _ j).2 hj', Option.some.injEq] at hplace
  omega

theorem has_iff (h : t.IsIndexOf ks) (k : κ) : t.has k = true ↔ k ∈ ks := by
  rw [has, Option.isSome_iff_exists, List.mem_iff_getElem?]
  exact exists_congr fun i => h k i

theorem lt_length (h : t.IsIndexOf ks) {k : κ} {i : Nat} (hi : t.get? k = some i) :
    i < ks.length :=
  (List.getElem?_eq_some_iff.1 ((h k i).1 hi)).1

omit [DecidableEq κ] in
theorem getElem?_concat (ks : List κ) (k : κ) (i : Nat) :
    (ks ++ [k])[i]? = if i = ks.length then some k else ks[i]? := by
  split
  · rename_i hi
    rw [hi, List.getElem?_concat_length]
  · rename_i hi
    rcases Nat.lt_or_gt_of_ne hi with hi | hi
    · exact List.getElem?_append_left hi
    · rw [List.getElem?_eq_none (by simp; omega), List.getElem?_eq_none (by omega)]

/-- A key that is new has its place behind all others. -/
theorem concat (h : t.IsIndexOf ks) {k : κ} (hk : ¬t.has k = true) :
    (t.set k ks.length).IsIndexOf (ks ++ [k]) := by
  intro j i
  rw [get?_set, getElem?_concat]
  by_cases hj : k = j
  · subst hj
    have hnew : ks[i]? ≠ some k := fun hi => hk ((h.has_iff k).2 (List.mem_of_getElem? hi))
    by_cases hi : i = ks.length
    · simp [hi]
    · simp [hi, hnew, Ne.symm hi]
  · by_cases hi : i = ks.length
    · have hout : t.get? j ≠ some ks.length := fun he => Nat.lt_irrefl _ (h.lt_length he)
      simp [hj, hi, hout]
    · simp [hj, hi, h j i]

/-- What has a key is found at the place of the key. -/
theorem bind_getElem? {γ : Type} {key : γ → κ} {xs : List γ} (h : t.IsIndexOf (xs.map key)) {x : γ}
    {k : κ} : ((t.get? k).bind fun i => xs[i]?) = some x ↔ x ∈ xs ∧ key x = k := by
  have hkey (i : Nat) (hi : xs[i]? = some x) : (xs.map key)[i]? = some (key x) := by
    rw [List.getElem?_map, hi]
    rfl
  rw [Option.bind_eq_some_iff]
  constructor
  · rintro ⟨i, hk, hi⟩
    refine ⟨List.mem_of_getElem? hi, ?_⟩
    rw [h k i, hkey i hi, Option.some.injEq] at hk
    exact hk
  · rintro ⟨hx, rfl⟩
    obtain ⟨i, hi⟩ := List.mem_iff_getElem?.1 hx
    exact ⟨i, (h _ i).2 (hkey i hi), hi⟩

end IsIndexOf

end WorkPriority.Keyed
