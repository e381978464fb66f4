import Mathlib.Data.List.Basic

/-!
# Maps kept in key order

A map stored as its entries in strictly ascending key order. Insertion keeps the
order, so walking the entries visits the keys sorted and without repetition.
-/

namespace SqdNetwork.Core

variable {K V : Type} [LT K] [DecidableLT K] [DecidableEq K]

/-- One pass over sorted entries, replacing the value of a key that is present. -/
def insertEntry (key : K) (value : V) : List (K × V) → List (K × V)
  | [] => [(key, value)]
  | (k, v) :: rest =>
    if key < k then (key, value) :: (k, v) :: rest
    else if key = k then (key, value) :: rest
    else (k, v) :: insertEntry key value rest

/-- Inserting introduces no key but its own. -/
theorem mem_insertEntry {key : K} {value : V} {entry : K × V} {entries : List (K × V)}
    (h : entry ∈ insertEntry key value entries) : entry = (key, value) ∨ entry ∈ entries := by
  induction entries with
  | nil => exact Or.inl (List.mem_singleton.mp h)
  | cons head rest ih =>
    obtain ⟨k, v⟩ := head
    unfold insertEntry at h
    split at h
    · exact List.mem_cons.mp h
    · split at h
      · exact (List.mem_cons.mp h).imp_right (List.mem_cons_of_mem _)
      · rcases List.mem_cons.mp h with he | hr
        · exact Or.inr (he ▸ List.mem_cons_self)
        · exact (ih hr).imp_right (List.mem_cons_of_mem _)

/-- Insertion keeps the keys strictly ascending. -/
theorem insertEntry_sorted [LE K] [Std.IsLinearOrder K] [Std.LawfulOrderLT K] (key : K) (value : V)
    {entries : List (K × V)} (h : entries.Pairwise fun a b => a.1 < b.1) :
    (insertEntry key value entries).Pairwise fun a b => a.1 < b.1 := by
  induction entries with
  | nil => exact List.pairwise_singleton _ _
  | cons head rest ih =>
    obtain ⟨k, v⟩ := head
    obtain ⟨hhead, hrest⟩ := List.pairwise_cons.mp h
    unfold insertEntry
    split
    · next hlt =>
      refine List.pairwise_cons.mpr ⟨?_, h⟩
      intro entry he
      rcases List.mem_cons.mp he with rfl | he
      · exact hlt
      · exact Std.lt_trans hlt (hhead entry he)
    · next hlt =>
      split
      · next heq =>
        subst heq
        exact List.pairwise_cons.mpr ⟨hhead, hrest⟩
      · next hne =>
        refine List.pairwise_cons.mpr ⟨?_, ih hrest⟩
        intro entry he
        rcases mem_insertEntry he with rfl | he
        · exact Std.lt_of_le_of_ne (Std.not_lt.mp hlt) (Ne.symm hne)
        · exact hhead entry he

/-- A map whose entries ascend strictly by key. -/
structure SortedMap (K V : Type) [LT K] where
  /-- The entries in key order. -/
  entries : List (K × V)
  /-- Keys strictly ascend. -/
  sorted : entries.Pairwise fun a b => a.1 < b.1

namespace SortedMap

/-- The map without entries. -/
def empty : SortedMap K V := ⟨[], List.Pairwise.nil⟩

/-- The value stored under a key. -/
def get? (m : SortedMap K V) (key : K) : Option V :=
  (m.entries.find? fun entry => entry.1 = key).map Prod.snd

/-- Whether a key is present. -/
def contains (m : SortedMap K V) (key : K) : Bool := (m.get? key).isSome

/-- Add an entry, replacing the value of a key that is present. -/
def insert [LE K] [Std.IsLinearOrder K] [Std.LawfulOrderLT K] (m : SortedMap K V) (key : K)
    (value : V) : SortedMap K V :=
  ⟨insertEntry key value m.entries, insertEntry_sorted key value m.sorted⟩

section Lookup

variable [LE K] [Std.IsLinearOrder K] [Std.LawfulOrderLT K]

omit [DecidableLT K] [Std.IsLinearOrder K] in
/-- The stored value is the one of the only entry with the key. -/
theorem get?_eq_some_iff {m : SortedMap K V} {key : K} {value : V} :
    m.get? key = some value ↔ (key, value) ∈ m.entries := by
  obtain ⟨entries, hsorted⟩ := m
  simp only [get?]
  induction entries with
  | nil => simp
  | cons head rest ih =>
    obtain ⟨k, v⟩ := head
    obtain ⟨hhead, hrest⟩ := List.pairwise_cons.mp hsorted
    rw [List.find?_cons, List.mem_cons, Prod.mk.injEq]
    by_cases hk : k = key
    · subst hk
      have hnot : (k, value) ∉ rest := fun hmem => absurd (hhead (k, value) hmem) Std.lt_irrefl
      simp [hnot, eq_comm]
    · have hk' : key ≠ k := fun he => hk he.symm
      simpa [hk, hk'] using ih hrest

/-- Inserting changes the value of its own key only. -/
theorem get?_insert (m : SortedMap K V) (key k : K) (value : V) :
    (m.insert key value).get? k = if k = key then some value else m.get? k := by
  obtain ⟨entries, hsorted⟩ := m
  simp only [get?, insert]
  induction entries with
  | nil =>
    by_cases hk : k = key
    · simp [insertEntry, hk]
    · have hk' : key ≠ k := fun he => hk he.symm
      simp [insertEntry, hk, hk']
  | cons head rest ih =>
    obtain ⟨k', v⟩ := head
    obtain ⟨hhead, hrest⟩ := List.pairwise_cons.mp hsorted
    have ih := ih hrest
    unfold insertEntry
    by_cases hk : k = key
    · subst hk
      split
      · simp
      · split
        · simp
        · next hne =>
          have hne' : k' ≠ k := fun he => hne he.symm
          simpa [hne'] using ih
    · have hk' : key ≠ k := fun he => hk he.symm
      split
      · simp [hk']
      · split
        · next heq =>
          subst heq
          simp [hk']
        · by_cases hkk : k' = k
          · simp [hkk]
          · simpa [hkk, hk] using ih

/-- Replace what is stored under a key by a value computed from it. -/
def alter (m : SortedMap K V) (key : K) (f : Option V → V) : SortedMap K V :=
  m.insert key (f (m.get? key))

/-- An update changes the value of its own key only. -/
theorem get?_alter (m : SortedMap K V) (key k : K) (f : Option V → V) :
    (m.alter key f).get? k = if k = key then some (f (m.get? k)) else m.get? k := by
  rw [alter, get?_insert]
  split
  · next he => rw [he]
  · rfl

/-- After a list of updates a key holds what its own updates, in order, made of its value. -/
theorem get?_foldl_alter {α : Type} (key : α → K) (f : α → Option V → V) (m : SortedMap K V)
    (xs : List α) (k : K) : (xs.foldl (fun m x => m.alter (key x) (f x)) m).get? k =
      (xs.filter fun x => key x = k).foldl (fun value x => some (f x value)) (m.get? k) := by
  induction xs generalizing m with
  | nil => rfl
  | cons x xs ih =>
    rw [List.foldl_cons, ih, get?_alter, List.filter_cons]
    by_cases hk : key x = k
    · rw [if_pos hk.symm, if_pos (decide_eq_true hk), List.foldl_cons]
    · rw [if_neg fun he => hk he.symm, if_neg (by simpa using hk)]

/-- Inserting keys one after the other makes them present, beside those that were. -/
theorem contains_foldl_insert (m : SortedMap K V) (value : V) (keys : List K) (k : K) :
    (keys.foldl (fun m key => m.insert key value) m).contains k = true ↔
      k ∈ keys ∨ m.contains k = true := by
  induction keys generalizing m with
  | nil => simp
  | cons key keys ih =>
    rw [List.foldl_cons, ih, contains, get?_insert, List.mem_cons]
    by_cases hk : k = key
    · simp [hk]
    · simp [hk, contains]

/-- Every entry of one map is an entry of another. -/
def SubmapOf (m m' : SortedMap K V) : Prop :=
  ∀ key value, m.get? key = some value → m'.get? key = some value

omit [DecidableLT K] [LE K] [Std.IsLinearOrder K] [Std.LawfulOrderLT K] in
theorem SubmapOf.refl (m : SortedMap K V) : m.SubmapOf m := fun _ _ h => h

/-- Adding an absent key keeps every entry. -/
theorem submapOf_insert {m : SortedMap K V} {key : K} (value : V) (hnew : m.get? key = none) :
    m.SubmapOf (m.insert key value) := by
  intro k v h
  rw [get?_insert]
  split
  · next he =>
    rw [he, hnew] at h
    exact absurd h (by simp)
  · exact h

end Lookup

end SortedMap

end SqdNetwork.Core
