import Mathlib.Data.List.Pairwise

/-!
# Maps that are injective both ways

A list of pairs in which no two share a left or a right side. Inserting a pair
drops the pairs it clashes with.
-/

namespace SqdNetwork.Core

/-- A partial bijection as the list of its pairs. -/
structure BiMap (α β : Type) where
  entries : List (α × β)
  /-- No two pairs share a side. -/
  unique : entries.Pairwise fun x y => x.1 ≠ y.1 ∧ x.2 ≠ y.2

namespace BiMap

variable {α β : Type} [DecidableEq α] [DecidableEq β]

/-- The map without pairs. -/
def empty : BiMap α β := ⟨[], List.Pairwise.nil⟩

/-- The number of pairs. -/
def length (m : BiMap α β) : Nat := m.entries.length

/-- Whether some pair has this left side. -/
def containsLeft (m : BiMap α β) (a : α) : Bool := m.entries.any fun e => e.1 = a

/-- The left side paired with a right side. -/
def getByRight (m : BiMap α β) (b : β) : Option α :=
  (m.entries.find? fun e => e.2 = b).map Prod.fst

/-- Add a pair in place of those it clashes with. -/
def insert (m : BiMap α β) (a : α) (b : β) : BiMap α β where
  entries := (a, b) :: m.entries.filter fun e => e.1 ≠ a ∧ e.2 ≠ b
  unique := by
    refine List.pairwise_cons.mpr ⟨fun e he => ?_, m.unique.filter _⟩
    have hne := of_decide_eq_true (List.mem_filter.mp he).2
    exact ⟨Ne.symm hne.1, Ne.symm hne.2⟩

/-- Remove the pair with this right side. -/
def removeByRight (m : BiMap α β) (b : β) : BiMap α β where
  entries := m.entries.filter fun e => e.2 ≠ b
  unique := m.unique.filter _

variable {m : BiMap α β} {a : α} {b : β}

omit [DecidableEq β] in
theorem containsLeft_iff : m.containsLeft a = true ↔ ∃ b, (a, b) ∈ m.entries := by
  simp [containsLeft]

omit [DecidableEq α] in
theorem mem_of_getByRight (h : m.getByRight b = some a) : (a, b) ∈ m.entries := by
  obtain ⟨⟨a', b'⟩, he, rfl⟩ := Option.map_eq_some_iff.mp h
  have hb : b' = b := by simpa using List.find?_some he
  exact hb ▸ List.mem_of_find?_eq_some he

omit [DecidableEq α] [DecidableEq β] in
/-- Pairs that share a side are the same. -/
theorem eq_of_mem {x y : α × β} (hx : x ∈ m.entries) (hy : y ∈ m.entries)
    (h : x.1 = y.1 ∨ x.2 = y.2) : x = y := by
  have hsymm : Std.Symm fun x y : α × β => x.1 ≠ y.1 ∧ x.2 ≠ y.2 :=
    ⟨fun _ _ hne => ⟨hne.1.symm, hne.2.symm⟩⟩
  by_contra hne
  have hboth := m.unique.forall hx hy hne
  exact h.elim hboth.1 hboth.2

theorem mem_insert {x : α × β} :
    x ∈ (m.insert a b).entries ↔ x = (a, b) ∨ x ∈ m.entries ∧ x.1 ≠ a ∧ x.2 ≠ b := by
  simp [insert]

omit [DecidableEq α] in
theorem mem_removeByRight {x : α × β} :
    x ∈ (m.removeByRight b).entries ↔ x ∈ m.entries ∧ x.2 ≠ b := by
  simp [removeByRight]

/-- A pair that clashes with none is added. -/
theorem entries_insert (ha : m.containsLeft a = false) (hb : ∀ e ∈ m.entries, e.2 ≠ b) :
    (m.insert a b).entries = (a, b) :: m.entries := by
  have hkeep : ∀ e ∈ m.entries, decide (e.1 ≠ a ∧ e.2 ≠ b) = true := by
    rintro ⟨a', b'⟩ he
    refine decide_eq_true ⟨?_, hb _ he⟩
    rintro rfl
    have hleft := containsLeft_iff.mpr ⟨b', he⟩
    rw [ha] at hleft
    cases hleft
  exact congrArg (List.cons (a, b)) (List.filter_eq_self.mpr hkeep)

theorem containsLeft_insert_of_ne {a' : α} (h : a' ≠ a) (hb : ∀ e ∈ m.entries, e.2 ≠ b) :
    (m.insert a b).containsLeft a' = m.containsLeft a' := by
  rw [Bool.eq_iff_iff, containsLeft_iff, containsLeft_iff]
  constructor
  · rintro ⟨b', hmem⟩
    rcases mem_insert.mp hmem with heq | ⟨hmem, -⟩
    · exact absurd (congrArg Prod.fst heq) h
    · exact ⟨b', hmem⟩
  · rintro ⟨b', hmem⟩
    exact ⟨b', mem_insert.mpr (Or.inr ⟨hmem, h, hb _ hmem⟩)⟩

theorem length_insert_le : (m.insert a b).length ≤ m.length + 1 :=
  Nat.succ_le_succ (List.length_filter_le _ _)

omit [DecidableEq α] in
theorem length_removeByRight_le : (m.removeByRight b).length ≤ m.length :=
  List.length_filter_le _ _

end BiMap

end SqdNetwork.Core
