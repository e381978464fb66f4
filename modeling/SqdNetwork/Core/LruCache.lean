import Mathlib.Data.List.Nodup

/-!
# Least recently used caches

Entries are kept most recently used first. Using an entry moves it to the front,
and an entry added to a full cache pushes the last one out.
-/

namespace SqdNetwork.Core

/-- A bounded map that forgets what was used least recently. -/
structure LruCache (K V : Type) where
  capacity : Nat
  /-- Most recently used first. -/
  entries : List (K × V)
  /-- One entry per key. -/
  nodup : (entries.map Prod.fst).Nodup
  bounded : entries.length ≤ capacity

namespace LruCache

variable {K V : Type}

/-- A cache without entries. -/
def new (capacity : Nat) : LruCache K V := ⟨capacity, [], List.nodup_nil, Nat.zero_le _⟩

variable [DecidableEq K]

/-- Whether the key has an entry. Looking does not count as use. -/
def contains (c : LruCache K V) (k : K) : Bool := c.entries.any fun e => e.1 = k

/-- The value of a key, which does not count as use. -/
def peek (c : LruCache K V) (k : K) : Option V :=
  (c.entries.find? fun e => e.1 = k).map Prod.snd

/-- The entries of other keys. -/
def others (c : LruCache K V) (k : K) : List (K × V) := c.entries.filter fun e => e.1 ≠ k

theorem nodup_others (c : LruCache K V) (k : K) :
    (k :: (c.others k).map Prod.fst).Nodup := by
  refine List.nodup_cons.mpr ⟨fun hk => ?_, ?_⟩
  · obtain ⟨e, he, rfl⟩ := List.mem_map.mp hk
    exact of_decide_eq_true (List.mem_filter.mp he).2 rfl
  · exact c.nodup.sublist (List.filter_sublist.map Prod.fst)

/-- Remove a key. -/
def pop (c : LruCache K V) (k : K) : LruCache K V where
  capacity := c.capacity
  entries := c.others k
  nodup := (List.nodup_cons.mp (c.nodup_others k)).2
  bounded := Nat.le_trans (List.length_filter_le _ _) c.bounded

/-- Put an entry in front, pushing the last one out of a full cache. -/
def putFront (c : LruCache K V) (k : K) (v : V) : LruCache K V where
  capacity := c.capacity
  entries := ((k, v) :: c.others k).take c.capacity
  nodup := (c.nodup_others k).sublist ((List.take_sublist _ _).map Prod.fst)
  bounded := List.length_take_le _ _

/-- The value of a key, which counts as use. -/
def get (c : LruCache K V) (k : K) : LruCache K V × Option V :=
  match c.peek k with
  | some v => (c.putFront k v, some v)
  | none => (c, none)

/-- Change the value of a key, starting from a default when it has none. -/
def getOrInsert (c : LruCache K V) (k : K) (default : V) (change : V → V) : LruCache K V :=
  c.putFront k (change ((c.peek k).getD default))

/-- The cache is full without the first key, and the second was used least recently. -/
def PushesOut (c : LruCache K V) (k last : K) : Prop :=
  c.contains k = false ∧ c.entries.length = c.capacity ∧
    (c.entries.getLast?.map Prod.fst) = some last

section Entries

variable {c : LruCache K V} {k q : K} {v w : V}

theorem peek_eq_some : c.peek k = some v ↔ (k, v) ∈ c.entries := by
  rw [peek, Option.map_eq_some_iff]
  constructor
  · rintro ⟨⟨key, value⟩, hfind, rfl⟩
    have hkey := List.find?_some hfind
    obtain rfl : key = k := of_decide_eq_true hkey
    exact List.mem_of_find?_eq_some hfind
  · intro hmem
    cases hfind : c.entries.find? fun e => e.1 = k with
    | none => simpa using List.find?_eq_none.mp hfind _ hmem
    | some e =>
      have hkey := List.find?_some hfind
      have hentry := List.inj_on_of_nodup_map c.nodup (List.mem_of_find?_eq_some hfind) hmem
        (of_decide_eq_true hkey)
      exact ⟨e, rfl, congrArg Prod.snd hentry⟩

theorem contains_iff : c.contains k ↔ ∃ v, (k, v) ∈ c.entries := by
  rw [contains, List.any_eq_true]
  constructor
  · rintro ⟨⟨key, value⟩, hmem, hkey⟩
    obtain rfl : key = k := of_decide_eq_true hkey
    exact ⟨value, hmem⟩
  · rintro ⟨v, hmem⟩
    exact ⟨_, hmem, decide_eq_true rfl⟩

theorem mem_others : (q, w) ∈ c.others k ↔ (q, w) ∈ c.entries ∧ q ≠ k := by
  rw [others, List.mem_filter, decide_eq_true_iff]

theorem mem_pop : (q, w) ∈ (c.pop k).entries ↔ (q, w) ∈ c.entries ∧ q ≠ k := mem_others

theorem entries_putFront :
    (c.putFront k v).entries = ((k, v) :: c.others k).take c.capacity := rfl

theorem mem_of_mem_putFront (h : (q, w) ∈ (c.putFront k v).entries) :
    (q, w) = (k, v) ∨ (q, w) ∈ c.entries ∧ q ≠ k := by
  rcases List.mem_cons.mp (List.mem_of_mem_take h) with he | hmem
  · exact Or.inl he
  · exact Or.inr (mem_others.mp hmem)

theorem mem_putFront_self (h : 0 < c.capacity) : (k, v) ∈ (c.putFront k v).entries := by
  rw [entries_putFront, List.take_cons h]
  exact List.mem_cons_self

theorem others_of_not_contains (h : c.contains k = false) : c.others k = c.entries := by
  apply List.filter_eq_self.mpr
  intro e he
  rw [decide_eq_true_iff]
  rintro rfl
  exact Bool.false_ne_true (h.symm.trans (contains_iff.mpr ⟨e.2, he⟩))

theorem length_others_lt (h : c.contains k) : (c.others k).length < c.entries.length := by
  obtain ⟨v, hmem⟩ := contains_iff.mp h
  apply List.length_filter_lt_length_iff_exists.mpr
  exact ⟨_, hmem, by simp⟩

/-- Another key keeps its entry unless it is pushed out. -/
theorem mem_putFront_of_ne (hmem : (q, w) ∈ c.entries) (hne : q ≠ k) (hstays : ¬ c.PushesOut k q) :
    (q, w) ∈ (c.putFront k v).entries := by
  have hothers := mem_others.mpr ⟨hmem, hne⟩
  by_cases hroom : (c.others k).length < c.capacity
  · rw [entries_putFront, List.take_of_length_le (Nat.succ_le_of_lt hroom)]
    exact List.mem_cons_of_mem _ hothers
  · have hcontains : c.contains k = false := by
      rw [← Bool.not_eq_true]
      intro hcontains
      have := length_others_lt hcontains
      have := c.bounded
      omega
    rw [others_of_not_contains hcontains] at hroom
    have hfull := Nat.le_antisymm c.bounded (Nat.not_lt.mp hroom)
    obtain ⟨front, last, hsplit⟩ :=
      (List.eq_nil_or_concat' c.entries).resolve_left (List.ne_nil_of_mem hmem)
    have hlast : (q, w) ≠ last := by
      rintro rfl
      exact hstays ⟨hcontains, hfull, by rw [hsplit, List.getLast?_concat, Option.map_some]⟩
    rw [entries_putFront, others_of_not_contains hcontains, ← hfull]
    rw [hsplit] at hmem ⊢
    rw [List.length_append, List.length_singleton, List.take_succ_cons, List.take_left]
    rcases List.mem_append.mp hmem with hmem | hmem
    · exact List.mem_cons_of_mem _ hmem
    · exact absurd (List.mem_singleton.mp hmem) hlast

end Entries

section Values

/-- Every key and its value satisfy a relation. -/
def All (c : LruCache K V) (R : K → V → Prop) : Prop := ∀ k v, (k, v) ∈ c.entries → R k v

variable {c : LruCache K V} {R : K → V → Prop}

omit [DecidableEq K] in
theorem all_new (capacity : Nat) : (new capacity : LruCache K V).All R :=
  fun _ _ h => absurd h List.not_mem_nil

theorem All.pop (h : c.All R) (k : K) : (c.pop k).All R :=
  fun q w hmem => h q w (mem_pop.mp hmem).1

theorem All.putFront (h : c.All R) {k : K} {v : V} (hv : R k v) : (c.putFront k v).All R := by
  intro q w hmem
  rcases mem_of_mem_putFront hmem with he | ⟨hmem, -⟩
  · cases he
    exact hv
  · exact h q w hmem

end Values

end LruCache

end SqdNetwork.Core
