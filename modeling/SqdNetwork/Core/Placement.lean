import SqdNetwork.Core.Machine
import Mathlib.Data.List.Nodup
import Mathlib.Data.List.Range

/-!
# Things that wait in queues

Things are known by their index in a list. A queue of indices holds the things at a
place when it lists each of them once and nothing else. Things come and go, one at
a time, with the queue following.
-/

namespace SqdNetwork.Core

variable {α : Type}

theorem getElem?_concat_iff {l : List α} {a b : α} {j : Nat} :
    (l ++ [b])[j]? = some a ↔ l[j]? = some a ∨ j = l.length ∧ a = b := by
  rcases Nat.lt_trichotomy j l.length with hlt | rfl | hgt
  · simp [List.getElem?_append_left hlt, Nat.ne_of_lt hlt]
  · simp [eq_comm]
  · have hend : (l ++ [b]).length ≤ j := by
      rw [List.length_append, List.length_singleton]
      exact hgt
    rw [List.getElem?_eq_none hend, List.getElem?_eq_none (Nat.le_of_lt hgt)]
    simp [Nat.ne_of_gt hgt]

/-- The queue lists the things at a place, each once. -/
structure Holds (things : List α) (here : α → Prop) (queue : List Nat) : Prop where
  nodup : queue.Nodup
  mem_iff : ∀ i, i ∈ queue ↔ ∃ a, things[i]? = some a ∧ here a

variable {things : List α} {here : α → Prop} {queue : List Nat} {i : Nat} {a b : α}

theorem holds_nil : Holds [] here [] where
  nodup := List.nodup_nil
  mem_iff i := by simp

/-- A new thing that is elsewhere. -/
theorem Holds.append_elsewhere (h : Holds things here queue) (ha : ¬ here a) :
    Holds (things ++ [a]) here queue := by
  refine ⟨h.nodup, fun j => (h.mem_iff j).trans ?_⟩
  simp only [getElem?_concat_iff]
  constructor
  · rintro ⟨b, hj, hb⟩
    exact ⟨b, .inl hj, hb⟩
  · rintro ⟨b, hj | ⟨-, rfl⟩, hb⟩
    · exact ⟨b, hj, hb⟩
    · exact absurd hb ha

/-- A new thing that is here goes to the end of the queue. -/
theorem Holds.append_here (h : Holds things here queue) (ha : here a) :
    Holds (things ++ [a]) here (queue ++ [things.length]) := by
  have hnew : things.length ∉ queue := by
    intro hmem
    obtain ⟨b, hb, -⟩ := (h.mem_iff _).mp hmem
    exact absurd (List.getElem?_eq_some_iff.mp hb).1 (Nat.lt_irrefl _)
  refine ⟨List.nodup_append.mpr ⟨h.nodup, List.nodup_singleton _, ?_⟩, fun j => ?_⟩
  · rintro j hj k hk rfl
    exact hnew (List.mem_singleton.mp hk ▸ hj)
  · rw [List.mem_append, List.mem_singleton, h.mem_iff]
    simp only [getElem?_concat_iff]
    constructor
    · rintro (⟨b, hj, hb⟩ | rfl)
      · exact ⟨b, .inl hj, hb⟩
      · exact ⟨a, .inr ⟨rfl, rfl⟩, ha⟩
    · rintro ⟨b, hj | ⟨rfl, rfl⟩, hb⟩
      · exact .inl ⟨b, hj, hb⟩
      · exact .inr rfl

/-- A thing changes and is where it was, seen from here. -/
theorem Holds.set (h : Holds things here queue) (ha : things[i]? = some a)
    (hab : here b ↔ here a) : Holds (things.set i b) here queue := by
  refine ⟨h.nodup, fun j => (h.mem_iff j).trans ?_⟩
  obtain ⟨hi, rfl⟩ := List.getElem?_eq_some_iff.mp ha
  by_cases hij : i = j
  · subst hij
    simp [hi, hab]
  · rw [List.getElem?_set_ne hij]

/-- A thing comes here. -/
theorem Holds.enter (h : Holds things here queue) (ha : things[i]? = some a) (hno : ¬ here a)
    (hyes : here b) : Holds (things.set i b) here (queue ++ [i]) := by
  have hi := (List.getElem?_eq_some_iff.mp ha).1
  have hnew : i ∉ queue := by
    intro hmem
    obtain ⟨c, hc, hhere⟩ := (h.mem_iff i).mp hmem
    rw [ha] at hc
    exact hno (Option.some.inj hc ▸ hhere)
  refine ⟨List.nodup_append.mpr ⟨h.nodup, List.nodup_singleton _, ?_⟩, fun j => ?_⟩
  · rintro j hj k hk rfl
    exact hnew (List.mem_singleton.mp hk ▸ hj)
  · rw [List.mem_append, List.mem_singleton, h.mem_iff]
    by_cases hij : i = j
    · subst hij
      simp [hi, hyes]
    · rw [List.getElem?_set_ne hij]
      exact or_iff_left (Ne.symm hij)

/-- The thing at the front goes elsewhere. -/
theorem Holds.leave (h : Holds things here (i :: queue)) (hno : ¬ here b) :
    Holds (things.set i b) here queue := by
  obtain ⟨hnew, hnodup⟩ := List.nodup_cons.mp h.nodup
  obtain ⟨a, ha, -⟩ := (h.mem_iff i).mp List.mem_cons_self
  have hi := (List.getElem?_eq_some_iff.mp ha).1
  refine ⟨hnodup, fun j => ?_⟩
  by_cases hij : i = j
  · subst hij
    simp [hi, hno, hnew]
  · rw [List.getElem?_set_ne hij, ← h.mem_iff, List.mem_cons]
    exact (or_iff_right (Ne.symm hij)).symm

/-- Many things change, each where it was. -/
theorem Holds.map (h : Holds things here queue) {f : α → α} (hf : ∀ a, here (f a) ↔ here a) :
    Holds (things.map f) here queue := by
  refine ⟨h.nodup, fun j => (h.mem_iff j).trans ?_⟩
  simp only [List.getElem?_map, Option.map_eq_some_iff]
  constructor
  · rintro ⟨a, hj, ha⟩
    exact ⟨f a, ⟨a, hj, rfl⟩, (hf a).mpr ha⟩
  · rintro ⟨_, ⟨a, hj, rfl⟩, ha⟩
    exact ⟨a, hj, (hf a).mp ha⟩

/-- All things go elsewhere. -/
theorem holds_map_nil {f : α → α} (hf : ∀ a, ¬ here (f a)) : Holds (things.map f) here [] := by
  refine ⟨List.nodup_nil, fun j => ?_⟩
  simp only [List.getElem?_map, Option.map_eq_some_iff, List.not_mem_nil, false_iff]
  rintro ⟨_, ⟨a, -, rfl⟩, ha⟩
  exact hf a ha

/-- The thing at the front is here. -/
theorem Holds.front (h : Holds things here (i :: queue)) : ∃ a, things[i]? = some a ∧ here a :=
  (h.mem_iff i).mp List.mem_cons_self

/-- The indices of the things here, counted. -/
private theorem countP_range_eq (things : List α) (p : α → Bool) :
    (List.range things.length).countP (fun i => (things[i]?).any p) = things.countP p := by
  induction things using List.reverseRecOn with
  | nil => rfl
  | append_singleton things a ih =>
    have hbefore : (List.range things.length).countP (fun i => ((things ++ [a])[i]?).any p) =
        (List.range things.length).countP fun i => (things[i]?).any p := by
      refine List.countP_congr fun i hi => ?_
      rw [List.getElem?_append_left (List.mem_range.mp hi)]
    rw [List.length_append, List.length_singleton, List.range_succ, List.countP_append, hbefore, ih,
      List.countP_append]
    simp

/-- The queue is as long as there are things here. -/
theorem Holds.length_eq [DecidablePred here] (h : Holds things here queue) :
    queue.length = things.countP fun a => decide (here a) := by
  rw [← countP_range_eq, List.countP_eq_length_filter]
  refine List.Perm.length_eq ((List.perm_ext_iff_of_nodup h.nodup
    (List.nodup_range.filter _)).mpr fun i => ?_)
  rw [h.mem_iff, List.mem_filter, List.mem_range]
  constructor
  · rintro ⟨a, ha, hhere⟩
    exact ⟨(List.getElem?_eq_some_iff.mp ha).1, by simp [ha, hhere]⟩
  · rintro ⟨hi, hhere⟩
    refine ⟨things[i], List.getElem?_eq_getElem hi, ?_⟩
    simpa [hi] using hhere

end SqdNetwork.Core
