import SqdNetwork.Core.Bisect
import Mathlib.Algebra.Order.Ring.Nat
import Mathlib.Order.Basic

/-!
# Points among separated intervals

Intervals in ascending order with nothing shared between neighbours. Stepping
back from the first interval that starts after a point decides where the point
lies: after all of them, before all of them, inside exactly one, or in a gap.
-/

namespace SqdNetwork.Core

/-- Where a point lies. -/
inductive Place where
  | after
  | before
  | gap
  /-- Inside the interval with this number. -/
  | inside (i : Nat)
  deriving DecidableEq, Repr

variable {R β : Type} [LinearOrder β] (start stop : R → β)

/-- Proper intervals, each ending before the next one starts. -/
structure Separated (rs : List R) : Prop where
  proper : ∀ r ∈ rs, start r ≤ stop r
  apart : rs.Pairwise fun r s => stop r < start s

/-- Decide by the last end, then by the last interval starting at or before the point. -/
def place (rs : List R) (x : β) : Place :=
  if rs.getLast?.any fun r => stop r < x then .after
  else match (rs.takeWhile fun r => start r ≤ x).length with
    | 0 => .before
    | i + 1 => if rs[i]?.any fun r => stop r < x then .gap else .inside i

namespace Separated

variable {start stop} {rs : List R} (h : Separated start stop rs)

include h

/-- Intervals with smaller numbers end before later ones start. -/
theorem stop_lt_start {i j : Nat} {r s : R} (hij : i < j) (hr : rs[i]? = some r)
    (hs : rs[j]? = some s) : stop r < start s := by
  obtain ⟨hi, rfl⟩ := List.getElem?_eq_some_iff.mp hr
  obtain ⟨hj, rfl⟩ := List.getElem?_eq_some_iff.mp hs
  exact List.pairwise_iff_getElem.mp h.apart i j hi hj hij

/-- Ends ascend. -/
theorem stop_le_stop {i j : Nat} {r s : R} (hij : i ≤ j) (hr : rs[i]? = some r)
    (hs : rs[j]? = some s) : stop r ≤ stop s := by
  rcases Nat.eq_or_lt_of_le hij with rfl | hlt
  · rw [hr, Option.some.injEq] at hs
    exact hs ▸ le_refl _
  · exact (h.stop_lt_start hlt hr hs).le.trans (h.proper s (List.mem_of_getElem? hs))

/-- An interval starts at or before a point exactly when it lies in the leading block. -/
theorem start_le_iff {i : Nat} {r : R} (hr : rs[i]? = some r) (x : β) :
    start r ≤ x ↔ i < (rs.takeWhile fun r => start r ≤ x).length := by
  have hblock :
      rs.Pairwise fun a b => decide (start b ≤ x) = true → decide (start a ≤ x) = true := by
    refine h.apart.imp_of_mem ?_
    intro a b ha _ hab hb
    exact decide_eq_true (((h.proper a ha).trans hab.le).trans (of_decide_eq_true hb))
  obtain ⟨hi, rfl⟩ := List.getElem?_eq_some_iff.mp hr
  rw [← lt_length_takeWhile hblock hi, decide_eq_true_eq]

/-- At most one interval contains a point. -/
theorem unique {i j : Nat} {r s : R} {x : β} (hr : rs[i]? = some r) (hs : rs[j]? = some s)
    (hxr : start r ≤ x ∧ x ≤ stop r) (hxs : start s ≤ x ∧ x ≤ stop s) : i = j := by
  rcases Nat.lt_trichotomy i j with hlt | heq | hgt
  · exact absurd ((h.stop_lt_start hlt hr hs).trans_le hxs.1) hxr.2.not_gt
  · exact heq
  · exact absurd ((h.stop_lt_start hgt hs hr).trans_le hxr.1) hxs.2.not_gt

omit h in
theorem place_after_iff {x : β} :
    place start stop rs x = .after ↔ ∃ r, rs.getLast? = some r ∧ stop r < x := by
  unfold place
  split
  · next hafter => simpa [Option.any_eq_true] using hafter
  · next hafter =>
    refine iff_of_false ?_ (by simpa [Option.any_eq_true] using hafter)
    split
    · simp
    · split <;> simp

/-- A point not beyond some interval's end is not beyond the last one's. -/
theorem not_after {i : Nat} {r : R} {x : β} (hr : rs[i]? = some r) (hx : x ≤ stop r) :
    ¬ (rs.getLast?.any fun r => stop r < x) = true := by
  intro hafter
  obtain ⟨last, hlast, hlt⟩ := Option.any_eq_true _ _ |>.mp hafter
  rw [List.getLast?_eq_getElem?] at hlast
  have hi := (List.getElem?_eq_some_iff.mp hr).1
  have hle := h.stop_le_stop (show i ≤ rs.length - 1 by omega) hr hlast
  exact absurd (of_decide_eq_true hlt) (hx.trans hle).not_gt

/-- The answer names an interval exactly when that interval contains the point. -/
theorem place_inside_iff {x : β} {i : Nat} :
    place start stop rs x = .inside i ↔
      ∃ r, rs[i]? = some r ∧ start r ≤ x ∧ x ≤ stop r := by
  constructor
  · intro hplace
    unfold place at hplace
    split at hplace
    · exact Place.noConfusion hplace
    · split at hplace
      · exact Place.noConfusion hplace
      · next k hk =>
        split at hplace
        · exact Place.noConfusion hplace
        · next hgap =>
          rw [Place.inside.injEq] at hplace
          subst hplace
          have hlt : k < rs.length := by
            have hle := (List.takeWhile_sublist (l := rs) fun r => decide (start r ≤ x)).length_le
            omega
          have hr := List.getElem?_eq_getElem hlt
          refine ⟨rs.get ⟨k, hlt⟩, hr, (h.start_le_iff hr x).mpr (by omega), ?_⟩
          simpa [hr] using hgap
  · rintro ⟨r, hr, hstart, hstop⟩
    have hin := (h.start_le_iff hr x).mp hstart
    have hlen : (rs.takeWhile fun r => start r ≤ x).length = i + 1 := by
      by_contra hne
      have hlt : i + 1 < rs.length := by
        have hle := (List.takeWhile_sublist (l := rs) fun r => decide (start r ≤ x)).length_le
        omega
      have hs := List.getElem?_eq_getElem hlt
      have hnext := (h.start_le_iff hs x).mpr (by omega)
      exact absurd ((h.stop_lt_start (Nat.lt_succ_self i) hr hs).trans_le hnext) hstop.not_gt
    unfold place
    rw [if_neg (h.not_after hr hstop), hlen]
    simp [hr, hstop]

/-- The answer is before all intervals exactly when the first one starts later. -/
theorem place_before_iff (hne : rs ≠ []) {x : β} :
    place start stop rs x = .before ↔ ∃ r, rs.head? = some r ∧ x < start r := by
  obtain ⟨first, hfirst⟩ : ∃ first, rs[0]? = some first :=
    ⟨_, List.getElem?_eq_getElem (List.length_pos_iff.mpr hne)⟩
  have hiff := h.start_le_iff hfirst x
  rw [List.head?_eq_getElem?, hfirst]
  constructor
  · intro hplace
    refine ⟨first, rfl, ?_⟩
    unfold place at hplace
    split at hplace
    · exact Place.noConfusion hplace
    · split at hplace
      · next hzero => exact not_le.mp fun hle => by have := hiff.mp hle; omega
      · split at hplace <;> exact Place.noConfusion hplace
  · rintro ⟨r, he, hlt⟩
    rw [Option.some.injEq] at he
    subst he
    have hstop := hlt.le.trans (h.proper first (List.mem_of_getElem? hfirst))
    have hzero : (rs.takeWhile fun r => start r ≤ x).length = 0 := by
      by_contra hpos
      exact absurd (hiff.mpr (Nat.pos_of_ne_zero hpos)) hlt.not_ge
    unfold place
    rw [if_neg (h.not_after hfirst hstop), hzero]

end Separated

end SqdNetwork.Core
