import SqdNetwork.Core.Compact
import SqdNetwork.Core.Intervals

/-!
# Unions of intervals in normal form

A union of intervals has one list of intervals in which any two neighbours leave a
point free between them. Merging intervals in order of their starts, each into the
last one unless a point is free between the two, comes to that list.
-/

namespace SqdNetwork.Core

variable {R β : Type} [LinearOrder β] (start stop : R → β)

/-- The point lies in one of the intervals. -/
def Covers (rs : List R) (x : β) : Prop := ∃ r ∈ rs, start r ≤ x ∧ x ≤ stop r

/-- A point lies strictly between two intervals. -/
def Apart (r s : R) : Prop := ∃ x, stop r < x ∧ x < start s

/-- Proper intervals in ascending order, each apart from those after it. -/
structure Spaced (rs : List R) : Prop where
  proper : ∀ r ∈ rs, start r ≤ stop r
  apart : rs.Pairwise (Apart start stop)

variable {start stop} {r s : R} {rs ss : List R} {x y : β}

theorem covers_cons : Covers start stop (r :: rs) x ↔
    start r ≤ x ∧ x ≤ stop r ∨ Covers start stop rs x := by
  simp only [Covers, List.mem_cons, exists_eq_or_imp]

theorem covers_append : Covers start stop (rs ++ ss) x ↔
    Covers start stop rs x ∨ Covers start stop ss x := by
  simp only [Covers, List.mem_append, or_and_right, exists_or]

/-- Rearranging intervals keeps their points. -/
theorem covers_perm (h : rs.Perm ss) : Covers start stop rs x ↔ Covers start stop ss x := by
  simp only [Covers, h.mem_iff]

namespace Spaced

theorem nil : Spaced start stop ([] : List R) := ⟨by simp, List.Pairwise.nil⟩

theorem of_cons (h : Spaced start stop (r :: rs)) : Spaced start stop rs :=
  ⟨fun s hs => h.proper s (List.mem_cons_of_mem _ hs), (List.pairwise_cons.mp h.apart).2⟩

/-- An interval before a free point goes in front of intervals behind it. -/
theorem cons (h : Spaced start stop rs) (hproper : start r ≤ stop r) (hx : stop r < x)
    (hafter : ∀ s ∈ rs, x < start s) : Spaced start stop (r :: rs) := by
  constructor
  · intro s hs
    rcases List.mem_cons.mp hs with rfl | hs
    · exact hproper
    · exact h.proper s hs
  · refine List.pairwise_cons.mpr ⟨?_, h.apart⟩
    intro s hs
    exact ⟨x, hx, hafter s hs⟩

/-- Intervals that leave points free do not overlap. -/
theorem separated (h : Spaced start stop rs) : Separated start stop rs := by
  refine ⟨h.proper, h.apart.imp ?_⟩
  rintro r s ⟨x, hrx, hxs⟩
  exact hrx.trans hxs

/-- Every point of the later intervals lies beyond the first one. -/
theorem stop_lt_of_covers (h : Spaced start stop (r :: rs)) (hx : Covers start stop rs x) :
    stop r < x := by
  obtain ⟨s, hs, hle, -⟩ := hx
  obtain ⟨y, hry, hys⟩ := (List.pairwise_cons.mp h.apart).1 s hs
  exact (hry.trans hys).trans_le hle

/-- Dropping the first interval drops exactly the points up to its end. -/
theorem covers_tail_iff (h : Spaced start stop (r :: rs)) :
    Covers start stop rs x ↔ Covers start stop (r :: rs) x ∧ stop r < x := by
  constructor
  · intro hx
    exact ⟨covers_cons.mpr (Or.inr hx), h.stop_lt_of_covers hx⟩
  · rintro ⟨hx, hlt⟩
    rcases covers_cons.mp hx with ⟨-, hle⟩ | hx
    · exact absurd hlt hle.not_gt
    · exact hx

/-- The first interval starts at or before every point. -/
theorem start_le_of_covers (h : Spaced start stop (r :: rs))
    (hx : Covers start stop (r :: rs) x) : start r ≤ x := by
  rcases covers_cons.mp hx with ⟨hle, -⟩ | hx
  · exact hle
  · exact (h.proper r List.mem_cons_self).trans (h.stop_lt_of_covers hx).le

/-- Right behind an interval a point is free, at or before any point beyond its end. -/
theorem exists_free (h : Spaced start stop rs) (hr : r ∈ rs) (hy : stop r < y) :
    ∃ x, stop r < x ∧ x ≤ y ∧ ¬ Covers start stop rs x := by
  induction rs with
  | nil => exact absurd hr List.not_mem_nil
  | cons t ts ih =>
    rcases List.mem_cons.mp hr with rfl | hr
    · cases ts with
      | nil =>
        refine ⟨y, hy, le_refl y, ?_⟩
        rintro ⟨s, hs, -, hle⟩
        rw [List.mem_singleton.mp hs] at hle
        exact absurd hy hle.not_gt
      | cons u us =>
        obtain ⟨x, hrx, hxu⟩ := (List.pairwise_cons.mp h.apart).1 u List.mem_cons_self
        refine ⟨min x y, lt_min hrx hy, min_le_right x y, fun hcov => ?_⟩
        have htail := h.covers_tail_iff.mpr ⟨hcov, lt_min hrx hy⟩
        exact absurd (h.of_cons.start_le_of_covers htail) ((min_le_left x y).trans_lt hxu).not_ge
    · obtain ⟨x, hrx, hxy, hfree⟩ := ih h.of_cons hr
      refine ⟨x, hrx, hxy, fun hcov => hfree (h.covers_tail_iff.mpr ⟨hcov, ?_⟩)⟩
      obtain ⟨z, htz, hzr⟩ := (List.pairwise_cons.mp h.apart).1 r hr
      exact ((htz.trans hzr).trans_le (h.of_cons.proper r hr)).trans hrx

/-- All points between two bounds are covered exactly when one interval covers both bounds. -/
theorem covers_between_iff (h : Spaced start stop rs) (hxy : x ≤ y) :
    (∀ z, x ≤ z → z ≤ y → Covers start stop rs z) ↔ ∃ r ∈ rs, start r ≤ x ∧ y ≤ stop r := by
  constructor
  · intro hall
    obtain ⟨r, hr, hstart, hstop⟩ := hall x (le_refl x) hxy
    refine ⟨r, hr, hstart, not_lt.mp fun hlt => ?_⟩
    obtain ⟨z, hrz, hzy, hfree⟩ := h.exists_free hr hlt
    exact hfree (hall z (hstop.trans hrz.le) hzy)
  · rintro ⟨r, hr, hstart, hstop⟩ z hxz hzy
    exact ⟨r, hr, hstart.trans hxz, hzy.trans hstop⟩

/-- A first interval reaches as far as any first interval with the same points. -/
theorem stop_le_stop_of_covers (hr : Spaced start stop (r :: rs)) (hstart : start r = start s)
    (hsame : ∀ x, Covers start stop (r :: rs) x ↔ Covers start stop (s :: ss) x) :
    stop s ≤ stop r := by
  refine not_lt.mp fun hlt => ?_
  obtain ⟨x, hrx, hxs, hfree⟩ := hr.exists_free List.mem_cons_self hlt
  have hle : start s ≤ x :=
    hstart ▸ (hr.proper r List.mem_cons_self).trans hrx.le
  exact hfree ((hsame x).mpr ⟨s, List.mem_cons_self, hle, hxs⟩)

/-- The list of spaced intervals is determined by its points. -/
theorem eq_of_covers (hext : ∀ r s : R, start r = start s → stop r = stop s → r = s)
    (hr : Spaced start stop rs) (hs : Spaced start stop ss)
    (hsame : ∀ x, Covers start stop rs x ↔ Covers start stop ss x) : rs = ss := by
  induction rs generalizing ss with
  | nil =>
    cases ss with
    | nil => rfl
    | cons s ss =>
      have hcov := (hsame (start s)).mpr
        ⟨s, List.mem_cons_self, le_refl _, hs.proper s List.mem_cons_self⟩
      obtain ⟨r, hmem, -⟩ := hcov
      exact absurd hmem List.not_mem_nil
  | cons r rs ih =>
    cases ss with
    | nil =>
      have hcov := (hsame (start r)).mp
        ⟨r, List.mem_cons_self, le_refl _, hr.proper r List.mem_cons_self⟩
      obtain ⟨s, hmem, -⟩ := hcov
      exact absurd hmem List.not_mem_nil
    | cons s ss =>
      have hstart : start r = start s := by
        apply le_antisymm
        · exact hr.start_le_of_covers ((hsame (start s)).mpr
            ⟨s, List.mem_cons_self, le_refl _, hs.proper s List.mem_cons_self⟩)
        · exact hs.start_le_of_covers ((hsame (start r)).mp
            ⟨r, List.mem_cons_self, le_refl _, hr.proper r List.mem_cons_self⟩)
      have hstop : stop r = stop s := le_antisymm
        (hs.stop_le_stop_of_covers hstart.symm fun x => (hsame x).symm)
        (hr.stop_le_stop_of_covers hstart hsame)
      obtain rfl := hext r s hstart hstop
      refine congrArg (r :: ·) (ih hr.of_cons hs.of_cons fun x => ?_)
      rw [hr.covers_tail_iff, hs.covers_tail_iff, hsame x]

end Spaced

variable (start stop) in
/-- Merging two intervals, the first one starting no later: refused exactly if they are apart,
else the smallest interval around both. It need only be right when the first one is `good`. -/
structure Merges (good : R → Prop) (merge : R → R → Option R) : Prop where
  apart : ∀ p c, good p → merge p c = none → Apart start stop p c
  touching : ∀ p c q, good p → merge p c = some q → ¬ Apart start stop p c
  start_eq : ∀ p c q, good p → merge p c = some q → start q = start p
  stop_eq : ∀ p c q, good p → merge p c = some q → stop q = max (stop p) (stop c)
  good : ∀ p c q, good p → good c → merge p c = some q → good q

namespace Merges

variable {good : R → Prop} {merge : R → R → Option R} {p c q : R} {rest : List R}

/-- The merged interval has the points of both. -/
theorem covers_iff (h : Merges start stop good merge) (hp : good p) (hle : start p ≤ start c)
    (hmerge : merge p c = some q) :
    start q ≤ x ∧ x ≤ stop q ↔ (start p ≤ x ∧ x ≤ stop p) ∨ (start c ≤ x ∧ x ≤ stop c) := by
  rw [h.start_eq p c q hp hmerge, h.stop_eq p c q hp hmerge]
  constructor
  · rintro ⟨hstart, hstop⟩
    rcases le_or_gt x (stop p) with hx | hx
    · exact Or.inl ⟨hstart, hx⟩
    · have hc : start c ≤ x :=
        not_lt.mp fun hxc => h.touching p c q hp hmerge ⟨x, hx, hxc⟩
      exact Or.inr ⟨hc, (le_max_iff.mp hstop).resolve_left hx.not_ge⟩
  · rintro (⟨hstart, hstop⟩ | ⟨hstart, hstop⟩)
    · exact ⟨hstart, hstop.trans (le_max_left _ _)⟩
    · exact ⟨hle.trans hstart, hstop.trans (le_max_right _ _)⟩

/-- Merging the first two intervals leaves the others in order behind the merged one. -/
theorem ordered_merged (h : Merges start stop good merge) (hp : good p)
    (hmerge : merge p c = some q) (hproper : ∀ r ∈ p :: c :: rest, start r ≤ stop r)
    (hsorted : (p :: c :: rest).Pairwise fun r s => start r ≤ start s) :
    (∀ r ∈ q :: rest, start r ≤ stop r) ∧
      (q :: rest).Pairwise fun r s => start r ≤ start s := by
  have hstart := h.start_eq p c q hp hmerge
  obtain ⟨hfirst, htail⟩ := List.pairwise_cons.mp hsorted
  constructor
  · intro r hr
    rcases List.mem_cons.mp hr with rfl | hr
    · rw [hstart, h.stop_eq p c r hp hmerge]
      exact (hproper p List.mem_cons_self).trans (le_max_left _ _)
    · exact hproper r (List.mem_cons_of_mem _ (List.mem_cons_of_mem _ hr))
  · refine List.pairwise_cons.mpr ⟨?_, (List.pairwise_cons.mp htail).2⟩
    intro r hr
    rw [hstart]
    exact hfirst r (List.mem_cons_of_mem _ hr)

/-- Merging intervals in order of their starts comes to the normal form of their union. Every
interval but the last must be `good`. -/
theorem coalesce_spec (h : Merges start stop good merge)
    (hgood : ∀ r ∈ (p :: rest).dropLast, good r)
    (hproper : ∀ r ∈ p :: rest, start r ≤ stop r)
    (hsorted : (p :: rest).Pairwise fun r s => start r ≤ start s) :
    Spaced start stop (coalesce merge p rest) ∧
      (∀ r ∈ coalesce merge p rest, start p ≤ start r) ∧
      ∀ x, Covers start stop (coalesce merge p rest) x ↔ Covers start stop (p :: rest) x := by
  induction rest generalizing p with
  | nil =>
    refine ⟨⟨hproper, List.pairwise_singleton _ _⟩, ?_, fun x => Iff.rfl⟩
    intro r hr
    rw [List.mem_singleton.mp hr]
  | cons c rest ih =>
    have hp : good p := hgood p List.mem_cons_self
    have hgoodTail : ∀ r ∈ (c :: rest).dropLast, good r := fun r hr =>
      hgood r (List.mem_cons_of_mem _ hr)
    have hproperTail : ∀ r ∈ c :: rest, start r ≤ stop r := fun r hr =>
      hproper r (List.mem_cons_of_mem _ hr)
    obtain ⟨hfirst, hsortedTail⟩ := List.pairwise_cons.mp hsorted
    have hle := hfirst c List.mem_cons_self
    rw [coalesce]
    cases hmerge : merge p c with
    | none =>
      obtain ⟨hspaced, hafter, hcovers⟩ := ih hgoodTail hproperTail hsortedTail
      obtain ⟨x, hpx, hxc⟩ := h.apart p c hp hmerge
      refine ⟨hspaced.cons (hproper p List.mem_cons_self) hpx ?_, ?_, ?_⟩
      · intro r hr
        exact hxc.trans_le (hafter r hr)
      · intro r hr
        rcases List.mem_cons.mp hr with rfl | hr
        · exact le_refl _
        · exact hle.trans (hafter r hr)
      · intro x
        rw [covers_cons, hcovers x]
        exact covers_cons.symm
    | some q =>
      obtain ⟨hqproper, hqsorted⟩ := h.ordered_merged hp hmerge hproper hsorted
      have hqgood : ∀ r ∈ (q :: rest).dropLast, good r :=
        forall_dropLast_merged hgood fun hp hc => h.good p c q hp hc hmerge
      obtain ⟨hspaced, hafter, hcovers⟩ := ih hqgood hqproper hqsorted
      refine ⟨hspaced, ?_, ?_⟩
      · intro r hr
        exact h.start_eq p c q hp hmerge ▸ hafter r hr
      · intro x
        rw [hcovers x, covers_cons, h.covers_iff hp hle hmerge, covers_cons, covers_cons, or_assoc]

end Merges

end SqdNetwork.Core
