import SqdNetwork.Messages.RangeSet

/-!
# Range sets are normal forms

Extending a set by ranges that end before the largest block returns, and returns the
normal form of the union. So a set is determined by its blocks, and the queries, which
look at a single stored range, are exact. A range up to the largest block is safe
only where nothing is read after it.
-/

namespace SqdNetwork.Messages

open SqdNetwork.Core

namespace RangeSet

/-- Sorted, proper, disjoint ranges with a block free between neighbours. -/
structure Normal (s : RangeSet) : Prop where
  sorted : s.ranges.Pairwise fun p c => p.start < c.start
  proper : ∀ r ∈ s.ranges, r.start ≤ r.stop
  disjoint : s.ranges.Pairwise fun p c => ∀ point, ¬ (p.Holds point ∧ c.Holds point)
  nonadjacent : s.ranges.Pairwise fun p c => p.stop.toNat + 1 < c.start.toNat

/-- Later ranges of a spaced list start past one more than the end. -/
theorem last_lt_of_apart {p c : Range} (h : Apart Range.first Range.last p c) :
    p.last + 1 < c.first := by
  obtain ⟨x, hpx, hxc⟩ := h
  omega

theorem normal_iff {s : RangeSet} : s.Normal ↔ Spaced Range.first Range.last s.ranges := by
  constructor
  · intro h
    refine ⟨fun r hr => Range.proper_iff.mp (h.proper r hr), h.nonadjacent.imp fun {p c} hlt => ?_⟩
    exact ⟨p.last + 1, Nat.lt_succ_self _, hlt⟩
  · intro h
    refine ⟨?_, fun r hr => Range.proper_iff.mpr (h.proper r hr), ?_,
      h.apart.imp fun happart => last_lt_of_apart happart⟩
    · refine h.apart.imp_of_mem fun {p c} hp _ happart => ?_
      have hproper := h.proper p hp
      have hlt := last_lt_of_apart happart
      exact UInt64.lt_iff_toNat_lt.mpr (show p.first < c.first by omega)
    · refine h.apart.imp fun {p c} happart point hboth => ?_
      have hlt := last_lt_of_apart happart
      have hp := Range.holds_iff.mp hboth.1
      have hc := Range.holds_iff.mp hboth.2
      omega

/-- Bounded ranges never make the loop overflow, and the result is bounded again. -/
theorem extend_bounded (profile : Profile) {s : RangeSet} {iter : List Range}
    (hs : ∀ r ∈ s.ranges, r.Bounded) (hiter : ∀ r ∈ iter, r.Bounded) :
    ∃ t, s.extend profile iter = .ok t ∧ t.Normal ∧ (∀ r ∈ t.ranges, r.Bounded) ∧
      ∀ point, Covered t.ranges point ↔ Covered s.ranges point ∨ Covered iter point := by
  have hbounded : ∀ r ∈ s.ranges ++ iter, r.Bounded := by
    intro r hr
    exact (List.mem_append.mp hr).elim (hs r) (hiter r)
  have hlast : ∀ r ∈ ((s.ranges ++ iter).insertionSort Range.le).dropLast,
      r.last + 1 < 2 ^ 64 := by
    intro r hr
    have hmem := (List.mem_insertionSort Range.le).mp ((List.dropLast_sublist _).subset hr)
    have hlt := (hbounded r hmem).2
    rw [Range.last]
    omega
  obtain ⟨hextend, hspaced, hcovers⟩ :=
    extend_eq_normalize profile (fun r hr => (hbounded r hr).1) hlast
  refine ⟨_, hextend, normal_iff.mpr hspaced, ?_, ?_⟩
  · intro r hr
    have hproper := hspaced.proper r hr
    obtain ⟨t, ht, -, hle⟩ := (hcovers r.last).mp ⟨r, hr, hproper, Nat.le_refl _⟩
    exact ⟨Range.proper_iff.mpr hproper, Nat.lt_of_le_of_lt hle (hbounded t ht).2⟩
  · intro point
    rw [covered_iff, hcovers, covers_append, ← covered_iff, ← covered_iff]

theorem fromIter_bounded (profile : Profile) {iter : List Range}
    (hiter : ∀ r ∈ iter, r.Bounded) :
    ∃ t, fromIter profile iter = .ok t ∧ t.Normal ∧ (∀ r ∈ t.ranges, r.Bounded) ∧
      ∀ point, Covered t.ranges point ↔ Covered iter point := by
  obtain ⟨t, ht, hnormal, hbounded, hcovers⟩ :=
    extend_bounded profile (s := empty) (by simp [empty]) hiter
  refine ⟨t, ht, hnormal, hbounded, fun point => (hcovers point).trans (or_iff_right ?_)⟩
  rintro ⟨r, hr, -⟩
  exact List.not_mem_nil hr

/-- Extending any set by any list of bounded ranges returns their union in normal form, and so
does building a set from a list. -/
theorem extend_normal_form (profile : Profile) (s : RangeSet) (iter : List Range)
    (hs : ∀ r ∈ s.ranges, r.Bounded) (hiter : ∀ r ∈ iter, r.Bounded) :
    (∃ t, s.extend profile iter = .ok t ∧ t.Normal ∧
      ∀ point, Covered t.ranges point ↔ Covered s.ranges point ∨ Covered iter point) ∧
    ∃ t, fromIter profile iter = .ok t ∧ t.Normal ∧
      ∀ point, Covered t.ranges point ↔ Covered iter point := by
  obtain ⟨t, ht, hnormal, -, hcovers⟩ := extend_bounded profile hs hiter
  refine ⟨⟨t, ht, hnormal, hcovers⟩, ?_⟩
  obtain ⟨t, ht, hnormal, -, hcovers⟩ := fromIter_bounded profile hiter
  exact ⟨t, ht, hnormal, hcovers⟩

theorem extend_normal_form_sample :
    ∃ t, RangeSet.extend .debug ⟨[⟨35, 40⟩, ⟨5, 10⟩]⟩ [⟨10, 20⟩, ⟨21, 30⟩] = .ok t ∧ t.Normal ∧
      ∀ point, Covered t.ranges point ↔
        Covered [⟨35, 40⟩, ⟨5, 10⟩] point ∨ Covered [⟨10, 20⟩, ⟨21, 30⟩] point :=
  (extend_normal_form .debug ⟨[⟨35, 40⟩, ⟨5, 10⟩]⟩ [⟨10, 20⟩, ⟨21, 30⟩] (by decide) (by decide)).1

/-- Normal sets with the same blocks are the same. -/
theorem Normal.ext {s t : RangeSet} (hs : s.Normal) (ht : t.Normal)
    (hsame : ∀ point, Covered s.ranges point ↔ Covered t.ranges point) : s = t := by
  obtain ⟨ranges⟩ := s
  obtain ⟨ranges'⟩ := t
  exact congrArg RangeSet.mk ((normal_iff.mp hs).eq_of_covers
    (fun r s hfirst hlast => Range.ext_of_ends hfirst hlast) (normal_iff.mp ht)
    (covers_iff_of_covered_iff hsame))

/-- A set built by any number of calls, each with a list of ranges; the first is `fromIter`. -/
def build (profile : Profile) (batches : List (List Range)) : Exec RangeSet :=
  batches.foldlM (extend profile) empty

/-- One more call covers the blocks of all ranges so far. -/
theorem foldlM_extend (profile : Profile) {s : RangeSet} {batches : List (List Range)}
    (hs : s.Normal ∧ ∀ r ∈ s.ranges, r.Bounded)
    (hbatches : ∀ iter ∈ batches, ∀ r ∈ iter, r.Bounded) :
    ∃ t, batches.foldlM (extend profile) s = .ok t ∧ t.Normal ∧ (∀ r ∈ t.ranges, r.Bounded) ∧
      ∀ point, Covered t.ranges point ↔
        Covered s.ranges point ∨ Covered batches.flatten point := by
  induction batches generalizing s with
  | nil =>
    refine ⟨s, rfl, hs.1, hs.2, fun point => (or_iff_left ?_).symm⟩
    rintro ⟨r, hr, -⟩
    exact List.not_mem_nil hr
  | cons iter batches ih =>
    obtain ⟨hiter, hrest⟩ := List.forall_mem_cons.mp hbatches
    obtain ⟨t, ht, hnormal, hbounded, hcovers⟩ := extend_bounded profile hs.2 hiter
    obtain ⟨u, hu, hunormal, hubounded, hucovers⟩ := ih ⟨hnormal, hbounded⟩ hrest
    refine ⟨u, ?_, hunormal, hubounded, fun point => ?_⟩
    · rw [List.foldlM_cons, ht]
      exact hu
    · rw [hucovers, hcovers, List.flatten_cons, or_assoc]
      simp only [Covered, List.mem_append, or_and_right, exists_or]

/-- A built set is the normal form of all ranges given. -/
theorem build_spec (profile : Profile) {batches : List (List Range)}
    (hbatches : ∀ iter ∈ batches, ∀ r ∈ iter, r.Bounded) :
    ∃ s, build profile batches = .ok s ∧ s.Normal ∧ (∀ r ∈ s.ranges, r.Bounded) ∧
      ∀ point, Covered s.ranges point ↔ Covered batches.flatten point := by
  obtain ⟨s, hs, hnormal, hbounded, hcovers⟩ := foldlM_extend profile (s := empty)
    ⟨normal_iff.mpr Spaced.nil, by simp [empty]⟩ hbatches
  refine ⟨s, hs, hnormal, hbounded, fun point => (hcovers point).trans (or_iff_right ?_)⟩
  rintro ⟨r, hr, -⟩
  exact List.not_mem_nil hr

section Queries

variable {s : RangeSet}

/-- The comparison of `containingRange` at each position. -/
def order (s : RangeSet) (point : UInt64) (i : Nat) : Ordering :=
  (s.ranges[i]?.map (comparePoint point)).getD .gt

theorem order_of_getElem? {i : Nat} {r : Range} (h : s.ranges[i]? = some r) (point : UInt64) :
    s.order point i = comparePoint point r := by
  rw [order, h, Option.map_some, Option.getD_some]

/-- The comparison on numbers. -/
theorem comparePoint_toNat (point : UInt64) (r : Range) : comparePoint point r =
    if point.toNat < r.first then .gt else if r.last < point.toNat then .lt else .eq := by
  simp only [comparePoint, UInt64.lt_iff_toNat_lt]
  rfl

theorem comparePoint_eq_iff {point : UInt64} {r : Range} :
    comparePoint point r = .eq ↔ r.Holds point := by
  rw [comparePoint_toNat, Range.holds_iff]
  split
  · exact iff_of_false (by simp) (by omega)
  · split
    · exact iff_of_false (by simp) (by omega)
    · exact iff_of_true rfl (by omega)

theorem comparePoint_lt_iff {point : UInt64} {r : Range} (hr : r.first ≤ r.last) :
    comparePoint point r = .lt ↔ r.last < point.toNat := by
  rw [comparePoint_toNat]
  split
  · exact iff_of_false (by simp) (by omega)
  · split
    · next hlt => exact iff_of_true rfl hlt
    · next hlt => exact iff_of_false (by simp) hlt

theorem comparePoint_gt_iff {point : UInt64} {r : Range} :
    comparePoint point r = .gt ↔ point.toNat < r.first := by
  rw [comparePoint_toNat]
  split
  · next hlt => exact iff_of_true rfl hlt
  · next hlt => split <;> exact iff_of_false (by simp) hlt

/-- On a normal set the comparisons ascend. -/
theorem Normal.ascending (h : s.Normal) (point : UInt64) :
    Ascending (s.order point) 0 (s.ranges.length - 1) := by
  have hspaced := normal_iff.mp h
  have hread : ∀ i j, i < j → j ≤ s.ranges.length - 1 → ∃ r t, s.ranges[i]? = some r ∧
      s.ranges[j]? = some t ∧ r.last < t.first := by
    intro i j hij hj
    have hi := List.getElem?_eq_getElem (show i < s.ranges.length by omega)
    have hj := List.getElem?_eq_getElem (show j < s.ranges.length by omega)
    exact ⟨_, _, hi, hj, hspaced.separated.stop_lt_start hij hi hj⟩
  refine ⟨fun i j _ hij hj hlt => ?_, fun i j _ hij hj hgt => ?_⟩
  · rcases Nat.eq_or_lt_of_le hij with rfl | hij
    · exact hlt
    · obtain ⟨r, t, hr, ht, hbefore⟩ := hread i j hij hj
      have hrproper := hspaced.proper r (List.mem_of_getElem? hr)
      have htproper := hspaced.proper t (List.mem_of_getElem? ht)
      rw [order_of_getElem? ht, comparePoint_lt_iff htproper] at hlt
      rw [order_of_getElem? hr, comparePoint_lt_iff hrproper]
      omega
  · rcases Nat.eq_or_lt_of_le hij with rfl | hij
    · exact hgt
    · obtain ⟨r, t, hr, ht, hbefore⟩ := hread i j hij hj
      have hrproper := hspaced.proper r (List.mem_of_getElem? hr)
      rw [order_of_getElem? hr, comparePoint_gt_iff] at hgt
      rw [order_of_getElem? ht, comparePoint_gt_iff]
      omega

/-- On a normal set the search finds the position of the one range that holds the block. -/
theorem Normal.containingRange_eq_some (h : s.Normal) {point : UInt64} {i : Nat} :
    s.containingRange point = some i ↔ ∃ r, s.ranges[i]? = some r ∧ r.Holds point := by
  have hsound : ∀ j, s.containingRange point = some j →
      ∃ r, s.ranges[j]? = some r ∧ r.Holds point := by
    intro j hj
    have hok : sliceSearch (s.order point) s.ranges.length = .ok j := by
      change (sliceSearch (s.order point) s.ranges.length).toOption = some j at hj
      cases hsearch : sliceSearch (s.order point) s.ranges.length with
      | error e => simp [hsearch, Except.toOption] at hj
      | ok k => simpa [hsearch, Except.toOption] using hj
    obtain ⟨hlt, heq⟩ := sliceSearch_sound hok
    have hr := List.getElem?_eq_getElem hlt
    rw [order_of_getElem? hr, comparePoint_eq_iff] at heq
    exact ⟨_, hr, heq⟩
  refine ⟨hsound i, ?_⟩
  rintro ⟨r, hr, hholds⟩
  have heq : s.order point i = .eq := by
    rw [order_of_getElem? hr, comparePoint_eq_iff]
    exact hholds
  obtain ⟨j, hj⟩ := sliceSearch_complete (h.ascending point) (List.getElem?_eq_some_iff.mp hr).1 heq
  have hfound : s.containingRange point = some j := by
    change (sliceSearch (s.order point) s.ranges.length).toOption = some j
    rw [hj]
    rfl
  obtain ⟨t, ht, htholds⟩ := hsound j hfound
  rw [hfound, (normal_iff.mp h).separated.unique ht hr (Range.holds_iff.mp htholds)
    (Range.holds_iff.mp hholds)]

theorem Normal.findContainingRange_spec (h : s.Normal) (point : UInt64) :
    ∃ found, s.findContainingRange point = .ok found ∧
      ∀ r, found = some r ↔ r ∈ s.ranges ∧ r.Holds point := by
  cases hfound : s.containingRange point with
  | none =>
    refine ⟨none, by rw [findContainingRange, hfound], fun r => iff_of_false (by simp) ?_⟩
    rintro ⟨hr, hholds⟩
    obtain ⟨i, hi⟩ := List.mem_iff_getElem?.mp hr
    rw [h.containingRange_eq_some.mpr ⟨r, hi, hholds⟩] at hfound
    cases hfound
  | some i =>
    obtain ⟨r, hr, hholds⟩ := h.containingRange_eq_some.mp hfound
    refine ⟨some r, ?_, fun t => ⟨?_, ?_⟩⟩
    · rw [findContainingRange, hfound]
      simp only [Exec.index_eq_ok hr, Exec.ok_map]
    · rintro ⟨⟩
      exact ⟨List.mem_of_getElem? hr, hholds⟩
    · rintro ⟨ht, htholds⟩
      obtain ⟨j, hj⟩ := List.mem_iff_getElem?.mp ht
      have hij : i = j := (normal_iff.mp h).separated.unique hr hj (Range.holds_iff.mp hholds)
        (Range.holds_iff.mp htholds)
      rw [← hij, hr] at hj
      exact hj

theorem Normal.has_iff (h : s.Normal) (point : UInt64) :
    s.has point = true ↔ Covered s.ranges point := by
  rw [has, Option.isSome_iff_exists]
  simp only [h.containingRange_eq_some, Covered, List.mem_iff_getElem?]
  constructor
  · rintro ⟨i, r, hr, hholds⟩
    exact ⟨r, ⟨i, hr⟩, hholds⟩
  · rintro ⟨r, ⟨i, hr⟩, hholds⟩
    exact ⟨i, r, hr, hholds⟩

/-- Looking at one stored range decides whether all blocks of a range are in a normal set. -/
theorem Normal.includes_spec (h : s.Normal) {range : Range} (hrange : range.Proper) :
    ∃ b, s.includes range = .ok b ∧
      (b = true ↔ ∀ point, range.Holds point → Covered s.ranges point) := by
  have hspaced := normal_iff.mp h
  have hall : (∀ point, range.Holds point → Covered s.ranges point) ↔
      ∃ r ∈ s.ranges, r.first ≤ range.first ∧ range.last ≤ r.last := by
    rw [← hspaced.covers_between_iff (Range.proper_iff.mp hrange)]
    constructor
    · intro hcovered x hfirst hlast
      have hx : x < 2 ^ 64 := Nat.lt_of_le_of_lt hlast range.stop.toNat_lt
      have hpoint := hcovered (UInt64.ofNat x)
      rw [Range.holds_iff, covered_iff, UInt64.toNat_ofNat_of_lt' hx] at hpoint
      exact hpoint ⟨hfirst, hlast⟩
    · intro hcovers point hholds
      obtain ⟨hfirst, hlast⟩ := Range.holds_iff.mp hholds
      exact covered_iff.mpr (hcovers point.toNat hfirst hlast)
  obtain ⟨found, hfind, hfound⟩ := h.findContainingRange_spec range.start
  rw [includes, hfind, Exec.ok_bind, hall]
  cases found with
  | none =>
    refine ⟨false, rfl, iff_of_false (by simp) ?_⟩
    rintro ⟨r, hr, hfirst, hlast⟩
    have hproper := Range.proper_iff.mp hrange
    have hholds : r.Holds range.start :=
      Range.holds_iff.mpr ⟨hfirst, Nat.le_trans hproper hlast⟩
    cases (hfound r).mpr ⟨hr, hholds⟩
  | some c =>
    obtain ⟨hc, hholds⟩ := (hfound c).mp rfl
    refine ⟨_, rfl, ?_⟩
    rw [decide_eq_true_eq, ge_iff_le, UInt64.le_iff_toNat_le]
    constructor
    · intro hle
      exact ⟨c, hc, (Range.holds_iff.mp hholds).1, hle⟩
    · rintro ⟨r, hr, hfirst, hlast⟩
      have hproper := Range.proper_iff.mp hrange
      have hrholds : r.Holds range.start :=
        Range.holds_iff.mpr ⟨hfirst, Nat.le_trans hproper hlast⟩
      obtain rfl := Option.some.inj ((hfound r).mpr ⟨hr, hrholds⟩)
      exact hlast

end Queries

/-- Queries on any built set are exact: a block, the one stored range around it, and all blocks of
a range. -/
theorem range_set_queries_exact (profile : Profile) (batches : List (List Range)) (s : RangeSet)
    (hbatches : ∀ iter ∈ batches, ∀ r ∈ iter, r.Bounded) (hs : build profile batches = .ok s) :
    (∀ point, s.has point = true ↔ Covered s.ranges point) ∧
    (∀ point, ∃ found, s.findContainingRange point = .ok found ∧
      (found = none ↔ ¬ Covered s.ranges point) ∧
      ∀ r, found = some r ↔ r ∈ s.ranges ∧ r.Holds point) ∧
    ∀ range, range.Proper → ∃ b, s.includes range = .ok b ∧
      (b = true ↔ ∀ point, range.Holds point → Covered s.ranges point) := by
  obtain ⟨t, ht, hnormal, -, -⟩ := build_spec profile hbatches
  obtain rfl : t = s := Except.ok.inj (ht.symm.trans hs)
  refine ⟨hnormal.has_iff, fun point => ?_, fun range hrange => hnormal.includes_spec hrange⟩
  obtain ⟨found, hfind, hfound⟩ := hnormal.findContainingRange_spec point
  refine ⟨found, hfind, ?_, hfound⟩
  rw [Option.eq_none_iff_forall_ne_some]
  simp only [ne_eq, hfound, Covered, not_exists]

theorem range_set_queries_exact_sample : ∃ s,
    build .debug [[⟨0, 10⟩, ⟨20, 30⟩], [⟨40, 50⟩]] = .ok s ∧
      (s.has 5 = true ↔ Covered s.ranges 5) := by
  have hbatches : ∀ iter ∈ [[(⟨0, 10⟩ : Range), ⟨20, 30⟩], [⟨40, 50⟩]], ∀ r ∈ iter, r.Bounded := by
    decide
  obtain ⟨s, hs, -⟩ := build_spec .debug hbatches
  exact ⟨s, hs, (range_set_queries_exact .debug _ s hbatches hs).1 5⟩

/-- A built set is determined by its blocks. So neither the order of the ranges nor how they are
split over calls matters, and ranges that are already included change nothing. -/
theorem range_set_canonical (profile : Profile) (xs ys : List Range) (hxs : ∀ r ∈ xs, r.Bounded)
    (hys : ∀ r ∈ ys, r.Bounded) :
    ∃ s t, fromIter profile xs = .ok s ∧ fromIter profile ys = .ok t ∧
      (s = t ↔ ∀ point, Covered xs point ↔ Covered ys point) ∧
      (xs.Perm ys → s = t) ∧
      (∀ batches : List (List Range), batches.flatten = xs → build profile batches = .ok s) ∧
      ((∀ r ∈ ys, s.includes r = .ok true) → s.extend profile ys = .ok s) := by
  obtain ⟨s, hs, hsnormal, hsbounded, hscovers⟩ := fromIter_bounded profile hxs
  obtain ⟨t, ht, htnormal, -, htcovers⟩ := fromIter_bounded profile hys
  have hiff : s = t ↔ ∀ point, Covered xs point ↔ Covered ys point := by
    constructor
    · rintro rfl point
      rw [← hscovers, htcovers]
    · intro hsame
      refine hsnormal.ext htnormal fun point => ?_
      rw [hscovers, htcovers, hsame]
  refine ⟨s, t, hs, ht, hiff, fun hperm => ?_, fun batches hflatten => ?_, fun hincluded => ?_⟩
  · refine hiff.mpr fun point => ?_
    simp only [Covered, hperm.mem_iff]
  · have hbatches : ∀ iter ∈ batches, ∀ r ∈ iter, r.Bounded := fun iter hiter r hr =>
      hxs r (hflatten ▸ List.mem_flatten.mpr ⟨iter, hiter, hr⟩)
    obtain ⟨u, hu, hunormal, -, hucovers⟩ := build_spec profile hbatches
    rw [hu]
    refine congrArg Except.ok (hunormal.ext hsnormal fun point => ?_)
    rw [hucovers, hflatten, hscovers]
  · obtain ⟨u, hu, hunormal, -, hucovers⟩ := extend_bounded profile hsbounded hys
    rw [hu]
    refine congrArg Except.ok (hunormal.ext hsnormal fun point => ?_)
    rw [hucovers]
    refine or_iff_left_of_imp ?_
    rintro ⟨r, hr, hholds⟩
    obtain ⟨b, hb, hall⟩ := hsnormal.includes_spec (hys r hr).1
    obtain rfl : true = b := Except.ok.inj ((hincluded r hr).symm.trans hb)
    exact hall.mp rfl point hholds

theorem range_set_canonical_sample : ∃ s t, fromIter .release [⟨0, 10⟩, ⟨11, 30⟩] = .ok s ∧
    fromIter .release [⟨5, 30⟩, ⟨0, 7⟩] = .ok t ∧
    (s = t ↔ ∀ point, Covered [⟨0, 10⟩, ⟨11, 30⟩] point ↔ Covered [⟨5, 30⟩, ⟨0, 7⟩] point) := by
  obtain ⟨s, t, hs, ht, hiff, -⟩ := range_set_canonical .release [⟨0, 10⟩, ⟨11, 30⟩]
    [⟨5, 30⟩, ⟨0, 7⟩] (by decide) (by decide)
  exact ⟨s, t, hs, ht, hiff⟩

/-- A range up to the largest block begins at or after another one, which ends earlier. -/
def OpenAfter (r s : Range) : Prop :=
  r.stop.toNat = 2 ^ 64 - 1 → s.start ≤ r.start ∧ s.stop.toNat ≠ 2 ^ 64 - 1

/-- At most one range goes up to the largest block, and no other range begins after it does. -/
def OpenLast (ranges : List Range) : Prop :=
  ranges.Pairwise fun r s => OpenAfter r s ∧ OpenAfter s r

theorem openLast_perm {xs ys : List Range} (h : xs.Perm ys) : OpenLast xs ↔ OpenLast ys :=
  h.pairwise_iff fun hrs => ⟨hrs.2, hrs.1⟩

/-- In sorted order only the last range may go up to the largest block. -/
theorem openLast_iff_of_sorted {ranges : List Range} (hsorted : ranges.Pairwise Range.le) :
    OpenLast ranges ↔ ∀ r ∈ ranges.dropLast, r.last + 1 < 2 ^ 64 := by
  induction ranges with
  | nil => simp [OpenLast]
  | cons p rest ih =>
    obtain ⟨hfirst, hrest⟩ := List.pairwise_cons.mp hsorted
    have ih := ih hrest
    cases rest with
    | nil => simp [OpenLast]
    | cons c rest =>
      have hsplit : (∀ r ∈ (p :: c :: rest).dropLast, r.last + 1 < 2 ^ 64) ↔
          p.last + 1 < 2 ^ 64 ∧ ∀ r ∈ (c :: rest).dropLast, r.last + 1 < 2 ^ 64 := by
        rw [List.dropLast_cons_cons, List.forall_mem_cons]
      rw [hsplit, OpenLast, List.pairwise_cons, ← OpenLast, ih]
      refine and_congr_left fun _ => ?_
      constructor
      · intro h
        have hle := Range.le_iff.mp (hfirst c List.mem_cons_self)
        have hlt := p.stop.toNat_lt
        by_contra hopen
        obtain ⟨hstart, hstop⟩ := (h c List.mem_cons_self).1
          (show p.last = 2 ^ 64 - 1 by rw [Range.last] at hopen ⊢; omega)
        rw [UInt64.le_iff_toNat_le] at hstart
        simp only [Range.first, Range.last] at hle hopen
        have hclt := c.stop.toNat_lt
        omega
      · intro h r hr
        have hle := Range.le_iff.mp (hfirst r hr)
        refine ⟨fun hopen => ?_, fun _ => ⟨UInt64.le_iff_toNat_le.mpr ?_, ?_⟩⟩ <;>
          simp only [Range.first, Range.last] at hle h <;> omega

theorem mergeStep_debug_overflow {p : Range} (c : Range) (h : ¬ p.last + 1 < 2 ^ 64) :
    mergeStep .debug p c = .error .overflow := by
  rw [mergeStep, Exec.addU64, if_pos ⟨rfl, Nat.not_lt.mp h⟩]
  rfl

/-- A debug build gets through the loop only if no range but the last goes up to the largest
block. -/
theorem last_of_compact_debug {p : Range} {rest : List Range}
    (hproper : ∀ r ∈ p :: rest, r.first ≤ r.last)
    (h : (compact (mergeStep .debug) p rest).Returns) :
    ∀ r ∈ (p :: rest).dropLast, r.last + 1 < 2 ^ 64 := by
  induction rest generalizing p with
  | nil => simp
  | cons c rest ih =>
    obtain ⟨hpproper, htail⟩ := List.forall_mem_cons.mp hproper
    rw [compact] at h
    by_cases hp : p.last + 1 < 2 ^ 64
    · rw [mergeStep_eq .debug c ⟨hpproper, hp⟩, Exec.ok_bind] at h
      rw [List.dropLast_cons_cons, List.forall_mem_cons]
      refine ⟨hp, ?_⟩
      cases hmerge : merge p c with
      | none =>
        rw [hmerge] at h
        exact ih htail h.of_map
      | some q =>
        rw [hmerge] at h
        obtain ⟨-, hqfirst, hqlast⟩ := merge_eq_some.mp hmerge
        obtain ⟨-, hrest⟩ := List.forall_mem_cons.mp htail
        have hq := ih (List.forall_mem_cons.mpr ⟨by omega, hrest⟩) h
        cases rest with
        | nil => simp
        | cons d rest =>
          rw [List.dropLast_cons_cons, List.forall_mem_cons] at hq ⊢
          exact ⟨by omega, hq.2⟩
    · rw [mergeStep_debug_overflow c hp] at h
      obtain ⟨out, hout⟩ := h
      cases hout

/-- Extending does not overflow, and the wrapping result is sorted, disjoint and exact, if and
only if at most one range goes up to the largest block and no other range begins after it. -/
theorem range_set_arithmetic_safe_iff (s : RangeSet) (iter : List Range)
    (hs : ∀ r ∈ s.ranges, r.Proper) (hiter : ∀ r ∈ iter, r.Proper) :
    ((s.extend .debug iter).Returns ∧ ∃ t, s.extend .release iter = .ok t ∧
      (t.ranges.Pairwise fun p c => p.start < c.start) ∧
      (t.ranges.Pairwise fun p c => ∀ point, ¬ (p.Holds point ∧ c.Holds point)) ∧
      ∀ point, Covered t.ranges point ↔ Covered s.ranges point ∨ Covered iter point) ↔
    OpenLast (s.ranges ++ iter) := by
  have hproper : ∀ r ∈ s.ranges ++ iter, r.Proper := by
    intro r hr
    exact (List.mem_append.mp hr).elim (hs r) (hiter r)
  have hperm := List.perm_insertionSort Range.le (s.ranges ++ iter)
  rw [← openLast_perm hperm,
    openLast_iff_of_sorted (List.pairwise_insertionSort Range.le (s.ranges ++ iter))]
  constructor
  · rintro ⟨hreturns, -⟩
    rw [extend_eq] at hreturns
    cases hsort : (s.ranges ++ iter).insertionSort Range.le with
    | nil => simp
    | cons p rest =>
      rw [hsort] at hreturns hperm
      refine last_of_compact_debug (fun r hr => ?_) hreturns.of_map
      exact Range.proper_iff.mp (hproper r (hperm.mem_iff.mp hr))
  · intro hlast
    obtain ⟨hdebug, -, -⟩ := extend_eq_normalize .debug hproper hlast
    obtain ⟨hrelease, hspaced, hcovers⟩ := extend_eq_normalize .release hproper hlast
    have hnormal : Normal ⟨normalize (s.ranges ++ iter)⟩ := normal_iff.mpr hspaced
    refine ⟨⟨_, hdebug⟩, _, hrelease, hnormal.sorted, hnormal.disjoint, fun point => ?_⟩
    rw [covered_iff, hcovers, covers_append, ← covered_iff, ← covered_iff]

theorem range_set_arithmetic_safe_sample :
    (RangeSet.extend .debug ⟨[⟨7, 18446744073709551615⟩]⟩ [⟨0, 9⟩]).Returns :=
  ((range_set_arithmetic_safe_iff ⟨[⟨7, 18446744073709551615⟩]⟩ [⟨0, 9⟩] (by decide)
    (by decide)).mpr (by simp [OpenLast, OpenAfter])).1

/-- Of two accepted ranges the first goes up to the largest block: one more than its end
overflows, and wrapped to zero it keeps the second range apart from the first. -/
theorem range_set_overflows :
    (∀ r ∈ [(⟨0, 18446744073709551615⟩ : Range), ⟨5, 6⟩], r.Proper) ∧
    fromIter .debug [⟨0, 18446744073709551615⟩, ⟨5, 6⟩] = .error .overflow ∧
    ∃ p c, fromIter .release [⟨0, 18446744073709551615⟩, ⟨5, 6⟩] = .ok ⟨[p, c]⟩ ∧
      p.Holds 5 ∧ c.Holds 5 := by
  refine ⟨by decide, by decide +kernel, ⟨0, 18446744073709551615⟩, ⟨5, 6⟩, by decide +kernel, ?_⟩
  exact ⟨⟨by decide, by decide⟩, by decide, by decide⟩

end RangeSet

end SqdNetwork.Messages
