import SqdNetwork.Core.Spans
import SqdNetwork.Messages.Signatures
import Mathlib.Data.List.Sort

/-!
# Sets of block ranges

A set of blocks is kept as a vector of ranges. Adding ranges sorts the vector and
merges it in place: a range is merged into the one in hand unless a block is free
between the two. While no range but the last one ends at the largest block, the
result is the normal form of the union; the queries bisect it.
-/

namespace SqdNetwork.Messages

open SqdNetwork.Core

namespace Range

/-- A range from its two ends, which must not be reversed. -/
def new (start stop : UInt64) : Exec Range := do
  Exec.assert "assertion failed: begin <= end" (start ≤ stop)
  .ok ⟨start, stop⟩

/-- The derived order: by the first end, then by the second. -/
def le (a b : Range) : Prop := a.start < b.start ∨ (a.start = b.start ∧ a.stop ≤ b.stop)

instance : DecidableRel le := fun a b =>
  inferInstanceAs (Decidable (a.start < b.start ∨ (a.start = b.start ∧ a.stop ≤ b.stop)))

/-- The first end as a number. -/
def first (r : Range) : Nat := r.start.toNat

/-- The second end as a number. -/
def last (r : Range) : Nat := r.stop.toNat

/-- The block lies in the range. -/
def Holds (r : Range) (point : UInt64) : Prop := r.start ≤ point ∧ point ≤ r.stop

/-- What `new` accepts. -/
def Proper (r : Range) : Prop := r.start ≤ r.stop

/-- A proper range that ends before the largest block. -/
def Bounded (r : Range) : Prop := r.start ≤ r.stop ∧ r.stop.toNat < 2 ^ 64 - 1

instance (r : Range) : Decidable r.Proper := inferInstanceAs (Decidable (r.start ≤ r.stop))

instance (r : Range) : Decidable r.Bounded :=
  inferInstanceAs (Decidable (r.start ≤ r.stop ∧ r.stop.toNat < 2 ^ 64 - 1))

end Range

/-- A set of blocks. -/
structure RangeSet where
  ranges : List Range
  deriving DecidableEq

/-- One of the ranges holds the block. -/
def Covered (ranges : List Range) (point : UInt64) : Prop := ∃ r ∈ ranges, r.Holds point

namespace RangeSet

/-- The set without ranges. -/
def empty : RangeSet := ⟨[]⟩

/-- One pass of the loop in `extend`: the vector with the write cursor, and the read cursor. -/
def extendStep (profile : Profile) (s : List Range × Nat) (i : Nat) : Exec (List Range × Nat) := do
  let c ← Exec.index s.1 i
  let p ← Exec.index s.1 s.2
  let next ← Exec.addU64 profile p.stop 1
  if c.start > next then
    let pi := s.2 + 1
    let ranges ← Exec.setIndex s.1 pi c
    .ok (ranges, pi)
  else
    let merged ← Range.new p.start (max c.stop p.stop)
    let ranges ← Exec.setIndex s.1 s.2 merged
    .ok (ranges, s.2)

/-- Add ranges: append them, sort, merge in place and cut off what is left behind the cursor. -/
def extend (profile : Profile) (s : RangeSet) (iter : List Range) : Exec RangeSet := do
  let ranges := (s.ranges ++ iter).insertionSort Range.le
  let out ← (List.range' 1 (ranges.length - 1)).foldlM (extendStep profile) (ranges, 0)
  .ok ⟨out.1.take (out.2 + 1)⟩

/-- The set of the given ranges. -/
def fromIter (profile : Profile) (iter : List Range) : Exec RangeSet := empty.extend profile iter

/-- How a stored range compares with the ranges that hold the block. -/
def comparePoint (point : UInt64) (r : Range) : Ordering :=
  if point < r.start then .gt else if r.stop < point then .lt else .eq

/-- Position of a range that holds the block. -/
def containingRange (s : RangeSet) (point : UInt64) : Option Nat :=
  (sliceSearch (fun i => (s.ranges[i]?.map (comparePoint point)).getD .gt) s.ranges.length).toOption

/-- Whether the block is in the set. -/
def has (s : RangeSet) (point : UInt64) : Bool := (s.containingRange point).isSome

/-- The stored range that holds the block. -/
def findContainingRange (s : RangeSet) (point : UInt64) : Exec (Option Range) :=
  match s.containingRange point with
  | none => .ok none
  | some i => some <$> Exec.index s.ranges i

/-- Whether one stored range holds all of the range. -/
def includes (s : RangeSet) (range : Range) : Exec Bool := do
  match ← s.findContainingRange range.start with
  | some c => .ok (c.stop ≥ range.stop)
  | none => .ok false

end RangeSet

namespace Range

theorem le_iff {a b : Range} :
    a.le b ↔ a.first < b.first ∨ (a.first = b.first ∧ a.last ≤ b.last) := by
  simp only [le, first, last, UInt64.lt_iff_toNat_lt, UInt64.le_iff_toNat_le, UInt64.toNat_inj]

instance : Std.Total le where
  total a b := by
    simp only [le_iff]
    omega

instance : IsTrans Range le where
  trans a b c := by
    simp only [le_iff]
    omega

theorem ext_of_ends {r s : Range} (hfirst : r.first = s.first) (hlast : r.last = s.last) :
    r = s := by
  obtain ⟨start, stop⟩ := r
  obtain ⟨start', stop'⟩ := s
  obtain rfl := UInt64.toNat_inj.mp hfirst
  obtain rfl := UInt64.toNat_inj.mp hlast
  rfl

theorem proper_iff {r : Range} : r.Proper ↔ r.first ≤ r.last := UInt64.le_iff_toNat_le

theorem holds_iff {r : Range} {point : UInt64} :
    r.Holds point ↔ r.first ≤ point.toNat ∧ point.toNat ≤ r.last := by
  simp only [Holds, UInt64.le_iff_toNat_le, first, last]

theorem new_eq_ok {start stop : UInt64} (h : start ≤ stop) :
    new start stop = .ok ⟨start, stop⟩ := by
  simp [new, Exec.assert, h]

end Range

/-- Points as numbers: a block is covered exactly when its number is. -/
theorem covered_iff {ranges : List Range} {point : UInt64} :
    Covered ranges point ↔ Covers Range.first Range.last ranges point.toNat := by
  simp only [Covered, Covers, Range.holds_iff]

/-- Every covered number is a block. -/
theorem covers_iff_of_covered_iff {xs ys : List Range}
    (h : ∀ point, Covered xs point ↔ Covered ys point) (x : Nat) :
    Covers Range.first Range.last xs x ↔ Covers Range.first Range.last ys x := by
  by_cases hx : x < 2 ^ 64
  · have hpoint := h (UInt64.ofNat x)
    rwa [covered_iff, covered_iff, UInt64.toNat_ofNat_of_lt' hx] at hpoint
  · have hnone : ∀ zs : List Range, ¬ Covers Range.first Range.last zs x := by
      rintro zs ⟨r, -, -, hle⟩
      have hlt := r.stop.toNat_lt
      rw [Range.last] at hle
      omega
    exact iff_of_false (hnone xs) (hnone ys)

namespace RangeSet

/-- What the loop does with the range in hand and the range read. -/
def mergeStep (profile : Profile) (p c : Range) : Exec (Option Range) := do
  let next ← Exec.addU64 profile p.stop 1
  if c.start > next then .ok none
  else some <$> Range.new p.start (max c.stop p.stop)

/-- The same where adding one does not overflow. -/
def merge (p c : Range) : Option Range :=
  if p.last + 1 < c.first then none else some ⟨p.start, max c.stop p.stop⟩

theorem extendStep_eq (profile : Profile) :
    extendStep profile = compactStep (mergeStep profile) := by
  funext s i
  simp only [extendStep, compactStep, mergeStep]
  refine bind_congr fun c => bind_congr fun p => ?_
  cases Exec.addU64 profile p.stop 1 with
  | error panic => rfl
  | ok next =>
    simp only [Exec.ok_bind]
    split
    · rfl
    · cases Range.new p.start (max c.stop p.stop) <;> rfl

/-- Extending collects what the walk over the sorted ranges does. -/
theorem extend_eq (profile : Profile) (s : RangeSet) (iter : List Range) :
    s.extend profile iter = match (s.ranges ++ iter).insertionSort Range.le with
      | [] => .ok ⟨[]⟩
      | p :: rest => RangeSet.mk <$> compact (mergeStep profile) p rest := by
  unfold extend
  cases (s.ranges ++ iter).insertionSort Range.le with
  | nil => rfl
  | cons p rest =>
    simp only [List.length_cons, Nat.add_sub_cancel, extendStep_eq, ← compact_in_place]
    cases (List.range' 1 rest.length).foldlM (compactStep (mergeStep profile)) (p :: rest, 0) <;>
      rfl

/-- Ranges that can be held while another one is read: one more than their end is a block. -/
def Mergeable (r : Range) : Prop := r.first ≤ r.last ∧ r.last + 1 < 2 ^ 64

theorem toNat_add_one {a : UInt64} (h : a.toNat + 1 < 2 ^ 64) : (a + 1).toNat = a.toNat + 1 := by
  rw [UInt64.toNat_add, UInt64.toNat_one, Nat.mod_eq_of_lt h]

/-- With such a range in hand the step returns and decides without wrapping. -/
theorem mergeStep_eq (profile : Profile) {p : Range} (c : Range) (hp : Mergeable p) :
    mergeStep profile p c = .ok (merge p c) := by
  have hadd : Exec.addU64 profile p.stop 1 = .ok (p.stop + 1) :=
    if_neg fun hover => absurd hp.2 (Nat.not_lt.mpr hover.2)
  have happart : c.start > p.stop + 1 ↔ p.last + 1 < c.first := by
    rw [gt_iff_lt, UInt64.lt_iff_toNat_lt, toNat_add_one hp.2]
    rfl
  have hproper : p.start ≤ max c.stop p.stop := by
    rw [UInt64.le_iff_toNat_le, UInt64.toNat_max]
    exact Nat.le_trans hp.1 (Nat.le_max_right _ _)
  rw [mergeStep, hadd, Exec.ok_bind, merge]
  simp only [happart]
  split
  · rfl
  · rw [Range.new_eq_ok hproper]
    rfl

theorem merge_eq_none {p c : Range} : merge p c = none ↔ p.last + 1 < c.first := by
  simp [merge]

theorem merge_eq_some {p c q : Range} : merge p c = some q ↔
    ¬ p.last + 1 < c.first ∧ q.first = p.first ∧ q.last = max p.last c.last := by
  have hlast : Range.last ⟨p.start, max c.stop p.stop⟩ = max p.last c.last :=
    (UInt64.toNat_max c.stop p.stop).trans (Nat.max_comm _ _)
  unfold merge
  split
  · next happart => simp [happart]
  · next htouching =>
    rw [Option.some.injEq]
    constructor
    · rintro rfl
      exact ⟨htouching, rfl, hlast⟩
    · rintro ⟨-, hqfirst, hqlast⟩
      exact Range.ext_of_ends hqfirst.symm (hlast.trans hqlast.symm)

/-- Merging is refused exactly when a block is free between the ranges. -/
theorem merges : Merges Range.first Range.last Mergeable merge where
  apart p c _ h := ⟨p.last + 1, Nat.lt_succ_self _, merge_eq_none.mp h⟩
  touching p c q _ h := by
    rintro ⟨x, hpx, hxc⟩
    exact (merge_eq_some.mp h).1 (by omega)
  start_eq p c q _ h := (merge_eq_some.mp h).2.1
  stop_eq p c q _ h := (merge_eq_some.mp h).2.2
  good p c q hp hc h := by
    obtain ⟨-, hfirst, hlast⟩ := merge_eq_some.mp h
    obtain ⟨hproper, hpfits⟩ := hp
    obtain ⟨-, hcfits⟩ := hc
    refine ⟨?_, ?_⟩ <;> omega

/-- The normal form the loop comes to when it does not overflow. -/
def normalize (ranges : List Range) : List Range :=
  match ranges.insertionSort Range.le with
  | [] => []
  | p :: rest => coalesce merge p rest

/-- If among proper ranges at most the last one in order ends at the largest block, extending
returns the normal form of their union. -/
theorem extend_eq_normalize (profile : Profile) {s : RangeSet} {iter : List Range}
    (hproper : ∀ r ∈ s.ranges ++ iter, r.Proper)
    (hlast : ∀ r ∈ ((s.ranges ++ iter).insertionSort Range.le).dropLast, r.last + 1 < 2 ^ 64) :
    s.extend profile iter = .ok ⟨normalize (s.ranges ++ iter)⟩ ∧
      Spaced Range.first Range.last (normalize (s.ranges ++ iter)) ∧
      ∀ x, Covers Range.first Range.last (normalize (s.ranges ++ iter)) x ↔
        Covers Range.first Range.last (s.ranges ++ iter) x := by
  have hperm := List.perm_insertionSort Range.le (s.ranges ++ iter)
  have hsorted := List.pairwise_insertionSort Range.le (s.ranges ++ iter)
  rw [extend_eq, normalize]
  cases hsort : (s.ranges ++ iter).insertionSort Range.le with
  | nil =>
    rw [hsort] at hperm
    refine ⟨rfl, Spaced.nil, fun x => covers_perm hperm⟩
  | cons p rest =>
    rw [hsort] at hperm hsorted hlast
    have hends : ∀ r ∈ p :: rest, r.first ≤ r.last := fun r hr =>
      Range.proper_iff.mp (hproper r (hperm.mem_iff.mp hr))
    have hgood : ∀ r ∈ (p :: rest).dropLast, Mergeable r := fun r hr =>
      ⟨hends r ((List.dropLast_sublist _).subset hr), hlast r hr⟩
    have hstarts : (p :: rest).Pairwise fun r s => r.first ≤ s.first := by
      refine hsorted.imp fun {r s} h => ?_
      have hle := Range.le_iff.mp h
      omega
    obtain ⟨hspaced, -, hcovers⟩ := merges.coalesce_spec hgood hends hstarts
    refine ⟨?_, hspaced, fun x => (hcovers x).trans (covers_perm hperm)⟩
    simp only [compact_eq_coalesce (fun p c => mergeStep_eq profile c) merges.good hgood,
      Exec.ok_map]

end RangeSet

end SqdNetwork.Messages
