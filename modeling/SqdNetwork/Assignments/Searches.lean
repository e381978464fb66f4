import SqdNetwork.Core.MachineSearch
import SqdNetwork.Assignments.LegacyRouting

/-!
# The reader's three searches

What bisection and the two key searches return, whatever they search. Bisection
needs no monotone predicate for its boundary. The key searches are taken on the
machine integers the reader declares, and end within as many rounds as the vector
has elements.
-/

namespace SqdNetwork.Assignments

open SqdNetwork.Core

/-- For every length and predicate, bisection asks only about indexes below the length and ends
between an index where the predicate holds and one where it does not; on a prefix it ends at its
length. -/
theorem partition_point_boundary (len : Nat) (pred : Nat → Bool) :
    ∃ r probes, (partitionPoint len (noting pred)).run [] = (r, probes) ∧
      (∀ i ∈ probes, i < len) ∧ r ≤ len ∧
      (r = 0 ∨ pred (r - 1) = true) ∧ (r = len ∨ pred r = false) ∧
      ∀ k ≤ len, (∀ i < len, pred i = true ↔ i < k) → r = k := by
  obtain ⟨probes, hrun, hin⟩ := bisect_noting pred 0 len []
  refine ⟨bisectPoint pred 0 len, probes, hrun, fun i hi => (hin i hi).2, ?_, ?_, ?_, ?_⟩
  · exact (bisectPoint_bounds pred (Nat.zero_le len)).2
  · exact bisectPoint_before pred 0 len
  · exact bisectPoint_at pred (Nat.zero_le len)
  · intro k hk hprefix
    exact bisectPoint_prefix hk hprefix

/-- A vector the reader searches. Its length is read from 32 bits and its elements, of at least
two bytes each, lie in one buffer, so twice the length stays within `isize`. -/
structure FbVector (bits : Nat) (α : Type) where
  elems : List α
  fits : 2 * elems.length ≤ 2 ^ bits

section Searches

variable {α : Type} (bits : Nat) (profile : Profile) (fuel : Nat)

/-- `lookup_index_by_key` on `usize`, for so many rounds. -/
def lookupIndexByKeyUsize (v : List α) (f : α → Ordering) : Exec (Option (Option Nat)) :=
  if v.isEmpty then .ok (some none)
  else do
    let right ← Exec.unsigned bits profile (v.length - 1)
    keySearchUsize bits profile (fun i => do .ok (f (← Exec.index v i))) fuel 0 right

/-- `binary_search_by` on `isize`, for so many rounds. -/
def binarySearchByIsize (v : List α) (cmp : α → Ordering) :
    Exec (Option (Except (Option Nat) Nat)) :=
  signedSearchIsize bits profile (fun i => do .ok (cmp (← Exec.index v i))) fuel (-1)
    (Exec.asSigned bits v.length)

variable {bits profile fuel}

/-- Subscripts below the length compare the stored element. -/
theorem compare_index {v : List α} (f : α → Ordering) {i : Nat} (hi : i < v.length) :
    (do .ok (f (← Exec.index v i)) : Exec Ordering) = .ok (keyOrder v f i) := by
  rw [Exec.index_of_lt hi, Exec.ok_bind, keyOrder_of_lt hi]

/-- The lookup on machine integers is the lookup over numbers. -/
theorem lookupIndexByKeyUsize_eq (v : FbVector bits α) (f : α → Ordering)
    (hfuel : v.elems.length < fuel) :
    lookupIndexByKeyUsize bits profile fuel v.elems f =
      some <$> lookupIndexByKey v.elems fun x => .ok (f x) := by
  rw [lookupIndexByKey_eq, lookupIndexByKeyUsize]
  split
  · rfl
  · next hne =>
    have hpos : 0 < v.elems.length := List.length_pos_iff.mpr (by simpa using hne)
    have hfits := v.fits
    have hbits : (2 : Int) ^ (bits + 1) = 2 * (2 ^ bits : Nat) := by
      rw [Int.pow_succ, Int.mul_comm]
      norm_cast
    rw [Exec.unsigned_of_fits (by omega) (by omega), Exec.ok_bind,
      show ((v.elems.length : Int) - 1).toNat = v.elems.length - 1 by omega]
    apply keySearchUsize_eq (by omega) (by omega)
    intro i _ hi
    exact compare_index f (by omega)

/-- The search on machine integers is the search over numbers. -/
theorem binarySearchByIsize_eq (v : FbVector bits α) (cmp : α → Ordering)
    (hfuel : v.elems.length < fuel) :
    binarySearchByIsize bits profile fuel v.elems cmp =
      some <$> binarySearchBy v.elems cmp := by
  have hfits := v.fits
  have hpos : 0 < 2 ^ bits := Nat.two_pow_pos bits
  have hbits : (2 : Int) ^ bits = (2 ^ bits : Nat) := by norm_cast
  rw [(binarySearchBy_spec v.elems cmp).1, binarySearchByIsize,
    Exec.asSigned_of_fits (by omega)]
  apply signedSearchIsize_eq (by omega) (by omega) (by omega) (by omega)
  intro i _ hi
  exact compare_index cmp (by omega)

/-- A vector that compares less, then equal, then greater. -/
structure Segmented (f : α → Ordering) (v less equal greater : List α) : Prop where
  split : v = less ++ equal ++ greater
  less : ∀ x ∈ less, f x = .lt
  equal : ∀ x ∈ equal, f x = .eq
  greater : ∀ x ∈ greater, f x = .gt

variable {f : α → Ordering} {v less equal greater : List α}

/-- The comparisons change where one part ends and the next begins. -/
theorem Segmented.keyOrder_eq (h : Segmented f v less equal greater) (i : Nat) :
    keyOrder v f i = if i < less.length then .lt
      else if i < less.length + equal.length then .eq else .gt := by
  rw [h.split, keyOrder]
  split_ifs with hless hequal
  · rw [List.append_assoc, List.getElem?_append_left hless, List.getElem?_eq_getElem hless]
    exact h.less _ (List.getElem_mem hless)
  · rw [List.append_assoc, List.getElem?_append_right (by omega),
      List.getElem?_append_left (by omega), List.getElem?_eq_getElem (by omega)]
    exact h.equal _ (List.getElem_mem _)
  · rw [List.getElem?_append_right (by simpa using hequal)]
    cases hget : greater[i - (less ++ equal).length]? with
    | none => rfl
    | some x => exact h.greater x (List.mem_of_getElem? hget)

/-- Such comparisons ascend. -/
theorem Segmented.ascending (h : Segmented f v less equal greater) (left right : Nat) :
    Ascending (keyOrder v f) left right := by
  constructor <;>
  · intro i j _ hij _
    rw [h.keyOrder_eq, h.keyOrder_eq]
    split_ifs <;> first | omega | simp

/-- The lookup returns an equal index exactly when there is one. -/
theorem Segmented.lookupIndexByKey (h : Segmented f v less equal greater) {r : Option Nat}
    (hr : lookupIndexByKey v (fun x => .ok (f x)) = .ok r) :
    (∀ i, r = some i → less.length ≤ i ∧ i < less.length + equal.length) ∧
      (r = none ↔ equal = []) := by
  obtain ⟨r', hr', hsound, hcomplete⟩ := lookupIndexByKey_spec v f
  rw [hr] at hr'
  cases hr'
  have hin : ∀ i, r = some i → less.length ≤ i ∧ i < less.length + equal.length := by
    intro i hi
    obtain ⟨x, hx, heq⟩ := hsound i hi
    have horder : keyOrder v f i = .eq := by rw [keyOrder, hx]; exact heq
    rw [h.keyOrder_eq] at horder
    split_ifs at horder
    omega
  refine ⟨hin, fun hnone => ?_, fun hempty => ?_⟩
  · by_contra hne
    obtain ⟨x, hx⟩ := List.exists_mem_of_ne_nil equal hne
    refine hcomplete (h.ascending _ _) hnone x ?_ (h.equal x hx)
    rw [h.split]
    simp [hx]
  · cases r with
    | none => rfl
    | some i =>
      have hi := hin i rfl
      rw [hempty, List.length_nil] at hi
      omega

/-- The search returns an equal index, or the last less one when none is equal. -/
theorem Segmented.binarySearchBy (h : Segmented f v less equal greater)
    {s : Except (Option Nat) Nat} (hs : binarySearchBy v f = .ok s) :
    (equal ≠ [] → ∃ i, s = .ok i ∧ less.length ≤ i ∧ i < less.length + equal.length) ∧
      (equal = [] → s = .error (if less = [] then none else some (less.length - 1))) := by
  obtain ⟨hsearch, hend⟩ := binarySearchBy_spec v f
  rw [hs] at hsearch
  rw [← Except.ok.inj hsearch] at hend
  have hlen : v.length = less.length + equal.length + greater.length := by
    rw [h.split, List.length_append, List.length_append]
  have hequal : equal = [] ↔ equal.length = 0 := List.length_eq_zero_iff.symm
  have hless : less = [] ↔ less.length = 0 := List.length_eq_zero_iff.symm
  match s, hend with
  | .ok i, ⟨hi, heq⟩ =>
    rw [h.keyOrder_eq] at heq
    have hin : less.length ≤ i ∧ i < less.length + equal.length := by
      split_ifs at heq
      omega
    exact ⟨fun _ => ⟨i, rfl, hin⟩, fun hempty => absurd (hequal.mp hempty) (by omega)⟩
  | .error (some i), ⟨hi, hlt, hnext⟩ =>
    rw [h.keyOrder_eq] at hlt hnext
    have hin : i < less.length := by
      split_ifs at hlt
      assumption
    -- right after the last less index comes the end or a greater element, so nothing is equal
    have hlast : i + 1 = less.length ∧ equal.length = 0 := by
      rcases hnext with hnext | hnext
      · omega
      · split_ifs at hnext
        omega
    refine ⟨fun hne => absurd (hequal.mpr hlast.2) hne, fun _ => ?_⟩
    rw [if_neg fun hempty => absurd (hless.mp hempty) (by omega)]
    exact congrArg (Except.error ∘ some) (by omega)
  | .error none, hstart =>
    have hnone : less.length = 0 ∧ equal.length = 0 := by
      rcases hstart with hempty | hgt
      · omega
      · rw [h.keyOrder_eq] at hgt
        split_ifs at hgt
        omega
    refine ⟨fun hne => absurd (hequal.mpr hnone.2) hne, fun _ => ?_⟩
    rw [if_pos (hless.mpr hnone.1)]

end Searches

/-- On every vector and comparison both searches return within one round more than the vector
has elements, without an overflow, an underflow or a subscript out of range. Where the vector
compares less, then equal, then greater, the lookup finds an equal index exactly if there is one,
and the search ends on an equal index, else on the last less one. -/
theorem key_searches_correct (bits : Nat) (profile : Profile) (α : Type) (v : FbVector bits α)
    (f : α → Ordering) :
    ∃ (r : Option Nat) (s : Except (Option Nat) Nat),
      (∀ fuel > v.elems.length,
        lookupIndexByKeyUsize bits profile fuel v.elems f = .ok (some r) ∧
        binarySearchByIsize bits profile fuel v.elems f = .ok (some s)) ∧
      ∀ less equal greater, Segmented f v.elems less equal greater →
        (∀ i, r = some i → less.length ≤ i ∧ i < less.length + equal.length) ∧
        (r = none ↔ equal = []) ∧
        (equal ≠ [] → ∃ i, s = .ok i ∧ less.length ≤ i ∧ i < less.length + equal.length) ∧
        (equal = [] → s = .error (if less = [] then none else some (less.length - 1))) := by
  obtain ⟨r, hr, -⟩ := lookupIndexByKey_spec v.elems f
  obtain ⟨s, hs⟩ : ∃ s, binarySearchBy v.elems f = .ok s := ⟨_, (binarySearchBy_spec v.elems f).1⟩
  refine ⟨r, s, fun fuel hfuel => ⟨?_, ?_⟩, fun less equal greater hseg => ?_⟩
  · rw [lookupIndexByKeyUsize_eq v f hfuel, hr, Exec.ok_map]
  · rw [binarySearchByIsize_eq v f hfuel, hs, Exec.ok_map]
  · obtain ⟨hfound, hnone⟩ := hseg.lookupIndexByKey hr
    exact ⟨hfound, hnone, hseg.binarySearchBy hs⟩

/-- Five odd numbers searched for 6: there is no equal one, and 5 is the last less one. -/
theorem key_searches_correct_sample :
    ∀ fuel > 5,
      lookupIndexByKeyUsize 63 .debug fuel [1, 3, 5, 7, 9] (compare · 6) = .ok (some none) ∧
      binarySearchByIsize 63 .debug fuel [1, 3, 5, 7, 9] (compare · 6) =
        .ok (some (.error (some 2))) := by
  have hsegmented : Segmented (compare · 6) [1, 3, 5, 7, 9] [1, 3, 5] [] [7, 9] :=
    ⟨rfl, by decide, by decide, by decide⟩
  obtain ⟨r, s, hreturns, hfound⟩ :=
    key_searches_correct 63 .debug Nat ⟨[1, 3, 5, 7, 9], by decide⟩ (compare · 6)
  obtain ⟨-, hnone, -, hlast⟩ := hfound [1, 3, 5] [] [7, 9] hsegmented
  obtain rfl := hnone.mpr rfl
  obtain rfl := hlast rfl
  exact hreturns

end SqdNetwork.Assignments
