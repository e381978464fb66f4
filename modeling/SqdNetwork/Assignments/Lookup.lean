import SqdNetwork.Core.SortedMap
import SqdNetwork.Assignments.Reader

/-!
# Key lookups in a vector

The key search returns on every vector and every comparison, and what it returns
compares equal. On keys that strictly ascend it finds the one element with the
key, whatever its position.
-/

namespace SqdNetwork.Assignments

open SqdNetwork.Core

/-- A bisection whose probes all return stays within the length, and leaves the start behind
when the first probe holds. -/
theorem partitionPoint_returns {len : Nat} {pred : Nat → Exec Bool}
    (h : ∀ i, i < len → (pred i).Returns) :
    ∃ k, partitionPoint len pred = .ok k ∧ k ≤ len ∧ (0 < len → pred 0 = .ok true → 0 < k) := by
  have hpure : partitionPoint len pred =
      .ok (bisectPoint (fun i => (pred i).passes fun b => b) 0 len) := by
    apply bisect_eq_pure
    intro i _ hi
    obtain ⟨b, hb⟩ := h i hi
    rw [hb]
    rfl
  refine ⟨_, hpure, (bisectPoint_bounds _ (Nat.zero_le len)).2, fun hlen h0 => ?_⟩
  exact bisectPoint_pos hlen (by rw [h0]; rfl)

/-- A three-way search returns exactly when every comparison it comes to does. -/
theorem keySearch_returns_iff {f : Nat → Exec Ordering} (left right : Nat) :
    (keySearch f left right).Returns ↔ ∀ i, Probed f left right i → (f i).Returns := by
  by_cases hle : left ≤ right
  · rw [keySearch, if_pos hle]
    cases hf : f ((left + right) / 2) with
    | error p =>
      refine iff_of_false ?_ fun h => ?_
      · rintro ⟨r, hr⟩
        simp [hf] at hr
      · obtain ⟨r, hr⟩ := h _ (.middle hle)
        rw [hf] at hr
        cases hr
    | ok order =>
      have hmid : (f ((left + right) / 2)).Returns := ⟨order, hf⟩
      simp only [hf, Exec.ok_bind]
      cases order with
      | eq =>
        refine iff_of_true ⟨_, rfl⟩ fun i hi => ?_
        cases hi with
        | middle => exact hmid
        | toRight _ hlt => rw [hf] at hlt; cases hlt
        | toLeft _ hgt => rw [hf] at hgt; cases hgt
      | lt =>
        rw [keySearch_returns_iff ((left + right) / 2 + 1) right]
        refine ⟨fun h i hi => ?_, fun h i hi => h i (.toRight hle hf hi)⟩
        cases hi with
        | middle => exact hmid
        | toRight _ _ hi => exact h i hi
        | toLeft _ hgt => rw [hf] at hgt; cases hgt
      | gt =>
        dsimp only
        split
        · next hz =>
          refine iff_of_true ⟨_, rfl⟩ fun i hi => ?_
          cases hi with
          | middle => exact hmid
          | toRight _ hlt => rw [hf] at hlt; cases hlt
          | toLeft _ _ hne => exact absurd hz hne
        · next hne =>
          rw [keySearch_returns_iff left ((left + right) / 2 - 1)]
          refine ⟨fun h i hi => ?_, fun h i hi => h i (.toLeft hle hf hne hi)⟩
          cases hi with
          | middle => exact hmid
          | toRight _ hlt => rw [hf] at hlt; cases hlt
          | toLeft _ _ _ hi => exact h i hi
  · rw [keySearch, if_neg hle]
    refine iff_of_true ⟨_, rfl⟩ fun i hi => ?_
    cases hi <;> contradiction
termination_by right + 1 - left
decreasing_by all_goals omega

/-- An index the search answers with compares equal. -/
theorem keySearch_eq_some {f : Nat → Exec Ordering} {left right i : Nat}
    (h : keySearch f left right = .ok (some i)) : f i = .ok .eq := by
  rw [keySearch] at h
  split at h
  · obtain ⟨order, hf, h⟩ := Exec.bind_eq_ok.mp h
    cases order with
    | eq =>
      cases h
      exact hf
    | lt => exact keySearch_eq_some h
    | gt =>
      dsimp only at h
      split at h
      · cases h
      · exact keySearch_eq_some h
  · cases h
termination_by right + 1 - left
decreasing_by all_goals omega

variable {α : Type}

/-- A position the lookup answers with is inside the vector. -/
theorem index_of_lookupIndexByKey {v : List α} {f : α → Exec Ordering} {i : Nat}
    (h : lookupIndexByKey v f = .ok (some i)) : ∃ x, Exec.index v i = .ok x := by
  unfold lookupIndexByKey at h
  split at h
  · cases h
  · obtain ⟨x, hx, -⟩ := Exec.bind_eq_ok.mp (keySearch_eq_some h)
    exact ⟨x, hx⟩

/-- The comparison results along a vector. -/
def keyOrder (v : List α) (f : α → Ordering) (i : Nat) : Ordering :=
  match v[i]? with
  | some x => f x
  | none => .gt

theorem keyOrder_of_lt {v : List α} {f : α → Ordering} {i : Nat} (hi : i < v.length) :
    keyOrder v f i = f v[i] := by
  rw [keyOrder, List.getElem?_eq_getElem hi]

/-- The search never leaves its bounds. -/
theorem lookupIndexByKey_eq (v : List α) (f : α → Ordering) :
    lookupIndexByKey v (fun x => .ok (f x)) =
      .ok (if v.isEmpty then none else keyIndex (keyOrder v f) 0 (v.length - 1)) := by
  unfold lookupIndexByKey
  split
  · rfl
  · next hne =>
    have hpos : 0 < v.length := List.length_pos_iff.mpr (by simpa using hne)
    apply keySearch_eq_pure
    intro i _ hi
    rw [Exec.index_of_lt (show i < v.length by omega), keyOrder_of_lt (show i < v.length by omega)]
    rfl

/-- Comparisons that agree on the vector's elements find the same position. -/
theorem lookupIndexByKey_congr {v : List α} {f g : α → Exec Ordering} (h : ∀ x ∈ v, f x = g x) :
    lookupIndexByKey v f = lookupIndexByKey v g := by
  have hfun : (fun i => Exec.index v i >>= f) = fun i => Exec.index v i >>= g := by
    funext i
    unfold Exec.index
    cases hget : v[i]? with
    | none => rfl
    | some x => exact h x (List.mem_of_getElem? hget)
  rw [lookupIndexByKey, lookupIndexByKey, hfun]

/-- A position lookup returns; what it returns is a position whose element compares equal, and it
returns nothing only when no element does, provided the comparisons ascend. -/
theorem lookupIndexByKey_spec (v : List α) (f : α → Ordering) :
    ∃ r, lookupIndexByKey v (fun x => .ok (f x)) = .ok r ∧
      (∀ i, r = some i → ∃ x, v[i]? = some x ∧ f x = .eq) ∧
      (Ascending (keyOrder v f) 0 (v.length - 1) → r = none → ∀ x ∈ v, f x ≠ .eq) := by
  rw [lookupIndexByKey_eq]
  refine ⟨_, rfl, fun i hi => ?_, fun hasc hnone x hx heq => ?_⟩
  · split at hi
    · cases hi
    · next hne =>
      obtain ⟨-, hle, heq⟩ := keyIndex_sound hi
      have hpos : 0 < v.length := List.length_pos_iff.mpr (by simpa using hne)
      have hlt : i < v.length := by omega
      exact ⟨v[i], List.getElem?_eq_getElem hlt, (keyOrder_of_lt hlt).symm.trans heq⟩
  · obtain ⟨i, hi, rfl⟩ := List.mem_iff_getElem.mp hx
    rw [if_neg (by simpa using List.ne_nil_of_mem hx)] at hnone
    have hsome := keyIndex_complete hasc (Nat.zero_le i) (by omega)
      ((keyOrder_of_lt hi).trans heq)
    rw [hnone] at hsome
    exact absurd hsome (by simp)

/-- A lookup returns; what it returns is an element that compares equal. -/
theorem lookupByKey_spec (v : List α) (f : α → Ordering) :
    ∃ r, lookupByKey v f = .ok r ∧ ∀ x, r = some x → x ∈ v ∧ f x = .eq := by
  obtain ⟨r, hr, hsound, -⟩ := lookupIndexByKey_spec v f
  rw [lookupByKey, hr, Exec.ok_bind]
  cases r with
  | none => exact ⟨none, rfl, by simp⟩
  | some i =>
    obtain ⟨x, hx, heq⟩ := hsound i rfl
    refine ⟨some x, ?_, ?_⟩
    · dsimp only
      rw [Exec.index_eq_ok hx, Exec.ok_map]
    · rintro y ⟨⟩
      exact ⟨List.mem_of_getElem? hx, heq⟩

/-- Strictly ascending keys compare in ascending order with any key. -/
theorem ascending_keyOrder {K : Type} [Ord K] [Std.TransOrd K] {key : α → K} {v : List α}
    (h : v.Pairwise fun a b => compare (key a) (key b) = .lt) (k : K) :
    Ascending (keyOrder v fun x => compare (key x) k) 0 (v.length - 1) := by
  have hle : ∀ i j (hi : i < v.length) (hj : j < v.length), i ≤ j →
      i = j ∨ compare (key v[i]) (key v[j]) = .lt := by
    intro i j hi hj hij
    rcases Nat.eq_or_lt_of_le hij with he | hlt
    · exact Or.inl he
    · exact Or.inr (List.pairwise_iff_getElem.mp h i j hi hj hlt)
  constructor
  · intro i j _ hij hj hlt
    by_cases hlen : j < v.length
    · rw [keyOrder_of_lt hlen] at hlt
      rw [keyOrder_of_lt (Nat.lt_of_le_of_lt hij hlen)]
      rcases hle i j (Nat.lt_of_le_of_lt hij hlen) hlen hij with rfl | hij
      · exact hlt
      · exact Std.TransCmp.lt_trans hij hlt
    · rw [keyOrder, List.getElem?_eq_none (by omega)] at hlt
      exact Ordering.noConfusion hlt
  · intro i j _ hij hj hgt
    by_cases hlen : j < v.length
    · rw [keyOrder_of_lt (Nat.lt_of_le_of_lt hij hlen)] at hgt
      rw [keyOrder_of_lt hlen]
      rcases hle i j (Nat.lt_of_le_of_lt hij hlen) hlen hij with rfl | hij
      · exact hgt
      · exact Std.TransCmp.gt_trans (Std.OrientedCmp.gt_of_lt hij) hgt
    · rw [keyOrder, List.getElem?_eq_none (by omega)]

/-- On strictly ascending keys a position lookup finds the key's position, or there is none. -/
theorem lookupIndexByKey_of_ascending {K : Type} [Ord K] [Std.TransOrd K] [Std.LawfulEqOrd K]
    {key : α → K} {v : List α} (h : v.Pairwise fun a b => compare (key a) (key b) = .lt) (k : K) :
    (∃ i x, v[i]? = some x ∧ key x = k ∧
      lookupIndexByKey v (fun x => .ok (compare (key x) k)) = .ok (some i)) ∨
    ((∀ x ∈ v, key x ≠ k) ∧
      lookupIndexByKey v (fun x => .ok (compare (key x) k)) = .ok none) := by
  obtain ⟨r, hr, hsound, hcomplete⟩ := lookupIndexByKey_spec v fun x => compare (key x) k
  cases r with
  | none =>
    refine Or.inr ⟨fun x hx he => ?_, hr⟩
    exact hcomplete (ascending_keyOrder h k) rfl x hx (by rw [he]; exact Std.ReflCmp.compare_self)
  | some i =>
    obtain ⟨x, hx, heq⟩ := hsound i rfl
    exact Or.inl ⟨i, x, hx, Std.LawfulEqCmp.eq_of_compare heq, hr⟩

/-- On strictly ascending keys a lookup finds the element with the key, or there is none. -/
theorem lookupByKey_of_ascending {K : Type} [Ord K] [Std.TransOrd K] [Std.LawfulEqOrd K]
    {key : α → K} {v : List α} (h : v.Pairwise fun a b => compare (key a) (key b) = .lt) (k : K) :
    (∃ x ∈ v, key x = k ∧ lookupByKey v (fun x => compare (key x) k) = .ok (some x)) ∨
    ((∀ x ∈ v, key x ≠ k) ∧ lookupByKey v (fun x => compare (key x) k) = .ok none) := by
  unfold lookupByKey
  rcases lookupIndexByKey_of_ascending h k with ⟨i, x, hx, hkey, hr⟩ | ⟨hnone, hr⟩
  · refine Or.inl ⟨x, List.mem_of_getElem? hx, hkey, ?_⟩
    rw [hr, Exec.ok_bind]
    dsimp only
    rw [Exec.index_eq_ok hx, Exec.ok_map]
  · refine Or.inr ⟨hnone, ?_⟩
    rw [hr, Exec.ok_bind]

/-- A key that no element has is not found. -/
theorem lookupByKey_of_not_mem {K : Type} [Ord K] [Std.LawfulEqOrd K] {key : α → K} {v : List α}
    {k : K} (h : ∀ x ∈ v, key x ≠ k) : lookupByKey v (fun x => compare (key x) k) = .ok none := by
  obtain ⟨r, hr, hsound⟩ := lookupByKey_spec v fun x => compare (key x) k
  cases r with
  | none => exact hr
  | some x =>
    obtain ⟨hx, heq⟩ := hsound x rfl
    exact absurd (Std.LawfulEqCmp.eq_of_compare heq) (h x hx)

/-- Strictly ascending keys of a linear order ascend as the lookups compare them. -/
theorem ascending_of_keys {K : Type} [LinearOrder K] {key : α → K} {v : List α} {keys : List K}
    (hkeys : v.map key = keys) (hlt : keys.Pairwise (· < ·)) :
    v.Pairwise fun a b => compare (key a) (key b) = .lt := by
  rw [← hkeys, List.pairwise_map] at hlt
  exact hlt.imp compare_lt_iff_lt.mpr

/-- On strictly ascending keys a lookup finds every element by its key. -/
theorem lookupByKey_of_mem {K : Type} [Ord K] [Std.TransOrd K] [Std.LawfulEqOrd K]
    {key : α → K} {v : List α} (h : v.Pairwise fun a b => compare (key a) (key b) = .lt) {x : α}
    (hx : x ∈ v) : lookupByKey v (fun y => compare (key y) (key x)) = .ok (some x) := by
  rcases lookupByKey_of_ascending h (key x) with ⟨y, hy, hkey, hget⟩ | ⟨hnone, -⟩
  · have hself : compare (key x) (key x) = .eq := Std.ReflCmp.compare_self
    rcases List.mem_iff_getElem.mp hx with ⟨i, hi, rfl⟩
    rcases List.mem_iff_getElem.mp hy with ⟨j, hj, rfl⟩
    have hlt := List.pairwise_iff_getElem.mp h
    rcases Nat.lt_trichotomy i j with hij | rfl | hij
    · exact absurd ((hkey ▸ hlt i j hi hj hij).symm.trans hself) (by decide)
    · exact hget
    · exact absurd ((hkey ▸ hlt j i hj hi hij).symm.trans hself) (by decide)
  · exact absurd rfl (hnone x hx)

/-- A lookup among the entries of a sorted map, stored in key order, is a lookup in the map. -/
theorem lookupByKey_entries {V : Type} (m : SortedMap UInt32 V) (key : α → UInt32)
    (f : UInt32 × V → α) (hkey : ∀ entry, key (f entry) = entry.1) (k : UInt32) :
    lookupByKey (m.entries.map f) (fun x => compare (key x) k) =
      .ok ((m.get? k).map fun value => f (k, value)) := by
  have hsorted : (m.entries.map f).Pairwise fun x y => compare (key x) (key y) = .lt := by
    rw [List.pairwise_map]
    refine m.sorted.imp fun hlt => ?_
    rw [hkey, hkey]
    exact Std.compare_eq_lt.mpr hlt
  rcases lookupByKey_of_ascending hsorted k with ⟨x, hx, hxk, hget⟩ | ⟨hnone, hget⟩
  · obtain ⟨⟨k', value⟩, hmem, rfl⟩ := List.mem_map.mp hx
    rw [hkey] at hxk
    obtain rfl : k' = k := hxk
    rw [hget, SortedMap.get?_eq_some_iff.mpr hmem, Option.map_some]
  · have habsent : m.get? k = none := by
      refine Option.eq_none_iff_forall_ne_some.mpr fun value hvalue => ?_
      exact hnone _ (List.mem_map.mpr ⟨_, SortedMap.get?_eq_some_iff.mp hvalue, rfl⟩) (hkey _)
    rw [hget, habsent, Option.map_none]

/-- A lookup that finds an element did so at one of its positions. -/
theorem keyIndex_of_lookupByKey {v : List α} {f : α → Ordering} {x : α}
    (h : lookupByKey v f = .ok (some x)) :
    ∃ i, v[i]? = some x ∧ keyIndex (keyOrder v f) 0 (v.length - 1) = some i := by
  rw [lookupByKey, lookupIndexByKey_eq, Exec.ok_bind] at h
  split at h
  · exact absurd h (by simp)
  · next i hfound =>
    split at hfound
    · exact absurd hfound (by simp)
    · refine ⟨i, ?_, hfound⟩
      unfold Exec.index at h
      cases hi : v[i]? with
      | none => simp [hi] at h
      | some y => simpa [hi] using h

/-- Elements with distinct keys that are all found by their keys stand in ascending order. -/
theorem ascending_of_lookupByKey {K : Type} [Ord K] [Std.TransOrd K] {key : α → K} {v : List α}
    (hnodup : (v.map key).Nodup)
    (h : ∀ x ∈ v, lookupByKey v (fun y => compare (key y) (key x)) = .ok (some x)) :
    v.Pairwise fun a b => compare (key a) (key b) = .lt := by
  cases v with
  | nil => exact List.Pairwise.nil
  | cons head rest =>
    generalize hv : head :: rest = v at hnodup h ⊢
    have hpos : 0 < v.length := by simp [← hv]
    let keyAt : Nat → K := fun j => v[j]?.elim (key head) key
    have hkeyAt : ∀ j (hj : j < v.length), keyAt j = key v[j] := fun j hj => by
      simp [keyAt, List.getElem?_eq_getElem hj]
    have hfound : ∀ i, 0 ≤ i → i ≤ v.length - 1 →
        keyIndex (fun j => compare (keyAt j) (keyAt i)) 0 (v.length - 1) = some i := by
      intro i _ hi
      have hlt : i < v.length := by omega
      obtain ⟨k, hk, hindex⟩ := keyIndex_of_lookupByKey (h v[i] (List.getElem_mem hlt))
      have hki : k = i := by
        obtain ⟨hklt, hkeq⟩ := List.getElem?_eq_some_iff.mp hk
        refine (List.nodup_iff_injective_getElem.mp hnodup).eq_iff
          (a := ⟨k, by simpa using hklt⟩) (b := ⟨i, by simpa using hlt⟩) |>.mp ?_ |> Fin.mk.inj
        simp [hkeq]
      rw [← hki, ← hindex, hki]
      refine keyIndex_congr 0 _ fun j _ hj => ?_
      rw [keyOrder_of_lt (show j < v.length by omega), hkeyAt j (by omega), hkeyAt i hlt]
    rw [List.pairwise_iff_getElem]
    intro i j hi hj hij
    rw [← hkeyAt i hi, ← hkeyAt j hj]
    exact ascending_of_keyIndex 0 _ hfound i j (Nat.zero_le i) hij (by omega)

/-- With distinct keys, lookups find every element by its key and nothing under another key
exactly when the keys stand in ascending order. -/
theorem lookupByKey_exact_iff {K : Type} [Ord K] [Std.TransOrd K] [Std.LawfulEqOrd K]
    {key : α → K} {v : List α} (hnodup : (v.map key).Nodup) :
    ((∀ x ∈ v, lookupByKey v (fun y => compare (key y) (key x)) = .ok (some x)) ∧
      ∀ k, k ∉ v.map key → lookupByKey v (fun y => compare (key y) k) = .ok none) ↔
    v.Pairwise fun a b => compare (key a) (key b) = .lt := by
  refine ⟨fun h => ascending_of_lookupByKey hnodup h.1, fun h => ⟨fun x hx => ?_, fun k hk => ?_⟩⟩
  · rcases lookupByKey_of_ascending h (key x) with ⟨y, hy, hkey, hget⟩ | ⟨hnone, -⟩
    · obtain rfl := List.inj_on_of_nodup_map hnodup hy hx hkey
      exact hget
    · exact absurd rfl (hnone x hx)
  · rcases lookupByKey_of_ascending h k with ⟨y, hy, hkey, -⟩ | ⟨-, hget⟩
    · exact absurd (List.mem_map.mpr ⟨y, hy, hkey⟩) hk
    · exact hget

end SqdNetwork.Assignments
