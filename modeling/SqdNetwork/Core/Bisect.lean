import Mathlib.Data.List.Basic
import Mathlib.Tactic.Common

/-!
# Bisection over an arbitrary predicate

The halving loop runs its predicate as an effect, so a probe may fail or be
recorded. Its boundary property needs no monotonicity: the answer sits right
after a probe that held and right at a probe that did not. Prefix predicates
then pin the answer to the prefix length. The three-way searches over inclusive
bounds, over exclusive signed bounds and over a window of a slice are treated in the
same way; keys that the first finds all at their own index must ascend.
-/

namespace SqdNetwork.Core

universe u

variable {m : Type → Type u} [Monad m]

/-- Halve `[low, high)` until it is empty, keeping the side that `pred` selects. -/
def bisect (pred : Nat → m Bool) (low high : Nat) : m Nat :=
  if low < high then do
    let mid := low + (high - low) / 2
    if ← pred mid then bisect pred (mid + 1) high else bisect pred low mid
  else pure low
termination_by high - low
decreasing_by all_goals omega

/-- The effect-free instance of the loop. -/
def bisectPoint (p : Nat → Bool) (low high : Nat) : Nat :=
  if low < high then
    let mid := low + (high - low) / 2
    if p mid then bisectPoint p (mid + 1) high else bisectPoint p low mid
  else low
termination_by high - low
decreasing_by all_goals omega

/-- One round of the loop, once the middle is probed. -/
theorem bisect_round [LawfulMonad m] {pred : Nat → m Bool} {low high : Nat} {answer : Bool}
    (hlt : low < high) (hmid : pred (low + (high - low) / 2) = pure answer) :
    bisect pred low high =
      if answer then bisect pred (low + (high - low) / 2 + 1) high
      else bisect pred low (low + (high - low) / 2) := by
  rw [bisect, if_pos hlt]
  simp only [hmid, pure_bind]

/-- Only probes inside the window matter: there the effectful loop computes the
point of any Boolean predicate it agrees with. -/
theorem bisect_eq_pure [LawfulMonad m] {pred : Nat → m Bool} {p : Nat → Bool} (low high : Nat)
    (h : ∀ i, low ≤ i → i < high → pred i = pure (p i)) :
    bisect pred low high = pure (bisectPoint p low high) := by
  fun_induction bisectPoint p low high with
  | case1 low high hlt mid hp ih =>
    rw [bisect_round hlt (h mid (Nat.le_add_right low _) (by omega)), if_pos hp]
    exact ih fun i hi hh => h i (by omega) hh
  | case2 low high hlt mid hp ih =>
    rw [bisect_round hlt (h mid (Nat.le_add_right low _) (by omega)), if_neg hp]
    exact ih fun i hi hh => h i hi (by omega)
  | case3 low high hlt => rw [bisect, if_neg hlt]

/-- A predicate that notes every index it is asked about. -/
def noting (p : Nat → Bool) (i : Nat) : StateM (List Nat) Bool := do
  modify (· ++ [i])
  pure (p i)

/-- The loop asks only about indexes inside its window. -/
theorem bisect_noting (p : Nat → Bool) (low high : Nat) (asked : List Nat) :
    ∃ probes, (bisect (noting p) low high).run asked =
      (bisectPoint p low high, asked ++ probes) ∧ ∀ i ∈ probes, low ≤ i ∧ i < high := by
  fun_induction bisectPoint p low high generalizing asked with
  | case1 low high hlt mid hp ih =>
    obtain ⟨probes, hrun, hin⟩ := ih (asked ++ [mid])
    refine ⟨mid :: probes, ?_, List.forall_mem_cons.mpr ⟨by omega, fun i hi => ?_⟩⟩
    · rw [bisect, if_pos hlt, List.append_cons, ← hrun]
      simp [noting, mid, hp]
    · have hb := hin i hi
      omega
  | case2 low high hlt mid hp ih =>
    obtain ⟨probes, hrun, hin⟩ := ih (asked ++ [mid])
    refine ⟨mid :: probes, ?_, List.forall_mem_cons.mpr ⟨by omega, fun i hi => ?_⟩⟩
    · rw [bisect, if_pos hlt, List.append_cons, ← hrun]
      simp [noting, mid, hp]
    · have hb := hin i hi
      omega
  | case3 low high hlt =>
    refine ⟨[], ?_, fun i hi => absurd hi List.not_mem_nil⟩
    rw [bisect, if_neg hlt, List.append_nil]
    rfl

/-- The point never leaves its window. -/
theorem bisectPoint_bounds (p : Nat → Bool) {low high : Nat} (hle : low ≤ high) :
    low ≤ bisectPoint p low high ∧ bisectPoint p low high ≤ high := by
  fun_induction bisectPoint p low high with
  | case1 low high hlt mid hp ih =>
    have hb := ih (by omega)
    exact ⟨by omega, hb.2⟩
  | case2 low high hlt mid hp ih =>
    have hb := ih (by omega)
    exact ⟨hb.1, by omega⟩
  | case3 low high hlt => exact ⟨Nat.le_refl _, hle⟩

/-- The last index before the point holds, unless the point is the lower bound. -/
theorem bisectPoint_before (p : Nat → Bool) (low high : Nat) :
    bisectPoint p low high = low ∨ p (bisectPoint p low high - 1) = true := by
  fun_induction bisectPoint p low high with
  | case1 low high hlt mid hp ih =>
    rcases ih with he | hb
    · right
      rw [he, Nat.add_sub_cancel]
      exact hp
    · exact Or.inr hb
  | case2 low high hlt mid hp ih => exact ih
  | case3 low high hlt => exact Or.inl rfl

/-- The index at the point fails, unless the point is the upper bound. -/
theorem bisectPoint_at (p : Nat → Bool) {low high : Nat} (hle : low ≤ high) :
    bisectPoint p low high = high ∨ p (bisectPoint p low high) = false := by
  fun_induction bisectPoint p low high with
  | case1 low high hlt mid hp ih => exact ih (by omega)
  | case2 low high hlt mid hp ih =>
    rcases ih (by omega) with he | hb
    · right
      rw [he]
      exact Bool.eq_false_iff.mpr hp
    · exact Or.inr hb
  | case3 low high hlt => exact Or.inl (by omega)

/-- A predicate that holds at the first index never bisects to it. -/
theorem bisectPoint_pos {p : Nat → Bool} {len : Nat} (hlen : 0 < len) (h0 : p 0 = true) :
    0 < bisectPoint p 0 len := by
  rcases bisectPoint_at p (Nat.zero_le len) with he | hf
  · omega
  · by_contra hz
    have he : bisectPoint p 0 len = 0 := by omega
    rw [he, h0] at hf
    exact Bool.noConfusion hf

/-- On a prefix predicate the point is the length of the prefix. -/
theorem bisectPoint_prefix {p : Nat → Bool} {len k : Nat} (hk : k ≤ len)
    (h : ∀ i, i < len → (p i = true ↔ i < k)) : bisectPoint p 0 len = k := by
  have hb := (bisectPoint_bounds p (Nat.zero_le len)).2
  apply Nat.le_antisymm
  · rcases bisectPoint_before p 0 len with he | hp
    · omega
    · by_cases hz : bisectPoint p 0 len = 0
      · omega
      · have hlt := (h _ (by omega)).mp hp
        omega
  · rcases bisectPoint_at p (Nat.zero_le len) with he | hp
    · omega
    · by_contra hlt
      have ht := (h (bisectPoint p 0 len) (by omega)).mpr (by omega)
      rw [ht] at hp
      exact Bool.noConfusion hp

/-- An index lies in the leading block of a list that never resumes exactly when
its element satisfies the block's predicate. -/
theorem lt_length_takeWhile {α : Type*} {q : α → Bool} {l : List α}
    (h : l.Pairwise fun a b => q b = true → q a = true) {i : Nat} (hi : i < l.length) :
    q l[i] = true ↔ i < (l.takeWhile q).length := by
  induction l generalizing i with
  | nil => exact absurd hi (Nat.not_lt_zero i)
  | cons a l ih =>
    obtain ⟨ha, hl⟩ := List.pairwise_cons.mp h
    by_cases hq : q a = true
    · rw [List.takeWhile_cons_of_pos hq]
      cases i with
      | zero => simpa using hq
      | succ i =>
        have hi' : i < l.length := by simpa using hi
        simpa using ih hl hi'
    · rw [List.takeWhile_cons_of_neg hq]
      simp only [List.length_nil, Nat.not_lt_zero, iff_false]
      cases i with
      | zero => simpa using hq
      | succ i =>
        have hi' : i < l.length := by simpa using hi
        intro hqi
        exact hq (ha l[i] (List.getElem_mem hi') (by simpa using hqi))

/-- Bisecting on an element predicate that never resumes measures its leading block. -/
theorem bisectPoint_takeWhile {α : Type*} {q : α → Bool} {l : List α}
    (h : l.Pairwise fun a b => q b = true → q a = true) :
    bisectPoint (fun i => l[i]?.any q) 0 l.length = (l.takeWhile q).length := by
  apply bisectPoint_prefix (List.takeWhile_sublist q).length_le
  intro i hi
  rw [List.getElem?_eq_getElem hi, Option.any_some]
  exact lt_length_takeWhile h hi

/-- Three-way search between inclusive bounds. The lower bound is a natural
number, so a greater element at index zero ends the search on its own. -/
def keySearch (f : Nat → m Ordering) (left right : Nat) : m (Option Nat) :=
  if left ≤ right then do
    let mid := (left + right) / 2
    match ← f mid with
    | .eq => pure (some mid)
    | .lt => keySearch f (mid + 1) right
    | .gt => if mid = 0 then pure none else keySearch f left (mid - 1)
  else pure none
termination_by right + 1 - left
decreasing_by all_goals omega

/-- The indexes the three-way search comes to between its bounds. -/
inductive Probed (f : Nat → m Ordering) : Nat → Nat → Nat → Prop where
  | middle {left right : Nat} : left ≤ right → Probed f left right ((left + right) / 2)
  | toRight {left right i : Nat} : left ≤ right → f ((left + right) / 2) = pure .lt →
      Probed f ((left + right) / 2 + 1) right i → Probed f left right i
  | toLeft {left right i : Nat} : left ≤ right → f ((left + right) / 2) = pure .gt →
      (left + right) / 2 ≠ 0 → Probed f left ((left + right) / 2 - 1) i → Probed f left right i

/-- The search stays within its bounds. -/
theorem Probed.bounds {f : Nat → m Ordering} {left right i : Nat} (h : Probed f left right i) :
    left ≤ i ∧ i ≤ right := by
  induction h with
  | middle hle => omega
  | toRight hle _ _ ih => omega
  | toLeft hle _ _ _ ih => omega

/-- The effect-free instance of the three-way search. -/
def keyIndex (f : Nat → Ordering) (left right : Nat) : Option Nat :=
  if left ≤ right then
    let mid := (left + right) / 2
    match f mid with
    | .eq => some mid
    | .lt => keyIndex f (mid + 1) right
    | .gt => if mid = 0 then none else keyIndex f left (mid - 1)
  else none
termination_by right + 1 - left
decreasing_by all_goals omega

/-- Inside its bounds the effectful search computes the index of any comparison
it agrees with. -/
theorem keySearch_eq_pure [LawfulMonad m] {f : Nat → m Ordering} {g : Nat → Ordering}
    (left right : Nat) (h : ∀ i, left ≤ i → i ≤ right → f i = pure (g i)) :
    keySearch f left right = pure (keyIndex g left right) := by
  fun_induction keyIndex g left right with
  | case1 left right hle mid he =>
    rw [keySearch, if_pos hle]
    simp only [h _ (show left ≤ (left + right) / 2 by omega)
      (show (left + right) / 2 ≤ right by omega), pure_bind]
    rw [he]
  | case2 left right hle mid he ih =>
    rw [keySearch, if_pos hle]
    simp only [h _ (show left ≤ (left + right) / 2 by omega)
      (show (left + right) / 2 ≤ right by omega), pure_bind]
    rw [he]
    exact ih fun i hi hr => h i (by omega) hr
  | case3 left right hle mid he hz =>
    rw [keySearch, if_pos hle]
    simp only [h _ (show left ≤ (left + right) / 2 by omega)
      (show (left + right) / 2 ≤ right by omega), pure_bind]
    rw [he]
    exact if_pos hz
  | case4 left right hle mid he hz ih =>
    rw [keySearch, if_pos hle]
    simp only [h _ (show left ≤ (left + right) / 2 by omega)
      (show (left + right) / 2 ≤ right by omega), pure_bind]
    rw [he]
    exact (if_neg hz).trans (ih fun i hi hr => h i hi (by omega))
  | case5 left right hle => rw [keySearch, if_neg hle]

/-- An answer lies inside the bounds and compares equal. -/
theorem keyIndex_sound {f : Nat → Ordering} {left right i : Nat}
    (h : keyIndex f left right = some i) : left ≤ i ∧ i ≤ right ∧ f i = .eq := by
  fun_induction keyIndex f left right with
  | case1 left right hle mid he =>
    obtain rfl := Option.some.inj h
    exact ⟨by omega, by omega, he⟩
  | case2 left right hle mid he ih =>
    obtain ⟨hl, hr, hi⟩ := ih h
    exact ⟨by omega, hr, hi⟩
  | case3 left right hle mid he hz => exact absurd h (by simp)
  | case4 left right hle mid he hz ih =>
    obtain ⟨hl, hr, hi⟩ := ih h
    exact ⟨hl, by omega, hi⟩
  | case5 left right hle => exact absurd h (by simp)

/-- Comparisons that ascend along the bounds: below a less element all are less,
above a greater element all are greater. -/
structure Ascending (f : Nat → Ordering) (left right : Nat) : Prop where
  /-- Everything before a less element is less. -/
  lt_of_lt : ∀ i j, left ≤ i → i ≤ j → j ≤ right → f j = .lt → f i = .lt
  /-- Everything after a greater element is greater. -/
  gt_of_gt : ∀ i j, left ≤ i → i ≤ j → j ≤ right → f i = .gt → f j = .gt

/-- Narrowing the bounds keeps the comparisons ascending. -/
theorem Ascending.mono {f : Nat → Ordering} {left right left' right' : Nat}
    (h : Ascending f left right) (hl : left ≤ left') (hr : right' ≤ right) :
    Ascending f left' right' :=
  ⟨fun i j hi hij hj => h.lt_of_lt i j (Nat.le_trans hl hi) hij (Nat.le_trans hj hr),
    fun i j hi hij hj => h.gt_of_gt i j (Nat.le_trans hl hi) hij (Nat.le_trans hj hr)⟩

/-- On ascending comparisons an equal element is always found. -/
theorem keyIndex_complete {f : Nat → Ordering} {left right i : Nat}
    (h : Ascending f left right) (hl : left ≤ i) (hr : i ≤ right) (hi : f i = .eq) :
    (keyIndex f left right).isSome = true := by
  fun_induction keyIndex f left right with
  | case1 left right hle mid he => rfl
  | case2 left right hle mid he ih =>
    refine ih (h.mono (by omega) (Nat.le_refl _)) ?_ hr
    by_contra hlt
    have hless := h.lt_of_lt i mid hl (by omega) (by omega) he
    rw [hi] at hless
    exact Ordering.noConfusion hless
  | case3 left right hle mid he hz =>
    have hgt := h.gt_of_gt mid i (by omega) (by omega) hr he
    rw [hi] at hgt
    exact Ordering.noConfusion hgt
  | case4 left right hle mid he hz ih =>
    refine ih (h.mono (Nat.le_refl _) (by omega)) hl ?_
    by_contra hlt
    have hgt := h.gt_of_gt mid i (by omega) (by omega) hr he
    rw [hi] at hgt
    exact Ordering.noConfusion hgt
  | case5 left right hle => omega

/-- Only comparisons inside the bounds matter. -/
theorem keyIndex_congr {f g : Nat → Ordering} (left right : Nat)
    (h : ∀ i, left ≤ i → i ≤ right → f i = g i) :
    keyIndex f left right = keyIndex g left right := by
  have hf := keySearch_eq_pure (m := Option) left right fun i hl hr => congrArg pure (h i hl hr)
  have hg := keySearch_eq_pure (m := Option) (f := pure ∘ f) (g := f) left right fun _ _ _ => rfl
  exact Option.some.inj (hg.symm.trans hf)

/-- An answer off the middle was searched for on its own side. -/
theorem keyIndex_side {f : Nat → Ordering} {left right i : Nat}
    (h : keyIndex f left right = some i) :
    i = (left + right) / 2 ∨
    ((left + right) / 2 < i ∧ f ((left + right) / 2) = .lt ∧
      keyIndex f ((left + right) / 2 + 1) right = some i) ∨
    (i < (left + right) / 2 ∧ f ((left + right) / 2) = .gt ∧
      keyIndex f left ((left + right) / 2 - 1) = some i) := by
  rw [keyIndex] at h
  split at h
  · next hle =>
    cases hf : f ((left + right) / 2) with
    | eq =>
      simp only [hf, Option.some.injEq] at h
      exact Or.inl h.symm
    | lt =>
      simp only [hf] at h
      have hb := keyIndex_sound h
      exact Or.inr (Or.inl ⟨by omega, rfl, h⟩)
    | gt =>
      simp only [hf] at h
      split at h
      · exact absurd h (by simp)
      · next hz =>
        have hb := keyIndex_sound h
        exact Or.inr (Or.inr ⟨by omega, rfl, h⟩)
  · exact absurd h (by simp)

/-- Keys that are each found at their own index strictly ascend: two of them part at the
middle that separates their searches. -/
theorem ascending_of_keyIndex {K : Type*} [Ord K] [Std.TransOrd K] {key : Nat → K}
    (left right : Nat)
    (h : ∀ i, left ≤ i → i ≤ right →
      keyIndex (fun j => compare (key j) (key i)) left right = some i)
    (i j : Nat) (hi : left ≤ i) (hij : i < j) (hj : j ≤ right) :
    compare (key i) (key j) = .lt := by
  have hbelow : ∀ k, left ≤ k → k < (left + right) / 2 →
      compare (key k) (key ((left + right) / 2)) = .lt ∧
      keyIndex (fun j => compare (key j) (key k)) left ((left + right) / 2 - 1) = some k := by
    intro k hk hlt
    rcases keyIndex_side (h k hk (by omega)) with he | ⟨hgt, -⟩ | ⟨-, hcmp, hsub⟩
    · omega
    · omega
    · exact ⟨Std.OrientedCmp.lt_of_gt hcmp, hsub⟩
  have habove : ∀ k, k ≤ right → (left + right) / 2 < k →
      compare (key ((left + right) / 2)) (key k) = .lt ∧
      keyIndex (fun j => compare (key j) (key k)) ((left + right) / 2 + 1) right = some k := by
    intro k hk hlt
    rcases keyIndex_side (h k (by omega) hk) with he | ⟨-, hcmp, hsub⟩ | ⟨hgt, -⟩
    · omega
    · exact ⟨hcmp, hsub⟩
    · omega
  rcases Nat.lt_trichotomy j ((left + right) / 2) with hjm | rfl | hjm
  · exact ascending_of_keyIndex left ((left + right) / 2 - 1)
      (fun k hk hkr => (hbelow k hk (by omega)).2) i j hi hij (by omega)
  · exact (hbelow i hi hij).1
  · rcases Nat.lt_trichotomy i ((left + right) / 2) with him | rfl | him
    · exact Std.TransCmp.lt_trans (hbelow i hi him).1 (habove j hj hjm).1
    · exact (habove j hj hjm).1
    · exact ascending_of_keyIndex ((left + right) / 2 + 1) right
        (fun k hk hkr => (habove k hkr (by omega)).2) i j (by omega) hij hj
termination_by right + 1 - left
decreasing_by all_goals omega

/-- Three-way search between exclusive signed bounds; a miss reports the last index known to be
less. While the bounds are apart their sum is not negative, so halving rounds either way alike. -/
def signedSearch (f : Nat → m Ordering) (left right : Int) : m (Except (Option Nat) Nat) :=
  if left + 1 < right then do
    let mid := (left + right) / 2
    match ← f mid.toNat with
    | .lt => signedSearch f mid right
    | .gt => signedSearch f left mid
    | .eq => pure (.ok mid.toNat)
  else pure (.error (if left = -1 then none else some left.toNat))
termination_by (right - left).toNat
decreasing_by all_goals omega

/-- The effect-free instance of the signed search. -/
def signedIndex (f : Nat → Ordering) (left right : Int) : Except (Option Nat) Nat :=
  if left + 1 < right then
    let mid := (left + right) / 2
    match f mid.toNat with
    | .lt => signedIndex f mid right
    | .gt => signedIndex f left mid
    | .eq => .ok mid.toNat
  else .error (if left = -1 then none else some left.toNat)
termination_by (right - left).toNat
decreasing_by all_goals omega

/-- Between its bounds the effectful search computes the index of any comparison it agrees
with. -/
theorem signedSearch_eq_pure [LawfulMonad m] {f : Nat → m Ordering} {g : Nat → Ordering}
    {left right : Int} (hleft : -1 ≤ left)
    (h : ∀ i : Nat, left < (i : Int) → (i : Int) < right → f i = pure (g i)) :
    signedSearch f left right = pure (signedIndex g left right) := by
  fun_induction signedIndex g left right with
  | case1 left right hlt mid he ih =>
    rw [signedSearch, if_pos hlt]
    simp only [h ((left + right) / 2).toNat (by omega) (by omega), pure_bind]
    rw [he]
    exact ih (by omega) fun i hi hr => h i (by omega) hr
  | case2 left right hlt mid he ih =>
    rw [signedSearch, if_pos hlt]
    simp only [h ((left + right) / 2).toNat (by omega) (by omega), pure_bind]
    rw [he]
    exact ih hleft fun i hi hr => h i hi (by omega)
  | case3 left right hlt mid he =>
    rw [signedSearch, if_pos hlt]
    simp only [h ((left + right) / 2).toNat (by omega) (by omega), pure_bind]
    rw [he]
  | case4 left right hlt => rw [signedSearch, if_neg hlt]

/-- What the signed search ends on, whatever the comparisons: an equal index, a less one right
before a greater one or the end, or a greater one or the end right at the start. -/
def SearchEnd (f : Nat → Ordering) (len : Nat) : Except (Option Nat) Nat → Prop
  | .ok i => i < len ∧ f i = .eq
  | .error (some i) => i < len ∧ f i = .lt ∧ (i + 1 = len ∨ f (i + 1) = .gt)
  | .error none => len = 0 ∨ f 0 = .gt

/-- Bounds that stand right after a less index and at a greater one keep doing so. -/
theorem signedIndex_end {f : Nat → Ordering} {len : Nat} {left right : Int} (hl : -1 ≤ left)
    (hlt : left < right) (hr : right ≤ len) (hleft : left = -1 ∨ f left.toNat = .lt)
    (hright : right = len ∨ f right.toNat = .gt) : SearchEnd f len (signedIndex f left right) := by
  fun_induction signedIndex f left right with
  | case1 left right hapart mid he ih => exact ih (by omega) (by omega) hr (Or.inr he) hright
  | case2 left right hapart mid he ih => exact ih hl (by omega) (by omega) hleft (Or.inr he)
  | case3 left right hapart mid he => exact ⟨by omega, he⟩
  | case4 left right hapart =>
    by_cases hnone : left = -1
    · have hzero : right.toNat = 0 := by omega
      rw [if_pos hnone]
      exact hright.imp (fun he => by omega) fun he => hzero ▸ he
    · have hnext : right.toNat = left.toNat + 1 := by omega
      rw [if_neg hnone]
      exact ⟨by omega, hleft.resolve_left hnone,
        hright.imp (fun he => by omega) fun he => hnext ▸ he⟩

/-- The index a search ends on: the equal one, else the last less one. -/
def foundOrBelow : Except (Option Nat) Nat → Option Nat
  | .ok i => some i
  | .error below => below

/-- Where exactly the leading indexes are not greater, and only the last of them can be equal,
the search ends on the last of them. -/
theorem SearchEnd.foundOrBelow_eq {f : Nat → Ordering} {len k : Nat}
    {r : Except (Option Nat) Nat} (h : SearchEnd f len r) (hk : k ≤ len)
    (hlead : ∀ i < len, f i ≠ .gt ↔ i < k) (heq : ∀ i < len, f i = .eq → i + 1 = k) :
    foundOrBelow r = if k = 0 then none else some (k - 1) := by
  match r, h with
  | .ok i, ⟨hi, he⟩ =>
    have hki := heq i hi he
    rw [if_neg (by omega), foundOrBelow]
    exact congrArg some (by omega)
  | .error (some i), ⟨hi, hlt, hnext⟩ =>
    have hik := (hlead i hi).mp (by rw [hlt]; decide)
    have hki : k = i + 1 := by
      by_contra hne
      rcases hnext with he | hgt
      · omega
      · exact absurd hgt ((hlead (i + 1) (by omega)).mpr (by omega))
    rw [if_neg (by omega), foundOrBelow]
    exact congrArg some (by omega)
  | .error none, h =>
    have hzero : k = 0 := by
      by_contra hne
      rcases h with he | hgt
      · omega
      · exact absurd hgt ((hlead 0 (by omega)).mpr (by omega))
    rw [if_pos hzero]
    rfl

/-- Where the equal indexes come first and greater ones follow, the search ends on the first of
the halved lengths that lies among the equal ones. -/
theorem signedIndex_leading_eq {f : Nat → Ordering} {z len : Nat} (hz : 0 < z) (hlen : z ≤ len)
    (heq : ∀ i < z, f i = .eq) (hgt : ∀ i, z ≤ i → i < len → f i = .gt) :
    ∃ k, (len + 1) >>> (k + 1) ≤ z ∧ z < (len + 1) >>> k ∧
      signedIndex f (-1) len = .ok ((len + 1) >>> (k + 1) - 1) := by
  induction len using Nat.strongRecOn with
  | ind len ih =>
    obtain ⟨mid, hmid⟩ : ∃ mid : Nat, (-1 + (len : Int)) / 2 = mid := ⟨(len - 1) / 2, by omega⟩
    have hhalf : (len + 1) / 2 = mid + 1 := by omega
    rw [signedIndex, if_pos (by omega)]
    simp only [hmid, Int.toNat_natCast]
    by_cases hfound : mid < z
    · refine ⟨0, ?_, ?_, ?_⟩
      · rw [Nat.shiftRight_succ, Nat.shiftRight_zero]
        omega
      · rw [Nat.shiftRight_zero]
        omega
      · rw [heq mid hfound, Nat.shiftRight_succ, Nat.shiftRight_zero, hhalf, Nat.add_sub_cancel]
    · obtain ⟨k, hle, hlt, hsearch⟩ := ih mid (by omega) (by omega)
        fun i hi hmid => hgt i hi (by omega)
      rw [← hhalf, ← Nat.shiftRight_succ_inside] at hle hlt hsearch
      refine ⟨k + 1, hle, hlt, ?_⟩
      rw [hgt mid (by omega) (by omega)]
      exact hsearch

/-- Only one of the halved lengths is the first at most a number. -/
theorem halving_unique {n z j k : Nat} (hj : n >>> (j + 1) ≤ z) (hj' : z < n >>> j)
    (hk : n >>> (k + 1) ≤ z) (hk' : z < n >>> k) : j = k := by
  have hmono : ∀ {a b : Nat}, a ≤ b → n >>> b ≤ n >>> a := by
    intro a b hab
    obtain ⟨d, rfl⟩ := Nat.exists_eq_add_of_le hab
    rw [Nat.shiftRight_add]
    exact Nat.shiftRight_le _ _
  rcases Nat.lt_trichotomy j k with hlt | heq | hlt
  · have hle : n >>> k ≤ n >>> (j + 1) := hmono hlt
    omega
  · exact heq
  · have hle : n >>> j ≤ n >>> (k + 1) := hmono hlt
    omega

/-- The loop of `slice::binary_search_by`: halve the window, keeping its lower part only if the
middle is greater. It does not stop at an equal element. -/
def sliceBase (f : Nat → Ordering) (base size : Nat) : Nat :=
  if 1 < size then
    let half := size / 2
    let mid := base + half
    if f mid = .gt then sliceBase f base (size - half) else sliceBase f mid (size - half)
  else base
termination_by size
decreasing_by all_goals omega

/-- `slice::binary_search_by` over comparisons of the elements: an equal index, else where an
equal element could be inserted. -/
def sliceSearch (f : Nat → Ordering) (len : Nat) : Except Nat Nat :=
  if len = 0 then .error 0
  else
    let base := sliceBase f 0 len
    match f base with
    | .eq => .ok base
    | .lt => .error (base + 1)
    | .gt => .error base

/-- The window stays inside the slice. -/
theorem sliceBase_lt {f : Nat → Ordering} {len base size : Nat} (hsize : 0 < size)
    (hle : base + size ≤ len) : sliceBase f base size < len := by
  fun_induction sliceBase f base size with
  | case1 base size hlt half mid hgt ih => exact ih (by omega) (by omega)
  | case2 base size hlt half mid hgt ih => exact ih (by omega) (by omega)
  | case3 base size hlt => omega

/-- An answer compares equal. -/
theorem sliceSearch_sound {f : Nat → Ordering} {len i : Nat} (h : sliceSearch f len = .ok i) :
    i < len ∧ f i = .eq := by
  unfold sliceSearch at h
  split at h
  · exact absurd h (by simp)
  · next hlen =>
    have hlt : sliceBase f 0 len < len := sliceBase_lt (by omega) (by omega)
    dsimp only at h
    split at h
    · next heq => exact Except.ok.inj h ▸ ⟨hlt, heq⟩
    · exact absurd h (by simp)
    · exact absurd h (by simp)

/-- On ascending comparisons the window ends on an index past which all are greater, and which is
not greater itself unless it is the first. -/
theorem sliceBase_end {f : Nat → Ordering} {len base size : Nat} (hasc : Ascending f 0 (len - 1))
    (hle : base + size ≤ len) (hsize : 0 < size) (hlow : base = 0 ∨ f base ≠ .gt)
    (hhigh : ∀ i, base + size ≤ i → i < len → f i = .gt) :
    (sliceBase f base size = 0 ∨ f (sliceBase f base size) ≠ .gt) ∧
      ∀ i, sliceBase f base size < i → i < len → f i = .gt := by
  fun_induction sliceBase f base size with
  | case1 base size hlt half mid hgt ih =>
    refine ih (by omega) (by omega) hlow fun i hi hlen => ?_
    exact hasc.gt_of_gt mid i (Nat.zero_le _) (by omega) (by omega) hgt
  | case2 base size hlt half mid hgt ih =>
    exact ih (by omega) (by omega) (Or.inr hgt) fun i hi hlen => hhigh i (by omega) hlen
  | case3 base size hlt => exact ⟨hlow, fun i hi hlen => hhigh i (by omega) hlen⟩

/-- On ascending comparisons an equal element is always found. -/
theorem sliceSearch_complete {f : Nat → Ordering} {len i : Nat} (hasc : Ascending f 0 (len - 1))
    (hi : i < len) (he : f i = .eq) : ∃ j, sliceSearch f len = .ok j := by
  obtain ⟨hlow, hhigh⟩ : (sliceBase f 0 len = 0 ∨ f (sliceBase f 0 len) ≠ .gt) ∧
      ∀ i, sliceBase f 0 len < i → i < len → f i = .gt :=
    sliceBase_end hasc (by omega) (by omega) (Or.inl rfl) fun j hj hlen => absurd hlen (by omega)
  have hlt : sliceBase f 0 len < len := sliceBase_lt (by omega) (by omega)
  have hbase : i ≤ sliceBase f 0 len := by
    by_contra hbeyond
    have hgt := hhigh i (by omega) hi
    rw [he] at hgt
    exact Ordering.noConfusion hgt
  refine ⟨sliceBase f 0 len, ?_⟩
  rw [sliceSearch, if_neg (by omega)]
  cases hcmp : f (sliceBase f 0 len) with
  | eq => simp only [hcmp]
  | lt =>
    have hless := hasc.lt_of_lt i _ (Nat.zero_le _) hbase (by omega) hcmp
    rw [he] at hless
    exact Ordering.noConfusion hless
  | gt =>
    have hzero := hlow.resolve_right (not_not_intro hcmp)
    have hfirst : i = sliceBase f 0 len := by omega
    rw [← hfirst, he] at hcmp
    exact Ordering.noConfusion hcmp

end SqdNetwork.Core
