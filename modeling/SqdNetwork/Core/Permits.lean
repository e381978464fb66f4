import Mathlib.Logic.Function.Basic

/-!
# Semaphores by key

A table of counting semaphores, each made when its key is first asked for. The
permits left and the permits held always make up the number a semaphore was made
with.
-/

namespace SqdNetwork.Core

/-- The permits left in the semaphore of each key that has one. -/
structure Permits (K : Type) where
  left : K → Option Nat

namespace Permits

variable {K : Type}

/-- No semaphores. -/
def empty : Permits K := ⟨fun _ => none⟩

/-- The permits left and the permits held make up the limit, and nothing is held of a key
without a semaphore. -/
def Balanced (s : Permits K) (limit : Nat) (held : K → Nat) : Prop :=
  ∀ k, (s.left k).elim (held k = 0) (fun free => free + held k = limit)

theorem Balanced.eq_zero {s : Permits K} {limit : Nat} {held : K → Nat}
    (h : s.Balanced limit held) {k : K} (hk : s.left k = none) : held k = 0 := by
  have hheld := h k
  rw [hk] at hheld
  exact hheld

theorem Balanced.add_eq {s : Permits K} {limit : Nat} {held : K → Nat}
    (h : s.Balanced limit held) {k : K} {free : Nat} (hk : s.left k = some free) :
    free + held k = limit := by
  have hheld := h k
  rw [hk] at hheld
  exact hheld

/-- No more permits are held than the limit. -/
theorem Balanced.held_le {s : Permits K} {limit : Nat} {held : K → Nat}
    (h : s.Balanced limit held) (k : K) : held k ≤ limit := by
  cases hleft : s.left k with
  | none =>
    rw [h.eq_zero hleft]
    exact Nat.zero_le _
  | some free =>
    have hsum := h.add_eq hleft
    omega

theorem balanced_empty (limit : Nat) : (empty : Permits K).Balanced limit fun _ => 0 :=
  fun _ => rfl

variable [DecidableEq K]

/-- Makes the semaphore of a key, if there is none. -/
def ensure (s : Permits K) (k : K) (limit : Nat) : Permits K :=
  ⟨Function.update s.left k (some ((s.left k).getD limit))⟩

/-- Takes a permit, if one is left. -/
def acquire (s : Permits K) (k : K) : Option (Permits K) :=
  match s.left k with
  | some (free + 1) => some ⟨Function.update s.left k (some free)⟩
  | _ => none

/-- Gives a permit back. -/
def release (s : Permits K) (k : K) : Permits K :=
  ⟨Function.update s.left k ((s.left k).map (· + 1))⟩

theorem left_ensure (s : Permits K) (k j : K) (limit : Nat) :
    ((s.ensure k limit).left j = none) ↔ j ≠ k ∧ s.left j = none := by
  by_cases hj : j = k <;> simp [ensure, hj]

theorem left_acquire {s t : Permits K} {k : K} (h : s.acquire k = some t) (j : K) :
    t.left j = none ↔ s.left j = none := by
  unfold acquire at h
  split at h
  · next free hfree =>
    cases h
    by_cases hj : j = k
    · simp [hj, hfree]
    · simp [hj]
  · cases h

theorem left_release (s : Permits K) (k j : K) :
    (s.release k).left j = none ↔ s.left j = none := by
  by_cases hj : j = k <;> simp [release, hj]

theorem Balanced.ensure {s : Permits K} {limit : Nat} {held : K → Nat}
    (h : s.Balanced limit held) (k : K) : (s.ensure k limit).Balanced limit held := by
  intro j
  by_cases hj : j = k
  · subst hj
    cases hleft : s.left j with
    | none => simp [Permits.ensure, hleft, h.eq_zero hleft]
    | some free => simp [Permits.ensure, hleft, h.add_eq hleft]
  · simpa [Permits.ensure, hj] using h j

theorem Balanced.acquire {s t : Permits K} {limit : Nat} {held held' : K → Nat}
    (h : s.Balanced limit held) {k : K} (hacquire : s.acquire k = some t)
    (hk : held' k = held k + 1) (hothers : ∀ j, j ≠ k → held' j = held j) :
    t.Balanced limit held' := by
  unfold Permits.acquire at hacquire
  split at hacquire
  · next free hfree =>
    cases hacquire
    intro j
    by_cases hj : j = k
    · subst hj
      have hsum := h.add_eq hfree
      simp only [Function.update_self, Option.elim]
      omega
    · simpa [hj, hothers j hj] using h j
  · cases hacquire

theorem Balanced.release {s : Permits K} {limit : Nat} {held held' : K → Nat}
    (h : s.Balanced limit held) {k : K} (hk : held k = held' k + 1)
    (hothers : ∀ j, j ≠ k → held' j = held j) : (s.release k).Balanced limit held' := by
  intro j
  by_cases hj : j = k
  · subst hj
    cases hleft : s.left j with
    | none =>
      have hzero := h.eq_zero hleft
      omega
    | some free =>
      have hsum := h.add_eq hleft
      simp only [Permits.release, hleft, Function.update_self, Option.map_some, Option.elim]
      omega
  · simpa [Permits.release, hj, hothers j hj] using h j

end Permits

end SqdNetwork.Core
