import Mathlib.Algebra.Order.Ring.Nat
import Mathlib.Data.Int.Init
import SqdNetwork.Core.Bisect
import SqdNetwork.Core.Outcome

/-!
# Key searches on machine integers

The two three-way searches once more, with their bounds in `usize` and `isize`:
every sum, difference and cast is taken in a word of `bits + 1` bits, and a loop
that does not end runs out of fuel. While twice the upper bound stays below the
sign bit no operation leaves its type, so both compute what the searches over
numbers do.
-/

namespace SqdNetwork.Core

variable (bits : Nat) (profile : Profile)

/-- The search between inclusive bounds on `usize`; `none` when the fuel runs out. -/
def keySearchUsize (f : Nat → Exec Ordering) : Nat → Nat → Nat → Exec (Option (Option Nat))
  | 0, _, _ => .ok none
  | fuel + 1, left, right =>
    if left ≤ right then do
      let mid := (← Exec.unsigned bits profile (left + right)) / 2
      match ← f mid with
      | .eq => .ok (some (some mid))
      | .lt => do keySearchUsize f fuel (← Exec.unsigned bits profile (mid + 1)) right
      | .gt =>
        if mid = 0 then .ok (some none)
        else do keySearchUsize f fuel left (← Exec.unsigned bits profile (mid - 1))
    else .ok (some none)

/-- The search between exclusive bounds on `isize`; `none` when the fuel runs out. -/
def signedSearchIsize (f : Nat → Exec Ordering) :
    Nat → Int → Int → Exec (Option (Except (Option Nat) Nat))
  | 0, _, _ => .ok none
  | fuel + 1, left, right => do
    if (← Exec.signed bits profile (left + 1)) < right then do
      let mid := (← Exec.signed bits profile (left + right)).tdiv 2
      match ← f (Exec.asUnsigned bits mid) with
      | .lt => signedSearchIsize f fuel mid right
      | .gt => signedSearchIsize f fuel left mid
      | .eq => .ok (some (.ok (Exec.asUnsigned bits mid)))
    else .ok (some (.error (if left = -1 then none else some (Exec.asUnsigned bits left))))

variable {bits profile}

/-- With bounds below the sign bit and enough fuel, the search on `usize` returns what the search
over numbers returns: no sum, increment or decrement leaves the type. -/
theorem keySearchUsize_eq {f : Nat → Exec Ordering} {g : Nat → Ordering} {left right fuel : Nat}
    (hright : right < 2 ^ bits) (hfuel : right + 1 - left < fuel)
    (h : ∀ i, left ≤ i → i ≤ right → f i = .ok (g i)) :
    keySearchUsize bits profile f fuel left right = .ok (some (keyIndex g left right)) := by
  have hpow : (2 : Int) ^ (bits + 1) = 2 * (2 ^ bits : Nat) := by
    rw [Int.pow_succ, Int.mul_comm]
    norm_cast
  induction fuel generalizing left right with
  | zero => omega
  | succ fuel ih =>
    rw [keySearchUsize, keyIndex]
    by_cases hle : left ≤ right
    · have hmid : (left + right) / 2 ≤ right := by omega
      rw [if_pos hle, if_pos hle, Exec.unsigned_of_fits (by omega) (by omega), Exec.ok_bind]
      rw [show ((left : Int) + right).toNat = left + right by omega]
      dsimp only
      rw [h _ (by omega) hmid, Exec.ok_bind]
      cases g ((left + right) / 2) with
      | eq => rfl
      | lt =>
        dsimp only
        rw [Exec.unsigned_of_fits (by omega) (by omega), Exec.ok_bind]
        exact ih hright (by omega) fun i hi hr => h i (by omega) hr
      | gt =>
        dsimp only
        by_cases hzero : (left + right) / 2 = 0
        · rw [if_pos hzero, if_pos hzero]
        · rw [if_neg hzero, if_neg hzero, Exec.unsigned_of_fits (by omega) (by omega), Exec.ok_bind]
          rw [show (((left + right) / 2 : Nat) - 1 : Int).toNat = (left + right) / 2 - 1 by omega]
          exact ih (by omega) (by omega) fun i hi hr => h i hi (by omega)
    · rw [if_neg hle, if_neg hle]

/-- With bounds from `-1` to half of what the type holds and enough fuel, the search on `isize`
returns what the search over numbers returns, and every cast keeps its value. -/
theorem signedSearchIsize_eq {f : Nat → Exec Ordering} {g : Nat → Ordering} {left right : Int}
    {fuel : Nat} (hleft : -1 ≤ left) (hlt : left < right) (hright : 2 * right ≤ 2 ^ bits)
    (hfuel : (right - left).toNat ≤ fuel)
    (h : ∀ i : Nat, left < (i : Int) → (i : Int) < right → f i = .ok (g i)) :
    signedSearchIsize bits profile f fuel left right =
      .ok (some (signedIndex g left right)) := by
  have hpos : (0 : Int) < 2 ^ bits := Int.pow_pos (by decide)
  have hpow : (2 : Int) ^ (bits + 1) = 2 * 2 ^ bits := by
    rw [Int.pow_succ, Int.mul_comm]
  induction fuel generalizing left right with
  | zero => omega
  | succ fuel ih =>
    rw [signedSearchIsize, signedIndex, Exec.signed_of_fits (by omega) (by omega), Exec.ok_bind]
    by_cases hapart : left + 1 < right
    · have hhalf : (left + right).tdiv 2 = (left + right) / 2 :=
        Int.tdiv_eq_ediv_of_nonneg (by omega)
      have hcast : Exec.asUnsigned bits ((left + right) / 2) = ((left + right) / 2).toNat :=
        Exec.asUnsigned_of_fits (by omega) (by omega)
      rw [if_pos hapart, if_pos hapart, Exec.signed_of_fits (by omega) (by omega), Exec.ok_bind]
      simp only [hhalf, hcast]
      rw [h _ (by omega) (by omega), Exec.ok_bind]
      cases g ((left + right) / 2).toNat with
      | eq => rfl
      | lt => exact ih (by omega) (by omega) hright (by omega) fun i hi hr => h i (by omega) hr
      | gt => exact ih hleft (by omega) (by omega) (by omega) fun i hi hr => h i hi (by omega)
    · rw [if_neg hapart, if_neg hapart]
      by_cases hnone : left = -1
      · rw [if_pos hnone, if_pos hnone]
      · rw [if_neg hnone, if_neg hnone, Exec.asUnsigned_of_fits (by omega) (by omega)]

end SqdNetwork.Core
