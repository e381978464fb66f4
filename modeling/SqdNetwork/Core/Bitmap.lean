import Mathlib.Data.Nat.Bitwise
import Mathlib.Tactic.IntervalCases

/-!
# Bitmaps in bytes

A set of small numbers as a list of bytes, eight numbers to a byte, least
significant bit first. Setting a number that the bytes have room for adds it and
nothing else.
-/

namespace SqdNetwork.Core

/-- The byte with one bit set. -/
def bitMask (i : Nat) : UInt8 := (1 : UInt8) <<< UInt8.ofNat (i % 8)

/-- Add a number to a bitmap. -/
def setBit (bits : List UInt8) (i : Nat) : List UInt8 := bits.modify (i / 8) (· ||| bitMask i)

/-- Whether a number is in a bitmap; numbers past its end are not. -/
def testBit (bits : List UInt8) (i : Nat) : Bool :=
  bits[i / 8]?.any fun byte => byte &&& bitMask i != 0

theorem bitMask_toNat (i : Nat) : (bitMask i).toNat = 2 ^ (i % 8) := by
  have h : i % 8 < 8 := Nat.mod_lt i (by decide)
  unfold bitMask
  generalize i % 8 = k at h
  interval_cases k <;> rfl

/-- Masking a byte reads one of its bits. -/
theorem and_bitMask (byte : UInt8) (i : Nat) :
    (byte &&& bitMask i != 0) = byte.toNat.testBit (i % 8) := by
  have hzero : byte &&& bitMask i = 0 ↔ byte.toNat &&& 2 ^ (i % 8) = 0 := by
    rw [← UInt8.toNat_inj, UInt8.toNat_and, bitMask_toNat]
    rfl
  rw [Nat.and_two_pow] at hzero
  cases hbit : byte.toNat.testBit (i % 8) <;> simp [hzero, hbit]

@[simp] theorem length_setBit (bits : List UInt8) (i : Nat) :
    (setBit bits i).length = bits.length := by
  simp [setBit]

/-- A number with room in the bitmap is added, and no other number changes. -/
theorem testBit_setBit {bits : List UInt8} {i : Nat} (hi : i / 8 < bits.length) (j : Nat) :
    testBit (setBit bits i) j = (decide (j = i) || testBit bits j) := by
  unfold testBit setBit
  rw [List.getElem?_modify]
  by_cases hbyte : i / 8 = j / 8
  · have hj : j / 8 < bits.length := hbyte ▸ hi
    have hor : ((bits[j / 8] ||| bitMask i) &&& bitMask j != 0) =
        (decide (j = i) || (bits[j / 8] &&& bitMask j != 0)) := by
      rw [and_bitMask, and_bitMask, UInt8.toNat_or, Nat.testBit_or, bitMask_toNat,
        Nat.testBit_two_pow, Bool.or_comm]
      congr 1
      rw [decide_eq_decide]
      omega
    simpa [hbyte, List.getElem?_eq_getElem hj] using hor
  · have hne : j ≠ i := by
      rintro rfl
      exact hbyte rfl
    simp [hbyte, hne]

/-- A bitmap of zero bytes is empty. -/
theorem testBit_zeros (n j : Nat) : testBit (List.replicate n 0) j = false := by
  unfold testBit
  rw [List.getElem?_replicate]
  split
  · rw [Option.any_some, and_bitMask]
    exact Nat.zero_testBit _
  · rfl

end SqdNetwork.Core
