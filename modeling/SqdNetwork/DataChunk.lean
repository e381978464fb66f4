import SqdNetwork.Core.Text
import Mathlib.Data.UInt

/-!
# Validated data chunk identifiers

A chunk id names a top directory, an inclusive block range and a short hash. The
hash is stored as eight bytes padded with NUL. The constructor's checks travel
with the value, so reading the hash back as text cannot fail.
-/

namespace SqdNetwork

open SqdNetwork.Core

/-- Shortest accepted hash. -/
def hashMinLen : Nat := 5

/-- Longest accepted hash, and the width it is stored in. -/
def hashMaxLen : Nat := 8

/-- ASCII letters, digits and the underscore. -/
def isWordByte (b : UInt8) : Bool :=
  (48 ≤ b && b ≤ 57) || (65 ≤ b && b ≤ 90) || (97 ≤ b && b ≤ 122) || b == 95

/-- The bytes before the first NUL, or all of them. -/
def trimNul (bytes : List UInt8) : List UInt8 := bytes.takeWhile (· != 0)

/-- Fill up to the stored width with NUL. -/
def padNul (bytes : List UInt8) : List UInt8 :=
  bytes ++ List.replicate (hashMaxLen - bytes.length) 0

/-- What the constructor leaves in the hash field: 5 to 8 word bytes, then NUL. -/
structure HashField (bytes : List UInt8) : Prop where
  /-- The stored bytes are the trimmed ones, padded. -/
  padded : padNul (trimNul bytes) = bytes
  /-- The trimmed hash is as long as the constructor requires. -/
  length : hashMinLen ≤ (trimNul bytes).length ∧ (trimNul bytes).length ≤ hashMaxLen
  /-- Nothing but word bytes is stored. -/
  word : ∀ b ∈ trimNul bytes, isWordByte b = true

/-- A chunk id that passed `DataChunk.new`. -/
structure DataChunk where
  /-- The top directory. -/
  top : UInt64
  /-- First block covered. -/
  firstBlock : UInt64
  /-- Last block covered. -/
  lastBlock : UInt64
  /-- The hash, padded with NUL. -/
  hash : List UInt8
  /-- The top directory does not lie after the range it holds. -/
  top_le : top ≤ firstBlock
  /-- The range is not reversed. -/
  first_le : firstBlock ≤ lastBlock
  /-- The hash field came from a valid hash. -/
  hashField : HashField hash

theorem isWordByte_ne_zero {b : UInt8} (h : isWordByte b = true) : b ≠ 0 := by
  rintro rfl
  exact absurd h (by decide)

theorem isWordByte_lt {b : UInt8} (h : isWordByte b = true) : b.toNat < 128 := by
  simp only [isWordByte, Bool.or_eq_true, Bool.and_eq_true, decide_eq_true_eq, beq_iff_eq,
    UInt8.le_iff_toNat_le, ← UInt8.toNat_inj] at h
  simp only [UInt8.reduceToNat] at h
  omega

/-- Padding is undone by trimming when no NUL was stored. -/
theorem trimNul_padNul {bytes : List UInt8} (h : ∀ b ∈ bytes, b ≠ 0) :
    trimNul (padNul bytes) = bytes := by
  unfold trimNul padNul
  rw [List.takeWhile_append_of_pos (by simpa using h)]
  have hz : (List.replicate (hashMaxLen - bytes.length) (0 : UInt8)).takeWhile (· != 0) = [] := by
    cases hashMaxLen - bytes.length with
    | zero => rfl
    | succ n => rfl
  rw [hz, List.append_nil]

/-- A valid hash leaves a well-formed field. -/
theorem hashField_padNul {bytes : List UInt8}
    (hl : hashMinLen ≤ bytes.length ∧ bytes.length ≤ hashMaxLen)
    (hw : ∀ b ∈ bytes, isWordByte b = true) : HashField (padNul bytes) := by
  have ht := trimNul_padNul fun b hb => isWordByte_ne_zero (hw b hb)
  exact ⟨by rw [ht], by rw [ht]; exact hl, by rw [ht]; exact hw⟩

/-- The hash check of the constructor, on the bytes of the given text. -/
def validHash (lastHash : String) : Bool :=
  hashMinLen ≤ (asBytes lastHash).length && (asBytes lastHash).length ≤ hashMaxLen &&
    (asBytes lastHash).all isWordByte

theorem validHash_iff {lastHash : String} : validHash lastHash = true ↔
    (hashMinLen ≤ (asBytes lastHash).length ∧ (asBytes lastHash).length ≤ hashMaxLen) ∧
      ∀ b ∈ asBytes lastHash, isWordByte b = true := by
  simp only [validHash, Bool.and_eq_true, decide_eq_true_eq, List.all_eq_true]

/-- The format of `Display`, `{:010}/{:010}-{:010}-{}`, on any numbers and any text. -/
def displayFormat (top firstBlock lastBlock : UInt64) (lastHash : String) : String :=
  zeroPadded 10 top.toNat ++ "/" ++ zeroPadded 10 firstBlock.toNat ++ "-" ++
    zeroPadded 10 lastBlock.toNat ++ "-" ++ lastHash

namespace DataChunk

/-- Absent unless `top ≤ first ≤ last` and the hash is 5 to 8 word characters. -/
def new (top firstBlock lastBlock : UInt64) (lastHash : String) : Option DataChunk :=
  if h : validHash lastHash = true ∧ top ≤ firstBlock ∧ firstBlock ≤ lastBlock then
    some
      { top := top
        firstBlock := firstBlock
        lastBlock := lastBlock
        hash := padNul (asBytes lastHash)
        top_le := h.2.1
        first_le := h.2.2
        hashField := hashField_padNul (validHash_iff.mp h.1).1 (validHash_iff.mp h.1).2 }
  else none

/-- The stored hash is ASCII, hence decodable. -/
theorem fromUtf8_trimNul_isSome (c : DataChunk) : (fromUtf8 (trimNul c.hash)).isSome = true :=
  fromUtf8_isSome_of_ascii fun b hb => isWordByte_lt (c.hashField.word b hb)

/-- The hash as text; decoding cannot fail on a constructed id. -/
def lastHash (c : DataChunk) : String :=
  (fromUtf8 (trimNul c.hash)).get c.fromUtf8_trimNul_isSome

theorem fromUtf8_trimNul (c : DataChunk) : fromUtf8 (trimNul c.hash) = some c.lastHash :=
  (Option.some_get c.fromUtf8_trimNul_isSome).symm

@[simp] theorem asBytes_lastHash (c : DataChunk) : asBytes c.lastHash = trimNul c.hash :=
  asBytes_of_fromUtf8 c.fromUtf8_trimNul

/-- `{:010}/{:010}-{:010}-{}`: the canonical text of the id. -/
protected def toString (c : DataChunk) : String :=
  zeroPadded 10 c.top.toNat ++ "/" ++ zeroPadded 10 c.firstBlock.toNat ++ "-" ++
    zeroPadded 10 c.lastBlock.toNat ++ "-" ++ c.lastHash

instance : ToString DataChunk := ⟨DataChunk.toString⟩

theorem toString_eq_displayFormat (c : DataChunk) :
    c.toString = displayFormat c.top c.firstBlock c.lastBlock c.lastHash := rfl

end DataChunk

end SqdNetwork
