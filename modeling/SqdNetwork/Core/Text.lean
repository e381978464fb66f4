import Mathlib.Algebra.Order.Ring.Nat
import Mathlib.Data.List.Basic
import Mathlib.Data.Nat.Basic
import Mathlib.Tactic.Common

/-!
# Text, its UTF-8 bytes and padded decimals

A text and its bytes determine each other. Zero-padded decimals are described
twice: as the usual digits padded on the left, and as a fixed number of digit
bytes written from the right; below the width the two agree.
-/

namespace SqdNetwork.Core

/-- The UTF-8 bytes of a text. -/
def asBytes (s : String) : List UInt8 := s.toByteArray.data.toList

/-- Decoding, absent when the bytes are not UTF-8. -/
def fromUtf8 (bytes : List UInt8) : Option String := String.fromUTF8? ⟨bytes.toArray⟩

/-- Decoding the bytes of a text gives the text back. -/
@[simp] theorem fromUtf8_asBytes (s : String) : fromUtf8 (asBytes s) = some s := by
  have he : (⟨(asBytes s).toArray⟩ : ByteArray) = s.toByteArray := by simp [asBytes]
  simp only [fromUtf8, he, String.fromUTF8?, s.isValidUTF8, dite_true]
  rfl

/-- A decoded text has exactly the bytes it was decoded from. -/
theorem asBytes_of_fromUtf8 {bytes : List UInt8} {s : String} (h : fromUtf8 bytes = some s) :
    asBytes s = bytes := by
  unfold fromUtf8 String.fromUTF8? at h
  split at h
  · rw [← Option.some.inj h]
    simp [asBytes, String.fromUTF8]
  · exact absurd h (by simp)

theorem asBytes_injective : Function.Injective asBytes := by
  intro s t h
  have ht := fromUtf8_asBytes t
  rw [← h, fromUtf8_asBytes] at ht
  exact Option.some.inj ht

theorem asBytes_append (s t : String) : asBytes (s ++ t) = asBytes s ++ asBytes t := by
  simp [asBytes]

/-- An ASCII text is stored one byte a character. -/
theorem asBytes_ofList_ascii (cs : List Char) (h : ∀ c ∈ cs, c.toNat < 128) :
    asBytes (String.ofList cs) = cs.map Char.toUInt8 := by
  induction cs with
  | nil => rfl
  | cons c cs ih =>
    have hc : String.utf8EncodeChar c = [c.toUInt8] := by
      have hlt := h c List.mem_cons_self
      have hs : c.utf8Size = 1 := by
        rw [Char.utf8Size_eq_one_iff]
        exact UInt32.le_iff_toNat_le.mpr (by simpa using Nat.le_of_lt_succ hlt)
      rw [String.utf8EncodeChar_eq_singleton hs]
      rfl
    have hrest := ih fun d hd => h d (List.mem_cons_of_mem _ hd)
    have hcons : (String.ofList (c :: cs)).toByteArray =
        [c].utf8Encode ++ (String.ofList cs).toByteArray := by
      rw [String.toByteArray_ofList, String.toByteArray_ofList, List.utf8Encode_cons]
    unfold asBytes at hrest ⊢
    rw [hcons, List.utf8Encode_singleton, hc, ByteArray.data_append, Array.toList_append, hrest]
    simp

theorem ascii_ofNat {n : Nat} (h : n < 128) :
    (Char.ofNat n).toNat < 128 ∧ (Char.ofNat n).toUInt8 = UInt8.ofNat n := by
  revert n
  decide

/-- The text of ASCII bytes, one character each. -/
def asciiText (bytes : List UInt8) : String := String.ofList (bytes.map fun b => Char.ofNat b.toNat)

theorem asciiText_ascii {bytes : List UInt8} (h : ∀ b ∈ bytes, b.toNat < 128) :
    ∀ c ∈ (asciiText bytes).toList, c.toNat < 128 := by
  rw [asciiText, String.toList_ofList]
  intro c hc
  obtain ⟨b, hb, rfl⟩ := List.mem_map.mp hc
  exact (ascii_ofNat (h b hb)).1

theorem asBytes_asciiText {bytes : List UInt8} (h : ∀ b ∈ bytes, b.toNat < 128) :
    asBytes (asciiText bytes) = bytes := by
  have hascii := asciiText_ascii h
  rw [asciiText, String.toList_ofList] at hascii
  rw [asciiText, asBytes_ofList_ascii _ hascii, List.map_map]
  conv_rhs => rw [← List.map_id bytes]
  apply List.map_congr_left
  intro b hb
  exact (ascii_ofNat (h b hb)).2.trans UInt8.ofNat_toNat

/-- ASCII bytes are always decodable. -/
theorem fromUtf8_isSome_of_ascii {bytes : List UInt8} (h : ∀ b ∈ bytes, b.toNat < 128) :
    (fromUtf8 bytes).isSome = true := by
  rw [← asBytes_asciiText h, fromUtf8_asBytes]
  rfl

/-- A text whose bytes are ASCII has only ASCII characters. -/
theorem ascii_of_asBytes {s : String} (h : ∀ b ∈ asBytes s, b.toNat < 128) :
    ∀ c ∈ s.toList, c.toNat < 128 := by
  have hs : asciiText (asBytes s) = s := asBytes_injective (asBytes_asciiText h)
  rw [← hs]
  exact asciiText_ascii h

/-- A text of ASCII characters has one byte for each. -/
theorem asBytes_of_ascii {s : String} (h : ∀ c ∈ s.toList, c.toNat < 128) :
    asBytes s = s.toList.map Char.toUInt8 := by
  rw [← asBytes_ofList_ascii _ h, String.ofList_toList]

/-- The decimal text of a number, padded with zeros on the left to `width` digits. -/
def zeroPadded (width n : Nat) : String :=
  String.ofList ((Nat.toDigits 10 n).leftpad width '0')

/-- The ASCII byte of a decimal digit. -/
def digitByte (d : Nat) : UInt8 := 48 + UInt8.ofNat d

/-- The `width` lowest decimal digits as bytes, most significant first. -/
def fixedDigits : Nat → Nat → List UInt8
  | 0, _ => []
  | width + 1, n => fixedDigits width (n / 10) ++ [digitByte (n % 10)]

theorem fixedDigits_zero (width : Nat) : fixedDigits width 0 = List.replicate width 48 := by
  induction width with
  | zero => rfl
  | succ width ih =>
    rw [fixedDigits, Nat.zero_div, ih, List.replicate_succ']
    rfl

theorem digitChar_toUInt8 {d : Nat} (h : d < 10) : (Nat.digitChar d).toUInt8 = digitByte d := by
  revert d
  decide

theorem ascii_of_isDigit {c : Char} (h : c.isDigit = true) : c.toNat < 128 := by
  have hle := UInt32.le_iff_toNat_le.mp (of_decide_eq_true (Bool.and_eq_true_iff.mp h).2)
  exact Nat.lt_of_le_of_lt hle (by decide)

/-- A padded decimal has no characters but digits. -/
theorem isDigit_of_mem_zeroPadded {width n : Nat} {c : Char}
    (h : c ∈ (zeroPadded width n).toList) : c.isDigit = true := by
  rw [zeroPadded, String.toList_ofList] at h
  rcases List.mem_append.mp h with h | h
  · rw [List.eq_of_mem_replicate h]
    decide
  · exact Nat.isDigit_of_mem_toDigits (by decide) (by decide) h

theorem asBytes_zeroPadded (width n : Nat) :
    asBytes (zeroPadded width n) = (zeroPadded width n).toList.map Char.toUInt8 :=
  asBytes_of_ascii fun _ hc => ascii_of_isDigit (isDigit_of_mem_zeroPadded hc)

/-- A number that fits the width has its padded digits in the fixed positions. -/
theorem toDigits_leftpad_bytes {width n : Nat} (hw : 0 < width) (hn : n < 10 ^ width) :
    ((Nat.toDigits 10 n).leftpad width '0').map Char.toUInt8 = fixedDigits width n := by
  induction width generalizing n with
  | zero => exact absurd hw (Nat.lt_irrefl 0)
  | succ width ih =>
    by_cases hs : n < 10
    · rw [Nat.toDigits_of_lt_base hs, fixedDigits, Nat.div_eq_of_lt hs, Nat.mod_eq_of_lt hs,
        fixedDigits_zero]
      simp only [List.leftpad, List.length_singleton, Nat.add_sub_cancel, List.map_append,
        List.map_replicate, List.map_cons, List.map_nil, digitChar_toUInt8 hs]
      rfl
    · have hwidth : 0 < width := by
        by_contra hz
        have he : width = 0 := by omega
        subst he
        exact hs (by simpa using hn)
      have hdiv : n / 10 < 10 ^ width := by
        rw [Nat.div_lt_iff_lt_mul (by decide), ← Nat.pow_succ]
        exact hn
      have hmod := digitChar_toUInt8 (Nat.mod_lt n (show 0 < 10 by decide))
      rw [Nat.toDigits_of_base_le (by decide) (by omega), fixedDigits, ← ih hwidth hdiv]
      simp only [List.leftpad, List.length_append, List.length_singleton, Nat.reduceSubDiff,
        List.map_append, List.map_cons, List.map_nil, hmod, List.append_assoc]

/-- The fixed digit bytes of a number that fits decode to its padded decimal. -/
theorem fromUtf8_fixedDigits {width n : Nat} (hw : 0 < width) (hn : n < 10 ^ width) :
    fromUtf8 (fixedDigits width n) = some (zeroPadded width n) := by
  have hbytes : asBytes (zeroPadded width n) = fixedDigits width n := by
    rw [asBytes_zeroPadded, zeroPadded, String.toList_ofList, toDigits_leftpad_bytes hw hn]
  rw [← hbytes, fromUtf8_asBytes]

/-- Padding leaves a number that is already as wide as the field alone. -/
theorem zeroPadded_of_le {width n : Nat} (h : 10 ^ width ≤ n) : zeroPadded width n = n.repr := by
  have hlen : width ≤ (Nat.toDigits 10 n).length := by
    by_contra hlt
    have hfit : (Nat.toDigits 10 n).length ≤ width := by omega
    have hl := (Nat.length_toDigits_le_iff (by decide) (by omega)).mp hfit
    omega
  rw [zeroPadded, List.leftpad, Nat.sub_eq_zero_of_le hlen]
  exact (Nat.repr_eq_ofList_toDigits).symm

theorem length_asBytes_zeroPadded (width n : Nat) :
    (asBytes (zeroPadded width n)).length = max width (Nat.toDigits 10 n).length := by
  rw [asBytes_zeroPadded, List.length_map, zeroPadded, String.toList_ofList, List.length_leftpad]

/-- A padded decimal is as wide as the field exactly if the number fits. -/
theorem length_asBytes_zeroPadded_iff {width n : Nat} (hw : 0 < width) :
    (asBytes (zeroPadded width n)).length = width ↔ n < 10 ^ width := by
  rw [← Nat.length_toDigits_le_iff (by decide) hw, length_asBytes_zeroPadded]
  omega

theorem toNat_toUInt8_of_ascii {c : Char} (h : c.toNat < 128) : c.toUInt8.toNat = c.toNat := by
  rw [Char.toUInt8, UInt32.toNat_toUInt8]
  exact Nat.mod_eq_of_lt (Nat.lt_trans h (by decide))

/-- A character of one byte that is no digit occurs in no padded decimal. -/
theorem not_mem_asBytes_zeroPadded {sep : Char} (hascii : sep.toNat < 128)
    (hsep : sep.isDigit = false) (width n : Nat) :
    sep.toUInt8 ∉ asBytes (zeroPadded width n) := by
  rw [asBytes_zeroPadded]
  intro hmem
  obtain ⟨c, hc, hbyte⟩ := List.mem_map.mp hmem
  have hdigit := isDigit_of_mem_zeroPadded hc
  have hnat := congrArg UInt8.toNat hbyte
  rw [toNat_toUInt8_of_ascii (ascii_of_isDigit hdigit), toNat_toUInt8_of_ascii hascii] at hnat
  rw [Char.toNat_inj.mp hnat, hsep] at hdigit
  cases hdigit

end SqdNetwork.Core
