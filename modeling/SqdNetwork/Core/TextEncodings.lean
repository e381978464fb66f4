import Mathlib.Algebra.Order.Ring.Nat
import Mathlib.Tactic.Common

/-!
# Bytes written as text

Base64 with the standard alphabet and padding, and the percent encoding of form
fields. Both can be read back.
-/

namespace SqdNetwork.Core

/-! ## Base64 -/

/-- The digit of a value below 64. -/
def base64Digit (n : Nat) : Char :=
  if n < 26 then Char.ofNat (n + 65)
  else if n < 52 then Char.ofNat (n + 71)
  else if n < 62 then Char.ofNat (n - 4)
  else if n = 62 then '+'
  else '/'

/-- The value of a digit. -/
def base64Value (c : Char) : Nat :=
  if c = '+' then 62
  else if c = '/' then 63
  else if c.toNat < 58 then c.toNat + 4
  else if c.toNat < 91 then c.toNat - 65
  else c.toNat - 71

/-- The digit at a place of a group of 24 bits, the last place being zero. -/
def base64Place (n place : Nat) : Char := base64Digit (n / 64 ^ place % 64)

/-- Three bytes become four digits; missing bytes at the end are padded. -/
def base64 : List UInt8 → List Char
  | a :: b :: c :: rest =>
    let n := a.toNat * 65536 + b.toNat * 256 + c.toNat
    base64Place n 3 :: base64Place n 2 :: base64Place n 1 :: base64Place n 0 :: base64 rest
  | [a, b] =>
    let n := a.toNat * 65536 + b.toNat * 256
    [base64Place n 3, base64Place n 2, base64Place n 1, '=']
  | [a] =>
    let n := a.toNat * 65536
    [base64Place n 3, base64Place n 2, '=', '=']
  | [] => []

/-- Four digits are read back as up to three bytes. -/
def unbase64 : List Char → List UInt8
  | w :: x :: y :: z :: rest =>
    let a := UInt8.ofNat (base64Value w * 4 + base64Value x / 16)
    let b := UInt8.ofNat (base64Value x % 16 * 16 + base64Value y / 4)
    let c := UInt8.ofNat (base64Value y % 4 * 64 + base64Value z)
    if y = '=' then [a] else if z = '=' then [a, b] else a :: b :: c :: unbase64 rest
  | _ => []

theorem base64Value_base64Digit {n : Nat} (h : n < 64) : base64Value (base64Digit n) = n := by
  revert n
  decide

theorem base64Digit_ne_pad {n : Nat} (h : n < 64) : base64Digit n ≠ '=' := by
  revert n
  decide

@[simp] theorem base64Value_base64Place (n place : Nat) :
    base64Value (base64Place n place) = n / 64 ^ place % 64 :=
  base64Value_base64Digit (Nat.mod_lt _ (by decide))

@[simp] theorem base64Place_ne_pad (n place : Nat) : base64Place n place ≠ '=' :=
  base64Digit_ne_pad (Nat.mod_lt _ (by decide))

theorem ofNat_eq_of_toNat_eq {a : UInt8} {n : Nat} (h : n = a.toNat) : UInt8.ofNat n = a := by
  rw [h, UInt8.ofNat_toNat]

theorem unbase64_base64 (bytes : List UInt8) : unbase64 (base64 bytes) = bytes := by
  induction bytes using base64.induct with
  | case1 a b c rest ih =>
    have ha := a.toNat_lt
    have hb := b.toNat_lt
    have hc := c.toNat_lt
    rw [base64, unbase64, if_neg (base64Place_ne_pad _ _), if_neg (base64Place_ne_pad _ _), ih]
    simp only [base64Value_base64Place]
    rw [ofNat_eq_of_toNat_eq (a := a) (by omega), ofNat_eq_of_toNat_eq (a := b) (by omega),
      ofNat_eq_of_toNat_eq (a := c) (by omega)]
  | case2 a b =>
    have ha := a.toNat_lt
    have hb := b.toNat_lt
    rw [base64, unbase64, if_neg (base64Place_ne_pad _ _), if_pos rfl]
    simp only [base64Value_base64Place]
    rw [ofNat_eq_of_toNat_eq (a := a) (by omega), ofNat_eq_of_toNat_eq (a := b) (by omega)]
  | case3 a =>
    have ha := a.toNat_lt
    rw [base64, unbase64, if_pos rfl]
    simp only [base64Value_base64Place]
    rw [ofNat_eq_of_toNat_eq (a := a) (by omega)]
  | case4 => rfl

/-! ## Form fields -/

/-- The characters of form fields that stand for themselves. -/
def formKeeps (n : Nat) : Bool :=
  n = 42 || n = 45 || n = 46 || (48 ≤ n && n ≤ 57) || (65 ≤ n && n ≤ 90) || n = 95 ||
    (97 ≤ n && n ≤ 122)

def hexDigit (n : Nat) : Char := if n < 10 then Char.ofNat (n + 48) else Char.ofNat (n + 55)

def hexValue (c : Char) : Nat := if c.toNat < 58 then c.toNat - 48 else c.toNat - 55

def serializeByte (byte : UInt8) : List Char :=
  if formKeeps byte.toNat then [Char.ofNat byte.toNat]
  else if byte = 32 then ['+']
  else ['%', hexDigit (byte.toNat / 16), hexDigit (byte.toNat % 16)]

/-- The bytes of a form field as text. -/
def byteSerialize (bytes : List UInt8) : List Char := bytes.flatMap serializeByte

/-- The bytes that a text of a form field stands for. -/
def byteParse : List Char → List UInt8
  | [] => []
  | '+' :: rest => 32 :: byteParse rest
  | '%' :: high :: low :: rest => UInt8.ofNat (hexValue high * 16 + hexValue low) :: byteParse rest
  | c :: rest => c.toUInt8 :: byteParse rest

theorem hexValue_hexDigit {n : Nat} (h : n < 16) : hexValue (hexDigit n) = n := by
  revert n
  decide

theorem formKeeps_char {n : Nat} (h : n < 256) (hkeeps : formKeeps n = true) :
    (Char.ofNat n).toUInt8 = UInt8.ofNat n ∧ Char.ofNat n ≠ '+' ∧ Char.ofNat n ≠ '%' := by
  revert n
  decide +kernel

theorem byteParse_serializeByte (byte : UInt8) (rest : List Char) :
    byteParse (serializeByte byte ++ rest) = byte :: byteParse rest := by
  unfold serializeByte
  split
  · next hkeeps =>
    obtain ⟨hbyte, hplus, hpercent⟩ := formKeeps_char byte.toNat_lt hkeeps
    rw [List.singleton_append, byteParse, hbyte, UInt8.ofNat_toNat]
    · exact hplus
    · exact fun _ _ _ he => absurd he hpercent
  · split
    · next hspace => rw [hspace, List.singleton_append, byteParse]
    · have hlt := byte.toNat_lt
      rw [List.cons_append, List.cons_append, List.singleton_append, byteParse,
        hexValue_hexDigit (by omega), hexValue_hexDigit (by omega),
        ofNat_eq_of_toNat_eq (a := byte) (by omega)]

theorem byteParse_byteSerialize (bytes : List UInt8) : byteParse (byteSerialize bytes) = bytes := by
  induction bytes with
  | nil => rfl
  | cons byte bytes ih =>
    rw [byteSerialize, List.flatMap_cons, byteParse_serializeByte]
    exact congrArg (byte :: ·) ih

/-- Whether a character is printable and stands for itself between quotes. -/
def quotable (c : Char) : Bool := 32 ≤ c.toNat && c ≠ '"' && c ≠ '\\'

end SqdNetwork.Core
