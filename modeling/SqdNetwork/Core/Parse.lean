import SqdNetwork.Core.Text
import Mathlib.Data.List.TakeWhile
import Mathlib.Tactic.Ring

/-!
# Splitting text and reading decimals

A text without the separator is cut off at the first separator behind it. Reading
an unsigned decimal accepts an optional plus sign and digits whose value fits, and
nothing else. A value has one text of digits padded to a width.
-/

namespace SqdNetwork.Core

/-- `str::split_once`: the text before and after the first separator. -/
def splitOnce (sep : Char) (s : String) : Option (String × String) :=
  match s.toList.dropWhile (· != sep) with
  | [] => none
  | _ :: after => some (String.ofList (s.toList.takeWhile (· != sep)), String.ofList after)

/-- `str::splitn`: at most `n` pieces, the last one holding all that is left. -/
def splitn : Nat → Char → String → List String
  | 0, _, _ => []
  | 1, _, s => [s]
  | n + 2, sep, s =>
    match splitOnce sep s with
    | none => [s]
    | some (piece, rest) => piece :: splitn (n + 1) sep rest

/-- The value of a decimal digit. -/
def digitValue (c : Char) : Nat := c.toNat - 48

/-- The digits' value on top of what was read before. -/
def decimalFrom (acc : Nat) (digits : List Char) : Nat :=
  digits.foldl (fun n c => n * 10 + digitValue c) acc

/-- Read digits while the value fits in 64 bits. -/
def readDigits (acc : Nat) : List Char → Option Nat
  | [] => some acc
  | c :: rest =>
    if c.isDigit = true ∧ acc * 10 + digitValue c < 2 ^ 64 then
      readDigits (acc * 10 + digitValue c) rest
    else none

/-- `str::parse::<u64>`: a plus sign is allowed, but not alone. -/
def parseU64 (s : String) : Option UInt64 :=
  match s.toList with
  | [] => none
  | ['+'] => none
  | '+' :: digits => UInt64.ofNat <$> readDigits 0 digits
  | digits => UInt64.ofNat <$> readDigits 0 digits

/-- The text is an optional plus sign and at least one digit, together of this value. -/
def Numeral (text : String) (n : Nat) : Prop :=
  ∃ sign digits, text.toList = sign ++ digits ∧ (sign = [] ∨ sign = ['+']) ∧ digits ≠ [] ∧
    (∀ c ∈ digits, c.isDigit = true) ∧ decimalFrom 0 digits = n

/-- A split takes the text up to the first separator. -/
theorem splitOnce_eq_some {sep : Char} {s before after : String} :
    splitOnce sep s = some (before, after) ↔
      s.toList = before.toList ++ sep :: after.toList ∧ sep ∉ before.toList := by
  unfold splitOnce
  constructor
  · intro h
    cases hdrop : s.toList.dropWhile (· != sep) with
    | nil => simp [hdrop] at h
    | cons c rest =>
      rw [hdrop, Option.some.injEq, Prod.mk.injEq] at h
      obtain ⟨rfl, rfl⟩ := h
      have hc : c = sep := by
        have hhead := List.head?_dropWhile_not (· != sep) s.toList
        simpa [hdrop] using hhead
      rw [String.toList_ofList, String.toList_ofList, ← hc]
      refine ⟨?_, fun hmem => ?_⟩
      · conv_lhs => rw [← List.takeWhile_append_dropWhile (p := (· != sep)) (l := s.toList), hdrop]
        rw [hc]
      · have hne := List.mem_takeWhile_imp hmem
        simp [hc] at hne
  · rintro ⟨htext, hnot⟩
    have hpass : ∀ c ∈ before.toList, (c != sep) = true := by
      intro c hc
      simp only [bne_iff_ne, ne_eq]
      rintro rfl
      exact hnot hc
    rw [htext, List.dropWhile_append_of_pos hpass, List.takeWhile_append_of_pos hpass]
    simp

/-- If the text before a separator is at least so long, the separator stands at an offset exactly
if that is the length of the text. -/
theorem separator_at_iff {α : Type} {sep : α} {before after : List α} {offset : Nat}
    (hlength : offset ≤ before.length) (hnot : sep ∉ before) :
    (before ++ sep :: after)[offset]? = some sep ↔ before.length = offset := by
  constructor
  · intro hget
    by_contra hne
    have hinside : offset < before.length := by omega
    rw [List.getElem?_append_left hinside] at hget
    exact hnot (List.mem_of_getElem? hget)
  · rintro rfl
    rw [List.getElem?_append_right (Nat.le_refl _), Nat.sub_self, List.getElem?_cons_zero]

/-- Offsets behind a separator count on in the text after it. -/
theorem getElem?_after_separator {α : Type} {sep : α} {before after : List α} {length : Nat}
    (hlength : before.length = length) (k : Nat) :
    (before ++ sep :: after)[length + 1 + k]? = after[k]? := by
  rw [List.getElem?_append_right (by omega), hlength]
  have hoffset : length + 1 + k - length = k + 1 := by omega
  rw [hoffset, List.getElem?_cons_succ]

theorem decimalFrom_cons (acc : Nat) (c : Char) (rest : List Char) :
    decimalFrom acc (c :: rest) = decimalFrom (acc * 10 + digitValue c) rest := by
  rw [decimalFrom, List.foldl_cons, ← decimalFrom]

/-- A value only grows as more digits are read. -/
theorem le_decimalFrom (acc : Nat) (digits : List Char) : acc ≤ decimalFrom acc digits := by
  induction digits generalizing acc with
  | nil => exact Nat.le_refl acc
  | cons c rest ih =>
    have hstep := ih (acc * 10 + digitValue c)
    rw [decimalFrom_cons]
    omega

/-- Reading succeeds exactly on digits whose value fits, with that value. -/
theorem readDigits_eq_some {acc n : Nat} (hacc : acc < 2 ^ 64) {digits : List Char} :
    readDigits acc digits = some n ↔
      (∀ c ∈ digits, c.isDigit = true) ∧ decimalFrom acc digits = n ∧ n < 2 ^ 64 := by
  induction digits generalizing acc with
  | nil =>
    simp only [readDigits, Option.some.injEq, decimalFrom, List.foldl_nil, List.not_mem_nil,
      false_implies, implies_true, true_and]
    constructor
    · rintro rfl
      exact ⟨rfl, hacc⟩
    · exact fun h => h.1
  | cons c rest ih =>
    rw [readDigits, decimalFrom_cons, List.forall_mem_cons]
    split
    · next hfits => rw [ih hfits.2, and_assoc, and_iff_right hfits.1]
    · next hover =>
      refine iff_of_false (by simp) ?_
      rintro ⟨⟨hdigit, -⟩, hn, hlt⟩
      have hle := le_decimalFrom (acc * 10 + digitValue c) rest
      exact hover ⟨hdigit, by omega⟩

/-- Reading the digits of a text and returning their value as a 64-bit number. -/
theorem ofNat_readDigits_eq_some {digits : List Char} {v : UInt64} :
    UInt64.ofNat <$> readDigits 0 digits = some v ↔
      (∀ c ∈ digits, c.isDigit = true) ∧ decimalFrom 0 digits = v.toNat := by
  simp only [Option.map_eq_map, Option.map_eq_some_iff, readDigits_eq_some (by decide : 0 < 2 ^ 64)]
  constructor
  · rintro ⟨n, ⟨hdigits, hn, hlt⟩, rfl⟩
    exact ⟨hdigits, by rw [UInt64.toNat_ofNat_of_lt' hlt, hn]⟩
  · rintro ⟨hdigits, hn⟩
    exact ⟨v.toNat, ⟨hdigits, hn, v.toNat_lt⟩, UInt64.ofNat_toNat⟩

/-- The accepted texts are the numerals that fit. -/
theorem parseU64_eq_some {s : String} {v : UInt64} : parseU64 s = some v ↔ Numeral s v.toNat := by
  unfold parseU64 Numeral
  split
  · next hnil =>
    refine iff_of_false (by simp) ?_
    rintro ⟨sign, digits, htext, -, hne, -⟩
    rw [hnil] at htext
    exact hne (List.append_eq_nil_iff.mp htext.symm).2
  · next hplus =>
    refine iff_of_false (by simp) ?_
    rintro ⟨sign, digits, htext, rfl | rfl, hne, hdigits, -⟩
    · rw [hplus, List.nil_append] at htext
      exact absurd (hdigits '+' (htext ▸ List.mem_cons_self)) (by decide)
    · rw [hplus, List.singleton_append, List.cons.injEq] at htext
      exact hne htext.2.symm
  · next digits hne hplus =>
    rw [ofNat_readDigits_eq_some]
    constructor
    · rintro ⟨hdigits, hvalue⟩
      exact ⟨['+'], digits, hplus, Or.inr rfl, fun he => hne (he ▸ rfl), hdigits, hvalue⟩
    · rintro ⟨sign, digits', htext, rfl | rfl, -, hdigits, hvalue⟩
      · rw [hplus, List.nil_append] at htext
        exact absurd (hdigits '+' (htext ▸ List.mem_cons_self)) (by decide)
      · rw [hplus, List.singleton_append, List.cons.injEq] at htext
        rw [htext.2]
        exact ⟨hdigits, hvalue⟩
  · next hnil hplus hcons =>
    rw [ofNat_readDigits_eq_some]
    constructor
    · rintro ⟨hdigits, hvalue⟩
      exact ⟨[], s.toList, rfl, Or.inl rfl, hnil, hdigits, hvalue⟩
    · rintro ⟨sign, digits, htext, rfl | rfl, -, hdigits, hvalue⟩
      · rw [htext]
        exact ⟨hdigits, hvalue⟩
      · exact absurd htext (hcons digits)

section Padded

/-- Digits alone, at least `width` of them, and more only when the first is not a zero. -/
structure Padded (width : Nat) (text : String) : Prop where
  digits : ∀ c ∈ text.toList, c.isDigit = true
  wide : width ≤ text.toList.length
  short : width < text.toList.length → text.toList.head? ≠ some '0'

theorem digitValue_lt {c : Char} (h : c.isDigit = true) : digitValue c < 10 := by
  have hle := UInt32.le_iff_toNat_le.mp (of_decide_eq_true (Bool.and_eq_true_iff.mp h).2)
  have hc : c.toNat ≤ 57 := hle
  unfold digitValue
  omega

/-- Digits with the same value are the same. -/
theorem digitValue_inj {c d : Char} (hc : c.isDigit = true) (hd : d.isDigit = true)
    (h : digitValue c = digitValue d) : c = d := by
  have hle : ∀ e : Char, e.isDigit = true → 48 ≤ e.toNat := fun e he =>
    UInt32.le_iff_toNat_le.mp (of_decide_eq_true (Bool.and_eq_true_iff.mp he).1)
  have hlec := hle c hc
  have hled := hle d hd
  unfold digitValue at h
  apply Char.toNat_inj.mp
  omega

/-- Each further digit multiplies what was read before by ten. -/
theorem mul_pow_le_decimalFrom (acc : Nat) (digits : List Char) :
    acc * 10 ^ digits.length ≤ decimalFrom acc digits := by
  induction digits generalizing acc with
  | nil => exact (Nat.mul_one acc).le
  | cons c rest ih =>
    calc acc * 10 ^ (rest.length + 1)
        = acc * 10 * 10 ^ rest.length := by rw [Nat.pow_succ']; ring
      _ ≤ (acc * 10 + digitValue c) * 10 ^ rest.length :=
        Nat.mul_le_mul_right _ (Nat.le_add_right _ _)
      _ ≤ decimalFrom (acc * 10 + digitValue c) rest := ih _
      _ = decimalFrom acc (c :: rest) := (decimalFrom_cons acc c rest).symm

/-- The digits' value stays below the next multiple. -/
theorem decimalFrom_lt_mul_pow (acc : Nat) {digits : List Char}
    (h : ∀ c ∈ digits, c.isDigit = true) :
    decimalFrom acc digits < (acc + 1) * 10 ^ digits.length := by
  induction digits generalizing acc with
  | nil => exact (Nat.lt_succ_self acc).trans_eq (Nat.mul_one _).symm
  | cons c rest ih =>
    have hc := digitValue_lt (h c List.mem_cons_self)
    calc decimalFrom acc (c :: rest)
        = decimalFrom (acc * 10 + digitValue c) rest := decimalFrom_cons acc c rest
      _ < (acc * 10 + digitValue c + 1) * 10 ^ rest.length :=
        ih _ fun d hd => h d (List.mem_cons_of_mem _ hd)
      _ ≤ ((acc + 1) * 10) * 10 ^ rest.length := Nat.mul_le_mul_right _ (by omega)
      _ = (acc + 1) * 10 ^ (rest.length + 1) := by rw [Nat.pow_succ']; ring

/-- Equally many digits with the same value are the same digits. -/
theorem decimalFrom_inj {acc acc' : Nat} {digits digits' : List Char}
    (hlength : digits.length = digits'.length) (h : ∀ c ∈ digits, c.isDigit = true)
    (h' : ∀ c ∈ digits', c.isDigit = true)
    (hvalue : decimalFrom acc digits = decimalFrom acc' digits') :
    acc = acc' ∧ digits = digits' := by
  induction digits generalizing acc acc' digits' with
  | nil =>
    obtain rfl := List.length_eq_zero_iff.mp hlength.symm
    exact ⟨hvalue, rfl⟩
  | cons c rest ih =>
    obtain ⟨c', rest', rfl⟩ := List.exists_cons_of_length_eq_add_one hlength.symm
    obtain ⟨hc, hrest⟩ := List.forall_mem_cons.mp h
    obtain ⟨hc', hrest'⟩ := List.forall_mem_cons.mp h'
    rw [decimalFrom_cons, decimalFrom_cons] at hvalue
    obtain ⟨hacc, rfl⟩ := ih (Nat.succ.inj hlength) hrest hrest' hvalue
    have hlt := digitValue_lt hc
    have hlt' := digitValue_lt hc'
    have hdigit : digitValue c = digitValue c' := by omega
    exact ⟨by omega, by rw [digitValue_inj hc hc' hdigit]⟩

/-- Digits after a first one that is not a zero reach the power of ten of their number. -/
theorem pow_le_decimalFrom {digits : List Char} (h : ∀ c ∈ digits, c.isDigit = true)
    (hne : digits ≠ []) (hhead : digits.head? ≠ some '0') :
    10 ^ (digits.length - 1) ≤ decimalFrom 0 digits := by
  cases digits with
  | nil => exact absurd rfl hne
  | cons c rest =>
    have hc : digitValue c ≠ 0 := by
      intro hzero
      apply hhead
      have hdigit : ('0').isDigit = true := by decide
      rw [List.head?_cons, digitValue_inj (h c List.mem_cons_self) hdigit hzero]
    calc 10 ^ rest.length
        ≤ (0 * 10 + digitValue c) * 10 ^ rest.length := Nat.le_mul_of_pos_left _ (by omega)
      _ ≤ decimalFrom (0 * 10 + digitValue c) rest := mul_pow_le_decimalFrom _ rest
      _ = decimalFrom 0 (c :: rest) := (decimalFrom_cons 0 c rest).symm

/-- Of two padded texts of one value neither is longer. -/
theorem Padded.length_le {width : Nat} {text text' : String} (h : Padded width text)
    (h' : Padded width text')
    (hvalue : decimalFrom 0 text.toList = decimalFrom 0 text'.toList) :
    text'.toList.length ≤ text.toList.length := by
  by_contra hlonger
  have hwide := h.wide
  have hne : text'.toList ≠ [] := by
    intro hnil
    rw [hnil] at hlonger
    exact hlonger (Nat.zero_le _)
  have hlow := pow_le_decimalFrom h'.digits hne (h'.short (by omega))
  have hhigh := decimalFrom_lt_mul_pow 0 h.digits
  have hpow : 10 ^ text.toList.length ≤ 10 ^ (text'.toList.length - 1) :=
    Nat.pow_le_pow_right (by decide) (by omega)
  omega

/-- A value has one padded text. -/
theorem Padded.eq_of_decimalFrom_eq {width : Nat} {text text' : String} (h : Padded width text)
    (h' : Padded width text')
    (hvalue : decimalFrom 0 text.toList = decimalFrom 0 text'.toList) : text = text' := by
  have hlength := Nat.le_antisymm (h'.length_le h hvalue.symm) (h.length_le h' hvalue)
  exact String.toList_inj.mp (decimalFrom_inj hlength h.digits h'.digits hvalue).2

theorem decimalFrom_toDigits (n : Nat) : decimalFrom 0 (Nat.toDigits 10 n) = n := by
  have hfold : decimalFrom 0 (Nat.toDigits 10 n) = Nat.ofDigitChars 10 (Nat.toDigits 10 n) 0 := by
    rw [Nat.ofDigitChars_eq_foldl, decimalFrom]
    congr 1
    ext acc c
    rw [Nat.mul_comm]
    rfl
  rw [hfold, Nat.ofDigitChars_toDigits (by decide) (by decide)]

/-- Leading zeros have no value. -/
theorem decimalFrom_replicate_zero (k : Nat) (digits : List Char) :
    decimalFrom 0 (List.replicate k '0' ++ digits) = decimalFrom 0 digits := by
  induction k with
  | zero => rfl
  | succ k ih => exact ih

theorem toList_zeroPadded (width n : Nat) : (zeroPadded width n).toList =
    List.replicate (width - (Nat.toDigits 10 n).length) '0' ++ Nat.toDigits 10 n :=
  String.toList_ofList

theorem decimalFrom_zeroPadded (width n : Nat) :
    decimalFrom 0 (zeroPadded width n).toList = n := by
  rw [toList_zeroPadded, decimalFrom_replicate_zero, decimalFrom_toDigits]

/-- The digits of a number start with a zero only if there is one digit. -/
theorem head?_toDigits_ne_zero {n : Nat} (h : 1 < (Nat.toDigits 10 n).length) :
    (Nat.toDigits 10 n).head? ≠ some '0' := by
  intro hhead
  obtain ⟨rest, hrest⟩ : ∃ rest, Nat.toDigits 10 n = '0' :: rest := by
    cases hdigits : Nat.toDigits 10 n with
    | nil => rw [hdigits] at hhead; cases hhead
    | cons c rest =>
      rw [hdigits, List.head?_cons, Option.some.injEq] at hhead
      exact ⟨rest, by rw [hhead]⟩
  have hdigit : ∀ c ∈ rest, c.isDigit = true := by
    intro c hc
    apply Nat.isDigit_of_mem_toDigits (b := 10) (n := n) (by decide) (by decide)
    rw [hrest]
    exact List.mem_cons_of_mem _ hc
  have hvalue := decimalFrom_toDigits n
  rw [hrest, decimalFrom_cons] at hvalue
  have hlt := decimalFrom_lt_mul_pow (0 * 10 + digitValue '0') hdigit
  rw [hvalue] at hlt
  rw [hrest, List.length_cons] at h
  have hshort := (Nat.length_toDigits_le_iff (b := 10) (n := n) (k := rest.length) (by decide)
    (by omega)).mpr (hlt.trans_eq (Nat.one_mul _))
  rw [hrest, List.length_cons] at hshort
  omega

theorem padded_zeroPadded {width : Nat} (hwidth : 0 < width) (n : Nat) :
    Padded width (zeroPadded width n) := by
  have hlist := toList_zeroPadded width n
  refine ⟨?_, ?_, ?_⟩
  · intro c hc
    exact isDigit_of_mem_zeroPadded hc
  · rw [hlist, List.length_append, List.length_replicate]
    omega
  · intro hlong
    rw [hlist, List.length_append, List.length_replicate] at hlong
    have hnone : width - (Nat.toDigits 10 n).length = 0 := by omega
    rw [hlist, hnone]
    apply head?_toDigits_ne_zero
    omega

/-- The padded texts of a value are one, the one that is printed. -/
theorem padded_iff_eq_zeroPadded {width n : Nat} (hwidth : 0 < width) {text : String}
    (hvalue : decimalFrom 0 text.toList = n) :
    Padded width text ↔ text = zeroPadded width n := by
  constructor
  · intro h
    apply h.eq_of_decimalFrom_eq (padded_zeroPadded hwidth n)
    rw [hvalue, decimalFrom_zeroPadded]
  · rintro rfl
    exact padded_zeroPadded hwidth n

end Padded

end SqdNetwork.Core
