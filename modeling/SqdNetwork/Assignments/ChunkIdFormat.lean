import SqdNetwork.Assignments.Reader
import SqdNetwork.DataChunk.FromStr

/-!
# The text of a chunk id

The reader writes ids from the columns without the standard formatter: it fills ten
digits from the right and prints what is too wide for them as it is. The text is the
one a `DataChunk` displays, for any parts. Portals cut it at fixed offsets, where the
separators stand exactly as long as no number outgrows its ten digits.
-/

namespace SqdNetwork.Assignments

open SqdNetwork.Core

/-- Writing digits leftwards over zeros leaves the fixed digits of the number. -/
theorem padDigits_eq {rest pos : Nat} {digits : List UInt8} (hrest : rest < 10 ^ pos)
    (hzero : digits.take pos = List.replicate pos 48) :
    padDigits rest pos digits = .ok (fixedDigits pos rest ++ digits.drop pos) := by
  induction pos generalizing rest digits with
  | zero =>
    have hz : rest = 0 := by simpa using hrest
    simp [padDigits, hz, fixedDigits]
  | succ pos ih =>
    rw [padDigits]
    split
    · next hz =>
      rw [hz, fixedDigits_zero, ← hzero, List.take_append_drop]
    · have hlen : pos < digits.length := by
        have hl := congrArg List.length hzero
        rw [List.length_take, List.length_replicate] at hl
        omega
      have hdiv : rest / 10 < 10 ^ pos := by
        rw [Nat.div_lt_iff_lt_mul (by decide), ← Nat.pow_succ]
        exact hrest
      have htake : (digits.set pos (digitByte (rest % 10))).take pos = List.replicate pos 48 := by
        have hshort := congrArg (List.take pos) hzero
        rw [List.take_take, Nat.min_eq_left (Nat.le_succ pos), List.take_replicate,
          Nat.min_eq_left (Nat.le_succ pos)] at hshort
        rw [List.take_set_of_le (Nat.le_refl pos), hshort]
      have hdrop : (digits.set pos (digitByte (rest % 10))).drop pos =
          digitByte (rest % 10) :: digits.drop (pos + 1) := by
        rw [List.drop_eq_getElem_cons (by simpa using hlen), List.getElem_set_self,
          List.drop_set_of_lt (Nat.lt_succ_self pos)]
      rw [ih hdiv htake, hdrop, fixedDigits]
      simp

/-- Padding by hand agrees with the formatter, also where the value outgrows the pad. -/
theorem pushPadded_eq (out : String) (value : UInt64) :
    pushPadded out value = .ok (out ++ zeroPadded 10 value.toNat) := by
  unfold pushPadded
  split
  · next hle => rw [zeroPadded_of_le hle]
  · next hlt =>
    have hfit : value.toNat < 10 ^ 10 := by omega
    rw [padDigits_eq hfit rfl, Exec.ok_bind]
    have hdrop : (List.replicate 10 (48 : UInt8)).drop 10 = [] := rfl
    rw [hdrop, List.append_nil, fromUtf8_fixedDigits (by decide) hfit]
    rfl

-- both sides of the limit
example : pushPadded "" 9999999999 = .ok "9999999999" ∧
    pushPadded "" 10000000000 = .ok "10000000000" := ⟨rfl, rfl⟩

/-- The id written by hand is the displayed one, whatever the parts are. -/
theorem pushChunkId_eq_displayFormat (out : String) (top first last : UInt64) (hash : String) :
    pushChunkId out top first last hash = .ok (out ++ displayFormat top first last hash) := by
  simp only [pushChunkId, pushPadded_eq, Exec.ok_bind, displayFormat, String.append_assoc]

/-- The id rebuilt from its parts is the canonical text, appended. -/
theorem pushChunkId_eq (out : String) (id : DataChunk) :
    pushChunkId out id.top id.firstBlock id.lastBlock id.lastHash =
      .ok (out ++ id.toString) := by
  rw [pushChunkId_eq_displayFormat, id.toString_eq_displayFormat]

section FixedOffsets

/-- What a portal relies on when it cuts an id: 38 to 41 bytes, with the separators at offsets 10,
21 and 32. -/
structure FixedOffsets (id : String) : Prop where
  length : 38 ≤ (asBytes id).length ∧ (asBytes id).length ≤ 41
  slash : (asBytes id)[10]? = some '/'.toUInt8
  dash : (asBytes id)[21]? = some '-'.toUInt8
  lastDash : (asBytes id)[32]? = some '-'.toUInt8

theorem asBytes_displayFormat (top first last : UInt64) (hash : String) :
    asBytes (displayFormat top first last hash) =
      asBytes (zeroPadded 10 top.toNat) ++ '/'.toUInt8 ::
        (asBytes (zeroPadded 10 first.toNat) ++ '-'.toUInt8 ::
          (asBytes (zeroPadded 10 last.toNat) ++ '-'.toUInt8 :: asBytes hash)) := by
  have hslash : asBytes "/" = ['/'.toUInt8] := rfl
  have hdash : asBytes "-" = ['-'.toUInt8] := rfl
  simp only [displayFormat, asBytes_append, hslash, hdash, List.append_assoc, List.cons_append,
    List.nil_append]

/-- A separator right after ten digits stands at offset ten exactly if the number fits. -/
theorem separator_after_number {sep : Char} (hascii : sep.toNat < 128)
    (hsep : sep.isDigit = false) (value : UInt64) (after : List UInt8) :
    (asBytes (zeroPadded 10 value.toNat) ++ sep.toUInt8 :: after)[10]? = some sep.toUInt8 ↔
      value.toNat < 10 ^ 10 := by
  have hwide : 10 ≤ (asBytes (zeroPadded 10 value.toNat)).length := by
    rw [length_asBytes_zeroPadded]
    exact Nat.le_max_left _ _
  rw [separator_at_iff hwide (not_mem_asBytes_zeroPadded hascii hsep 10 value.toNat),
    length_asBytes_zeroPadded_iff (by decide)]

/-- With a hash of 5 to 8 bytes the separators stand at the fixed offsets exactly if all three
numbers fit in ten digits. -/
theorem fixedOffsets_displayFormat_iff {top first last : UInt64} {hash : String}
    (hhash : 5 ≤ (asBytes hash).length ∧ (asBytes hash).length ≤ 8) :
    FixedOffsets (displayFormat top first last hash) ↔
      top.toNat < 10 ^ 10 ∧ first.toNat < 10 ^ 10 ∧ last.toNat < 10 ^ 10 := by
  have hlength : ∀ {value : UInt64}, value.toNat < 10 ^ 10 →
      (asBytes (zeroPadded 10 value.toNat)).length = 10 :=
    fun hfits => (length_asBytes_zeroPadded_iff (by decide)).mpr hfits
  have hbytes := asBytes_displayFormat top first last hash
  constructor
  · rintro ⟨-, hslash, hdash, hlastDash⟩
    rw [hbytes] at hslash hdash hlastDash
    -- each separator found fixes the width before it, and so the offset of the next one
    have htop := (separator_after_number (by decide) (by decide) top _).mp hslash
    rw [getElem?_after_separator (hlength htop) 10] at hdash
    rw [getElem?_after_separator (hlength htop) 21] at hlastDash
    have hfirst := (separator_after_number (by decide) (by decide) first _).mp hdash
    rw [getElem?_after_separator (hlength hfirst) 10] at hlastDash
    exact ⟨htop, hfirst, (separator_after_number (by decide) (by decide) last _).mp hlastDash⟩
  · rintro ⟨htop, hfirst, hlast⟩
    refine ⟨?_, ?_, ?_, ?_⟩
    · rw [hbytes]
      simp only [List.length_append, List.length_cons, hlength htop, hlength hfirst, hlength hlast]
      omega
    · rw [hbytes]
      exact (separator_after_number (by decide) (by decide) top _).mpr htop
    · rw [hbytes, getElem?_after_separator (hlength htop) 10]
      exact (separator_after_number (by decide) (by decide) first _).mpr hfirst
    · rw [hbytes, getElem?_after_separator (hlength htop) 21,
        getElem?_after_separator (hlength hfirst) 10]
      exact (separator_after_number (by decide) (by decide) last _).mpr hlast

end FixedOffsets

/-- Appending a number by hand appends its decimal digits, padded with zeros to at least ten
characters; so an id written by hand is the displayed one, for any parts and for those of any
chunk, and with numbers below 10^10 and a hash of 5 to 8 ASCII characters it can be cut at the
fixed offsets. -/
theorem hand_written_id_is_displayed (out : String) :
    (∀ value : UInt64, pushPadded out value =
      .ok (out ++ String.ofList ((Nat.toDigits 10 value.toNat).leftpad 10 '0'))) ∧
    ∀ (top first last : UInt64) (hash : String),
      pushChunkId out top first last hash = .ok (out ++ displayFormat top first last hash) ∧
      (∀ c : DataChunk, DataChunk.new top first last hash = some c →
        pushChunkId out top first last hash = .ok (out ++ toString c)) ∧
      (top.toNat < 10 ^ 10 → first.toNat < 10 ^ 10 → last.toNat < 10 ^ 10 →
        5 ≤ hash.length → hash.length ≤ 8 → (∀ c ∈ hash.toList, c.toNat < 128) →
        ∃ id, pushChunkId out top first last hash = .ok (out ++ id) ∧ FixedOffsets id) := by
  refine ⟨fun value => pushPadded_eq out value, fun top first last hash => ⟨?_, ?_, ?_⟩⟩
  · exact pushChunkId_eq_displayFormat out top first last hash
  · intro c hc
    obtain ⟨-, rfl, rfl, rfl, rfl⟩ := DataChunk.new_eq_some.mp hc
    exact pushChunkId_eq out c
  · intro htop hfirst hlast hmin hmax hascii
    have hhash : (asBytes hash).length = hash.length := by
      rw [asBytes_of_ascii hascii, List.length_map, String.length_toList]
    refine ⟨_, pushChunkId_eq_displayFormat out top first last hash, ?_⟩
    exact (fixedOffsets_displayFormat_iff (hhash ▸ ⟨hmin, hmax⟩)).mpr ⟨htop, hfirst, hlast⟩

theorem hand_written_id_sample :
    (∃ c, DataChunk.new 221000000 221000000 221000649 "9QgFD" = some c ∧
      pushChunkId "" 221000000 221000000 221000649 "9QgFD" = .ok ("" ++ toString c)) ∧
    ∃ id, pushChunkId "" 221000000 221000000 221000649 "9QgFD" = .ok ("" ++ id) ∧
      FixedOffsets id := by
  obtain ⟨-, hid⟩ := hand_written_id_is_displayed ""
  obtain ⟨-, hchunk, hcut⟩ := hid 221000000 221000000 221000649 "9QgFD"
  have hvalid : validHash "9QgFD" = true ∧ (221000000 : UInt64) ≤ 221000000 ∧
      (221000000 : UInt64) ≤ 221000649 := by decide
  obtain ⟨⟨hmin, hmax⟩, hword⟩ := validHash_iff_chars.mp hvalid.1
  refine ⟨⟨_, dif_pos hvalid, hchunk _ (dif_pos hvalid)⟩, ?_⟩
  exact hcut (by decide) (by decide) (by decide) hmin hmax fun c hc => isWordChar_ascii (hword c hc)

end SqdNetwork.Assignments
