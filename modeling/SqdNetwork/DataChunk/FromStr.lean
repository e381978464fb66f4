import SqdNetwork.Core.Parse
import SqdNetwork.DataChunk

/-!
# Reading chunk ids

The parser cuts an id at its first slash and its first two dashes and leaves the rest
to the number and hash checks. Numbers hold neither separator and hashes no dash, so
what it accepts is exactly `top/first-last-hash`.
-/

namespace SqdNetwork

open SqdNetwork.Core

/-- ASCII letters, digits and the underscore, as characters. -/
def isWordChar (c : Char) : Bool := c.isAlphanum || c == '_'

/-- Parse `<top>/<first_block>-<last_block>-<hash>`; the error carries nothing. -/
def DataChunk.fromStr (s : String) : Option DataChunk := do
  let (top, range) ← splitOnce '/' s
  match splitn 3 '-' range with
  | [firstBlock, lastBlock, hash] =>
    new (← parseU64 top) (← parseU64 firstBlock) (← parseU64 lastBlock) hash
  | _ => none

/-- A text spelled as an id: its four parts and the numbers of the first three. -/
structure SpellsId (s : String) (top first last hash : String) (t f l : Nat) : Prop where
  text : s = top ++ "/" ++ first ++ "-" ++ last ++ "-" ++ hash
  top : Numeral top t
  first : Numeral first f
  last : Numeral last l
  fits : t < 2 ^ 64 ∧ f < 2 ^ 64 ∧ l < 2 ^ 64
  ascends : t ≤ f ∧ f ≤ l
  hashLength : 5 ≤ hash.length ∧ hash.length ≤ 8
  hashWord : ∀ c ∈ hash.toList, isWordChar c = true

/-- A character that is neither a digit nor a plus sign occurs in no numeral. -/
theorem not_mem_of_numeral {text : String} {n : Nat} {c : Char} (h : Numeral text n)
    (hdigit : c.isDigit = false) (hplus : c ≠ '+') : c ∉ text.toList := by
  obtain ⟨sign, digits, htext, hsign, -, hdigits, -⟩ := h
  rw [htext]
  intro hmem
  rcases List.mem_append.mp hmem with hmem | hmem
  · rcases hsign with rfl | rfl
    · exact List.not_mem_nil hmem
    · exact hplus (List.mem_singleton.mp hmem)
  · rw [hdigits c hmem] at hdigit
    cases hdigit

theorem isWordChar_ascii {c : Char} (h : isWordChar c = true) : c.toNat < 128 := by
  have hbound : ∀ d : Char, c.val ≤ d.val → d.toNat < 128 → c.toNat < 128 := by
    intro d hle hd
    exact Nat.lt_of_le_of_lt (UInt32.le_iff_toNat_le.mp hle) hd
  rcases Bool.or_eq_true_iff.mp h with halnum | hunderscore
  · rcases Bool.or_eq_true_iff.mp halnum with halpha | hdigit
    · rcases Bool.or_eq_true_iff.mp halpha with hupper | hlower
      · exact hbound 'Z' (of_decide_eq_true hupper).2 (by decide)
      · exact hbound 'z' (of_decide_eq_true (Bool.and_eq_true_iff.mp hlower).2) (by decide)
    · exact hbound '9' (of_decide_eq_true (Bool.and_eq_true_iff.mp hdigit).2) (by decide)
  · rw [beq_iff_eq.mp hunderscore]
    decide

/-- On ASCII the byte check and the character check agree. -/
theorem isWordByte_toUInt8 {c : Char} (h : c.toNat < 128) :
    isWordByte c.toUInt8 = isWordChar c := by
  have hall : ∀ n < 128, isWordByte (Char.ofNat n).toUInt8 = isWordChar (Char.ofNat n) := by
    decide
  rw [← Char.ofNat_toNat c]
  exact hall c.toNat h

/-- The hash check of the constructor on characters. -/
theorem validHash_iff_chars {hash : String} : validHash hash = true ↔
    (5 ≤ hash.length ∧ hash.length ≤ 8) ∧ ∀ c ∈ hash.toList, isWordChar c = true := by
  rw [validHash_iff]
  constructor
  · rintro ⟨hlength, hword⟩
    have hascii := ascii_of_asBytes fun b hb => isWordByte_lt (hword b hb)
    rw [asBytes_of_ascii hascii] at hlength hword
    rw [List.length_map, String.length_toList] at hlength
    refine ⟨hlength, fun c hc => ?_⟩
    rw [← isWordByte_toUInt8 (hascii c hc)]
    exact hword _ (List.mem_map_of_mem hc)
  · rintro ⟨hlength, hword⟩
    have hascii : ∀ c ∈ hash.toList, c.toNat < 128 := fun c hc => isWordChar_ascii (hword c hc)
    rw [asBytes_of_ascii hascii, List.length_map, String.length_toList]
    refine ⟨hlength, fun b hb => ?_⟩
    obtain ⟨c, hc, rfl⟩ := List.mem_map.mp hb
    rw [isWordByte_toUInt8 (hascii c hc)]
    exact hword c hc

/-- What the constructor returns has the given numbers and hash. -/
theorem DataChunk.new_eq_some {top first last : UInt64} {hash : String} {c : DataChunk} :
    new top first last hash = some c ↔ validHash hash = true ∧
      c.top = top ∧ c.firstBlock = first ∧ c.lastBlock = last ∧ c.lastHash = hash := by
  constructor
  · intro h
    unfold new at h
    split at h
    · next hvalid =>
      cases h
      refine ⟨hvalid.1, rfl, rfl, rfl, asBytes_injective ?_⟩
      rw [asBytes_lastHash]
      exact trimNul_padNul fun b hb => isWordByte_ne_zero ((validHash_iff.mp hvalid.1).2 b hb)
    · cases h
  · rintro ⟨hvalid, rfl, rfl, rfl, rfl⟩
    have hhash : padNul (asBytes c.lastHash) = c.hash := by
      rw [asBytes_lastHash, c.hashField.padded]
    rw [new, dif_pos ⟨hvalid, c.top_le, c.first_le⟩]
    simp only [hhash]

/-- Two splits at dashes give three pieces, of which the first two hold no dash. -/
theorem splitn_three_eq {s first last hash : String} : splitn 3 '-' s = [first, last, hash] ↔
    s.toList = first.toList ++ '-' :: (last.toList ++ '-' :: hash.toList) ∧
      '-' ∉ first.toList ∧ '-' ∉ last.toList := by
  constructor
  · intro h
    simp only [splitn] at h
    cases hfirst : splitOnce '-' s with
    | none => simp [hfirst] at h
    | some pieces =>
      obtain ⟨piece, rest⟩ := pieces
      cases hlast : splitOnce '-' rest with
      | none => simp [hfirst, hlast] at h
      | some pieces =>
        obtain ⟨piece', rest'⟩ := pieces
        simp only [hfirst, hlast, List.cons.injEq, and_true] at h
        obtain ⟨rfl, rfl, rfl⟩ := h
        obtain ⟨htext, hnot⟩ := splitOnce_eq_some.mp hfirst
        obtain ⟨htext', hnot'⟩ := splitOnce_eq_some.mp hlast
        exact ⟨by rw [htext, htext'], hnot, hnot'⟩
  · rintro ⟨htext, hfirst, hlast⟩
    have hrest : (String.ofList (last.toList ++ '-' :: hash.toList)).toList =
        last.toList ++ '-' :: hash.toList := String.toList_ofList
    have hsplit := splitOnce_eq_some.mpr ⟨htext.trans (by rw [hrest]), hfirst⟩
    have hsplit' := splitOnce_eq_some.mpr ⟨hrest, hlast⟩
    simp only [splitn, hsplit, hsplit']

/-- An id as characters, cut where the parser cuts it. -/
theorem spelled_toList {s top first last hash : String} :
    s = top ++ "/" ++ first ++ "-" ++ last ++ "-" ++ hash ↔
      s.toList = top.toList ++ '/' :: (first.toList ++ '-' :: (last.toList ++ '-' :: hash.toList))
      := by
  rw [← String.toList_inj]
  simp

/-- The parser cuts a text spelled as an id into the parts that spell it. -/
theorem SpellsId.splits {s top first last hash : String} {t f l : Nat}
    (h : SpellsId s top first last hash t f l) :
    ∃ range, splitOnce '/' s = some (top, range) ∧ splitn 3 '-' range = [first, last, hash] := by
  have hslash := not_mem_of_numeral h.top (c := '/') (by decide) (by decide)
  have hdash := not_mem_of_numeral h.first (c := '-') (by decide) (by decide)
  have hdash' := not_mem_of_numeral h.last (c := '-') (by decide) (by decide)
  let range := String.ofList (first.toList ++ '-' :: (last.toList ++ '-' :: hash.toList))
  have hrange : range.toList = first.toList ++ '-' :: (last.toList ++ '-' :: hash.toList) :=
    String.toList_ofList
  refine ⟨range, ?_, splitn_three_eq.mpr ⟨hrange, hdash, hdash'⟩⟩
  rw [splitOnce_eq_some, hrange]
  exact ⟨spelled_toList.mp h.text, hslash⟩

/-- Parsing succeeds exactly on texts spelled as ids, with the numbers and the hash spelled. -/
theorem DataChunk.fromStr_eq_some {s : String} {c : DataChunk} : fromStr s = some c ↔
    ∃ top first last, SpellsId s top first last c.lastHash c.top.toNat c.firstBlock.toNat
      c.lastBlock.toNat := by
  constructor
  · intro h
    obtain ⟨⟨top, range⟩, hsplit, h⟩ := Option.bind_eq_some_iff.mp h
    dsimp only at h
    split at h
    · next first last hash hpieces =>
      obtain ⟨t, ht, h⟩ := Option.bind_eq_some_iff.mp h
      obtain ⟨f, hf, h⟩ := Option.bind_eq_some_iff.mp h
      obtain ⟨l, hl, h⟩ := Option.bind_eq_some_iff.mp h
      obtain ⟨hvalid, rfl, rfl, rfl, rfl⟩ := new_eq_some.mp h
      obtain ⟨htext, -⟩ := splitOnce_eq_some.mp hsplit
      obtain ⟨hrange, -⟩ := splitn_three_eq.mp hpieces
      obtain ⟨hlength, hword⟩ := validHash_iff_chars.mp hvalid
      refine ⟨top, first, last, ?_, parseU64_eq_some.mp ht, parseU64_eq_some.mp hf,
        parseU64_eq_some.mp hl, ⟨c.top.toNat_lt, c.firstBlock.toNat_lt, c.lastBlock.toNat_lt⟩,
        ⟨UInt64.le_iff_toNat_le.mp c.top_le, UInt64.le_iff_toNat_le.mp c.first_le⟩, hlength, hword⟩
      rw [spelled_toList, htext, hrange]
    · cases h
  · rintro ⟨top, first, last, h⟩
    obtain ⟨range, hsplit, hpieces⟩ := h.splits
    have hnew : new c.top c.firstBlock c.lastBlock c.lastHash = some c :=
      new_eq_some.mpr ⟨validHash_iff_chars.mpr ⟨h.hashLength, h.hashWord⟩, rfl, rfl, rfl, rfl⟩
    simp only [fromStr, hsplit, Option.bind_eq_bind, Option.bind_some, hpieces,
      parseU64_eq_some.mpr h.top, parseU64_eq_some.mpr h.first, parseU64_eq_some.mpr h.last, hnew]

/-- A text spelled as an id is accepted, with what it spells. -/
theorem SpellsId.exists_fromStr {s top first last hash : String} {t f l : Nat}
    (h : SpellsId s top first last hash t f l) :
    ∃ c, DataChunk.fromStr s = some c ∧ c.top.toNat = t ∧ c.firstBlock.toNat = f ∧
      c.lastBlock.toNat = l ∧ c.lastHash = hash := by
  obtain ⟨ht, hf, hl⟩ := h.fits
  have hnat : (UInt64.ofNat t).toNat = t ∧ (UInt64.ofNat f).toNat = f ∧
      (UInt64.ofNat l).toNat = l :=
    ⟨UInt64.toNat_ofNat_of_lt' ht, UInt64.toNat_ofNat_of_lt' hf, UInt64.toNat_ofNat_of_lt' hl⟩
  have hvalid : validHash hash = true ∧ UInt64.ofNat t ≤ UInt64.ofNat f ∧
      UInt64.ofNat f ≤ UInt64.ofNat l := by
    simp only [UInt64.le_iff_toNat_le, hnat]
    exact ⟨validHash_iff_chars.mpr ⟨h.hashLength, h.hashWord⟩, h.ascends⟩
  obtain ⟨c, hc⟩ : ∃ c, DataChunk.new (UInt64.ofNat t) (UInt64.ofNat f) (UInt64.ofNat l) hash =
      some c := ⟨_, dif_pos hvalid⟩
  obtain ⟨-, htop, hfirst, hlast, hhash⟩ := DataChunk.new_eq_some.mp hc
  have hparts : c.top.toNat = t ∧ c.firstBlock.toNat = f ∧ c.lastBlock.toNat = l := by
    rw [htop, hfirst, hlast]
    exact hnat
  refine ⟨c, DataChunk.fromStr_eq_some.mpr ⟨top, first, last, ?_⟩, hparts.1, hparts.2.1,
    hparts.2.2, hhash⟩
  rw [hparts.1, hparts.2.1, hparts.2.2, hhash]
  exact h

/-- The parser accepts a text if and only if it is spelled as an id, and then returns what the
text spells. -/
theorem chunk_id_parser_exact (s : String) :
    ((DataChunk.fromStr s).isSome = true ↔
      ∃ top first last hash t f l, SpellsId s top first last hash t f l) ∧
    ∀ top first last hash t f l, SpellsId s top first last hash t f l →
      ∃ c, DataChunk.fromStr s = some c ∧ c.top.toNat = t ∧ c.firstBlock.toNat = f ∧
        c.lastBlock.toNat = l ∧ c.lastHash = hash := by
  refine ⟨⟨fun h => ?_, ?_⟩, fun top first last hash t f l h => h.exists_fromStr⟩
  · obtain ⟨c, hc⟩ := Option.isSome_iff_exists.mp h
    obtain ⟨top, first, last, h⟩ := DataChunk.fromStr_eq_some.mp hc
    exact ⟨top, first, last, _, _, _, _, h⟩
  · rintro ⟨top, first, last, hash, t, f, l, h⟩
    obtain ⟨c, hc, -⟩ := h.exists_fromStr
    rw [hc]
    rfl

end SqdNetwork
