import SqdNetwork.DataChunk.FromStr

/-!
# Printing chunk ids and reading them back

A printed id is parsed back to the chunk it names, however wide its numbers are.
The parser also accepts other spellings of the numbers; the printed one is the only
spelling whose numbers are plain decimals of ten digits, or more where ten are too
few.
-/

namespace SqdNetwork

open SqdNetwork.Core

/-- A padded text without a sign spells the value of its digits. -/
theorem decimalFrom_of_numeral {width n : Nat} {text : String} (hpadded : Padded width text)
    (h : Numeral text n) : decimalFrom 0 text.toList = n := by
  obtain ⟨sign, digits, htext, rfl | rfl, -, -, hvalue⟩ := h
  · rwa [htext]
  · have hplus := hpadded.digits '+' (htext ▸ List.mem_cons_self)
    exact absurd hplus (by decide)

theorem numeral_zeroPadded {width : Nat} (hwidth : 0 < width) (n : Nat) :
    Numeral (zeroPadded width n) n := by
  have hpadded := padded_zeroPadded hwidth n
  have hne : (zeroPadded width n).toList ≠ [] := by
    intro hnil
    have hwide := hpadded.wide
    rw [hnil, List.length_nil] at hwide
    omega
  exact ⟨[], (zeroPadded width n).toList, (List.nil_append _).symm, Or.inl rfl, hne,
    hpadded.digits, decimalFrom_zeroPadded width n⟩

/-- Of the numerals of a number the padded one is the one that is printed. -/
theorem padded_iff_of_numeral {width n : Nat} (hwidth : 0 < width) {text : String}
    (h : Numeral text n) : Padded width text ↔ text = zeroPadded width n := by
  constructor
  · intro hpadded
    exact (padded_iff_eq_zeroPadded hwidth (decimalFrom_of_numeral hpadded h)).mp hpadded
  · rintro rfl
    exact padded_zeroPadded hwidth n

/-- A text is spelled as an id in one way. -/
theorem SpellsId.parts_unique {s top first last hash top' first' last' hash' : String}
    {t f l t' f' l' : Nat} (h : SpellsId s top first last hash t f l)
    (h' : SpellsId s top' first' last' hash' t' f' l') :
    top = top' ∧ first = first' ∧ last = last' ∧ hash = hash' := by
  obtain ⟨range, hsplit, hpieces⟩ := h.splits
  obtain ⟨range', hsplit', hpieces'⟩ := h'.splits
  rw [hsplit, Option.some.injEq, Prod.mk.injEq] at hsplit'
  obtain ⟨rfl, rfl⟩ := hsplit'
  rw [hpieces] at hpieces'
  simpa using hpieces'

namespace DataChunk

theorem validHash_lastHash (c : DataChunk) : validHash c.lastHash = true := by
  rw [validHash_iff, asBytes_lastHash]
  exact ⟨c.hashField.length, c.hashField.word⟩

/-- The printed id spells the chunk. -/
theorem spellsId_toString (c : DataChunk) :
    SpellsId c.toString (zeroPadded 10 c.top.toNat) (zeroPadded 10 c.firstBlock.toNat)
      (zeroPadded 10 c.lastBlock.toNat) c.lastHash c.top.toNat c.firstBlock.toNat
      c.lastBlock.toNat where
  text := rfl
  top := numeral_zeroPadded (by decide) _
  first := numeral_zeroPadded (by decide) _
  last := numeral_zeroPadded (by decide) _
  fits := ⟨c.top.toNat_lt, c.firstBlock.toNat_lt, c.lastBlock.toNat_lt⟩
  ascends := ⟨UInt64.le_iff_toNat_le.mp c.top_le, UInt64.le_iff_toNat_le.mp c.first_le⟩
  hashLength := (validHash_iff_chars.mp c.validHash_lastHash).1
  hashWord := (validHash_iff_chars.mp c.validHash_lastHash).2

theorem fromStr_toString (c : DataChunk) : fromStr c.toString = some c :=
  fromStr_eq_some.mpr ⟨_, _, _, c.spellsId_toString⟩

theorem toString_inj {c c' : DataChunk} : c.toString = c'.toString ↔ c = c' := by
  constructor
  · intro h
    have hparsed := c'.fromStr_toString
    rw [← h, fromStr_toString] at hparsed
    exact Option.some.inj hparsed
  · rintro rfl
    rfl

/-- A parsed text is the printed id exactly if the numbers in it are padded. -/
theorem eq_toString_iff {s top first last hash : String} {t f l : Nat} {c : DataChunk}
    (hparsed : fromStr s = some c) (h : SpellsId s top first last hash t f l) :
    s = c.toString ↔ Padded 10 top ∧ Padded 10 first ∧ Padded 10 last := by
  obtain ⟨c', hc', rfl, rfl, rfl, rfl⟩ := h.exists_fromStr
  obtain rfl : c = c' := Option.some.inj (hparsed.symm.trans hc')
  rw [padded_iff_of_numeral (by decide) h.top, padded_iff_of_numeral (by decide) h.first,
    padded_iff_of_numeral (by decide) h.last]
  constructor
  · intro hs
    have hprinted := c.spellsId_toString
    rw [← hs] at hprinted
    obtain ⟨htop, hfirst, hlast, -⟩ := h.parts_unique hprinted
    exact ⟨htop, hfirst, hlast⟩
  · rintro ⟨rfl, rfl, rfl⟩
    exact h.text

end DataChunk

/-- Every chunk is parsed back from its printed id, which no other chunk has; and a text that
parses to the chunk spells it in exactly one way, which is the printed one if and only if its three
numbers are unsigned decimals padded to ten digits and not longer than needed. -/
theorem chunk_id_round_trip (c : DataChunk) :
    DataChunk.fromStr (toString c) = some c ∧
    (∀ c' : DataChunk, toString c = toString c' ↔ c = c') ∧
    ∀ s, DataChunk.fromStr s = some c →
      (∃ top first last, SpellsId s top first last c.lastHash c.top.toNat c.firstBlock.toNat
        c.lastBlock.toNat) ∧
      ∀ top first last hash t f l, SpellsId s top first last hash t f l →
        (s = toString c ↔ Padded 10 top ∧ Padded 10 first ∧ Padded 10 last) := by
  refine ⟨c.fromStr_toString, fun c' => DataChunk.toString_inj, ?_⟩
  intro s hparsed
  refine ⟨DataChunk.fromStr_eq_some.mp hparsed, ?_⟩
  intro top first last hash t f l h
  exact DataChunk.eq_toString_iff hparsed h

end SqdNetwork
