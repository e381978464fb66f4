import SqdNetwork.Core.Outcome
import SqdNetwork.Core.Wire

/-!
# Compressed bit strings

A heartbeat carries the set of missing chunks as compressed bytes, each zero or one,
beside their number and the number of ones. The three fields reach the receiver as
the sender wrote them: reading them goes well exactly if the bytes decompress and
the two numbers describe them.
-/

namespace SqdNetwork.Messages

open SqdNetwork.Core

/-- What is used of a DEFLATE library; decompression may fail. -/
structure Deflate (Encoder : Type) where
  writeAll : List UInt8 → Option Encoder
  finish : Encoder → Option (List UInt8)
  readToEnd : List UInt8 → Option (List UInt8)

/-- What is compressed decompresses to itself. -/
def Deflate.Lossless {Encoder : Type} (codec : Deflate Encoder) : Prop :=
  ∀ bytes encoder data, codec.writeAll bytes = some encoder →
    codec.finish encoder = some data → codec.readToEnd data = some bytes

/-- Compressed bits with their number and the number of ones. -/
structure BitString where
  data : List UInt8
  size : UInt64
  ones : UInt64

/-- The bit a byte stands for. -/
def byteToBool (byte : UInt8) : Except String Bool :=
  if byte = 0 then .ok false
  else if byte = 1 then .ok true
  else .error "invalid boolean value in parsed BitString"

/-- The byte of a bit. -/
def boolToByte (bit : Bool) : UInt8 := if bit then 1 else 0

variable {Encoder : Type} (codec : Deflate Encoder)

namespace BitString

/-- Compress bits. -/
def new (slice : List Bool) : Exec BitString := do
  let encoder ← Exec.expect "Couldn't compress data" (codec.writeAll (slice.map boolToByte))
  let compressed ← Exec.expect "Couldn't finish compressing data" (codec.finish encoder)
  .ok { data := compressed
        size := UInt64.ofNat slice.length
        ones := UInt64.ofNat (slice.count true) }

/-- The decompressed bytes. -/
def toBytes (s : BitString) : Exec (List UInt8) :=
  Exec.expect "Couldn't decompress data" (codec.readToEnd s.data)

/-- The bits; a byte other than zero and one is an error. -/
def toVec (s : BitString) : Exec (Except String (List Bool)) := do
  let bytes ← s.toBytes codec
  .ok (bytes.mapM byteToBool)

/-- The number of zeros. -/
def zeros (profile : Profile) (s : BitString) : Exec UInt64 := Exec.subU64 profile s.size s.ones

/-- Reading is total: the bits or an error are returned, the number of zeros is the difference,
and bits that are returned are as many, with as many ones, as the fields say. -/
structure Handled (profile : Profile) (s : BitString) : Prop where
  toVec : (s.toVec codec).Returns
  zeros : ∃ z, s.zeros profile = .ok z ∧ z.toNat + s.ones.toNat = s.size.toNat
  fields : ∀ v, s.toVec codec = .ok (.ok v) →
    v.length = s.size.toNat ∧ v.count true = s.ones.toNat

/-- The data decompresses, there are no more ones than bits, and bytes that are all bits are as
many, with as many ones, as the fields say. -/
def WellFormed (s : BitString) : Prop :=
  ∃ bytes, codec.readToEnd s.data = some bytes ∧ s.ones ≤ s.size ∧
    ((∀ b ∈ bytes, b = 0 ∨ b = 1) →
      bytes.length = s.size.toNat ∧ bytes.count 1 = s.ones.toNat)

end BitString

theorem byteToBool_eq_ok {byte : UInt8} {bit : Bool} :
    byteToBool byte = .ok bit ↔ (byte = 0 ∨ byte = 1) ∧ bit = (byte == 1) := by
  unfold byteToBool
  split
  · next hzero =>
    subst hzero
    simp [eq_comm]
  · next hzero =>
    split
    · next hone =>
      subst hone
      simp [eq_comm]
    · next hone => simp [hzero, hone]

/-- Bytes are read as bits exactly if each is zero or one. -/
theorem mapM_byteToBool_eq_ok {bytes : List UInt8} {v : List Bool} :
    bytes.mapM byteToBool = .ok v ↔ (∀ b ∈ bytes, b = 0 ∨ b = 1) ∧ v = bytes.map (· == 1) := by
  induction bytes generalizing v with
  | nil =>
    rw [List.mapM_nil, List.map_nil]
    constructor
    · intro h
      cases h
      exact ⟨fun b hb => absurd hb List.not_mem_nil, rfl⟩
    · rintro ⟨-, rfl⟩
      rfl
  | cons b bytes ih =>
    rw [List.mapM_cons, List.forall_mem_cons, List.map_cons]
    cases hbit : byteToBool b with
    | error e =>
      refine iff_of_false (fun h => by cases h) ?_
      rintro ⟨⟨hb, -⟩, -⟩
      rw [byteToBool_eq_ok.mpr ⟨hb, rfl⟩] at hbit
      cases hbit
    | ok bit =>
      obtain ⟨hb, rfl⟩ := byteToBool_eq_ok.mp hbit
      cases hrest : bytes.mapM byteToBool with
      | error e =>
        refine iff_of_false (fun h => by cases h) ?_
        rintro ⟨⟨-, hbytes⟩, -⟩
        rw [ih.mpr ⟨hbytes, rfl⟩] at hrest
        cases hrest
      | ok rest =>
        obtain ⟨hbytes, rfl⟩ := ih.mp hrest
        constructor
        · intro h
          cases h
          exact ⟨⟨hb, hbytes⟩, rfl⟩
        · rintro ⟨-, rfl⟩
          rfl

theorem count_true_map (bytes : List UInt8) :
    (bytes.map (· == 1)).count true = bytes.count 1 := by
  rw [List.count, List.countP_map, List.count]
  congr 1
  ext b
  exact beq_true (b == 1)

namespace BitString

variable {codec} {s : BitString}

/-- The bits are returned exactly if the data decompresses to bytes that are all bits. -/
theorem toVec_eq_ok {v : List Bool} : s.toVec codec = .ok (.ok v) ↔
    ∃ bytes, codec.readToEnd s.data = some bytes ∧ (∀ b ∈ bytes, b = 0 ∨ b = 1) ∧
      v = bytes.map (· == 1) := by
  rw [toVec, toBytes]
  cases codec.readToEnd s.data with
  | none => simp [Exec.expect]
  | some bytes =>
    rw [Exec.expect_some, Exec.ok_bind, Except.ok.injEq, mapM_byteToBool_eq_ok]
    simp

theorem returns_toVec_iff :
    (s.toVec codec).Returns ↔ ∃ bytes, codec.readToEnd s.data = some bytes := by
  rw [toVec, toBytes]
  cases codec.readToEnd s.data with
  | none =>
    refine iff_of_false ?_ (by simp)
    rintro ⟨v, hv⟩
    cases hv
  | some bytes => exact iff_of_true ⟨_, rfl⟩ ⟨bytes, rfl⟩

/-- The number of zeros neither panics nor wraps exactly if there are no more ones than bits. -/
theorem exists_zeros_iff {profile : Profile} :
    (∃ z, s.zeros profile = .ok z ∧ z.toNat + s.ones.toNat = s.size.toNat) ↔
      s.ones ≤ s.size := by
  constructor
  · rintro ⟨z, -, hz⟩
    rw [UInt64.le_iff_toNat_le]
    omega
  · intro hle
    refine ⟨s.size - s.ones, Exec.subU64_eq_ok hle, ?_⟩
    rw [UInt64.toNat_sub_of_le _ _ hle]
    have hnat := UInt64.le_iff_toNat_le.mp hle
    omega

theorem map_boolToByte (slice : List Bool) : (slice.map boolToByte).map (· == 1) = slice := by
  rw [List.map_map]
  conv_rhs => rw [← List.map_id slice]
  apply List.map_congr_left
  intro bit _
  cases bit <;> rfl

/-- Bits that were compressed are read back, and their fields describe them. -/
theorem toVec_new (hcodec : codec.Lossless) {slice : List Bool} (hlength : slice.length < 2 ^ 64)
    (h : new codec slice = .ok s) : s.toVec codec = .ok (.ok slice) ∧ s.WellFormed codec := by
  obtain ⟨encoder, hencoder, h⟩ := Exec.bind_eq_ok.mp h
  obtain ⟨compressed, hcompressed, h⟩ := Exec.bind_eq_ok.mp h
  cases h
  have hdata := hcodec _ encoder compressed (Exec.expect_eq_ok hencoder)
    (Exec.expect_eq_ok hcompressed)
  have hcount : slice.count true ≤ slice.length := List.count_le_length
  have hsize : (UInt64.ofNat slice.length).toNat = slice.length :=
    UInt64.toNat_ofNat_of_lt' hlength
  have hones : (UInt64.ofNat (slice.count true)).toNat = slice.count true :=
    UInt64.toNat_ofNat_of_lt' (hcount.trans_lt hlength)
  have hbits : ∀ b ∈ slice.map boolToByte, b = 0 ∨ b = 1 := by
    intro b hb
    obtain ⟨bit, -, rfl⟩ := List.mem_map.mp hb
    cases bit
    · exact Or.inl rfl
    · exact Or.inr rfl
  refine ⟨toVec_eq_ok.mpr ⟨_, hdata, hbits, (map_boolToByte slice).symm⟩, _, hdata, ?_, ?_⟩
  · rw [UInt64.le_iff_toNat_le, hones, hsize]
    exact hcount
  · intro _
    rw [List.length_map, hsize, hones, ← count_true_map, map_boolToByte]
    exact ⟨rfl, rfl⟩

end BitString

/-- A received bit string is read without panic, wrap or contradiction if and only if its data
decompresses and its two numbers describe what it decompresses to. -/
theorem bit_string_handled_iff {Encoder : Type} (codec : Deflate Encoder) (profile : Profile)
    (s : BitString) : s.Handled codec profile ↔ s.WellFormed codec := by
  constructor
  · intro h
    obtain ⟨bytes, hbytes⟩ := BitString.returns_toVec_iff.mp h.toVec
    refine ⟨bytes, hbytes, BitString.exists_zeros_iff.mp h.zeros, fun hbits => ?_⟩
    have hfields := h.fields _ (BitString.toVec_eq_ok.mpr ⟨bytes, hbytes, hbits, rfl⟩)
    rwa [List.length_map, count_true_map] at hfields
  · rintro ⟨bytes, hbytes, hle, hfields⟩
    refine ⟨BitString.returns_toVec_iff.mpr ⟨bytes, hbytes⟩,
      BitString.exists_zeros_iff.mpr hle, ?_⟩
    intro v hv
    obtain ⟨bytes', hbytes', hbits, rfl⟩ := BitString.toVec_eq_ok.mp hv
    obtain rfl : bytes = bytes' := Option.some.inj (hbytes.symm.trans hbytes')
    rw [List.length_map, count_true_map]
    exact hfields hbits

/-- The stored blocks of DEFLATE, one per stream. -/
def storedBlocks : Deflate (List UInt8) where
  writeAll := some
  finish := fun bytes =>
    if bytes.length < 65536 then
      some (1 :: leBytes 2 bytes.length ++ leBytes 2 (65535 - bytes.length) ++ bytes)
    else none
  readToEnd := fun data =>
    match data with
    | 1 :: low :: high :: _ :: _ :: bytes =>
      if bytes.length = low.toNat + 256 * high.toNat then some bytes else none
    | _ => none

/-- Data that is no stream, more ones than bits, and two bits that should be three. -/
theorem bit_strings_mishandled :
    (BitString.toVec storedBlocks ⟨[255], 0, 0⟩ = .error (.expectFailed "Couldn't decompress data")
      ∧ ¬ BitString.Handled storedBlocks .release ⟨[255], 0, 0⟩) ∧
    (BitString.zeros .debug ⟨[1, 0, 0, 255, 255], 0, 1⟩ = .error .overflow
      ∧ BitString.zeros .release ⟨[1, 0, 0, 255, 255], 0, 1⟩ = .ok 18446744073709551615
      ∧ ¬ BitString.Handled storedBlocks .release ⟨[1, 0, 0, 255, 255], 0, 1⟩) ∧
    BitString.toVec storedBlocks ⟨[1, 2, 0, 253, 255, 1, 1], 3, 0⟩ = .ok (.ok [true, true])
      ∧ ¬ BitString.Handled storedBlocks .release ⟨[1, 2, 0, 253, 255, 1, 1], 3, 0⟩ := by
  refine ⟨⟨rfl, fun h => ?_⟩, ⟨rfl, rfl, fun h => ?_⟩, rfl, fun h => ?_⟩
  · obtain ⟨bytes, hbytes⟩ := BitString.returns_toVec_iff.mp h.toVec
    cases hbytes
  · exact absurd (BitString.exists_zeros_iff.mp h.zeros) (by decide)
  · exact absurd (h.fields [true, true] rfl).1 (by decide)

end SqdNetwork.Messages
