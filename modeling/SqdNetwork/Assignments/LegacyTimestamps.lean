import SqdNetwork.Assignments.LegacyRouting
import SqdNetwork.Assignments.Timestamps

/-!
# Timestamp lookups before and after the split

The legacy reader searches the chunk tables for a timestamp, reading a missing one as
zero, and walks back along the chunks that record it. The portal column stores zeros for
missing timestamps. Both come to the first chunk that is not earlier, except that the
search for zero can meet a missing timestamp, from which there is no walk back.
-/

namespace SqdNetwork.Assignments

open SqdNetwork.Core

/-- The timestamp of a chunk, zero if it is missing. -/
def Chunk.timestamp (chunk : Chunk) : UInt64 := chunk.lastBlockTimestamp.getD 0

/-- How many leading chunks read as zero. -/
def leadingZeros (chunks : List Chunk) : Nat :=
  (chunks.takeWhile fun chunk => chunk.timestamp = 0).length

/-- Of the chunks that read as zero, the one the halving comes to first is the first chunk, or it
and all before it record a zero. With `n` chunks the halving comes to the positions right below
`(n + 1) / 2`, `(n + 1) / 4` and so on. -/
def ZerosRecorded (chunks : List Chunk) : Prop :=
  ∀ k, (chunks.length + 1) >>> (k + 1) ≤ leadingZeros chunks →
    leadingZeros chunks < (chunks.length + 1) >>> k →
      (chunks.length + 1) >>> (k + 1) ≤ 1 ∨
      ∀ i chunk, i < (chunks.length + 1) >>> (k + 1) → chunks[i]? = some chunk →
        chunk.lastBlockTimestamp = some 0

/-- The legacy answer for a number of earlier chunks. -/
def positionAnswer (count index : Nat) : Except ChunkNotFound Nat :=
  if index = count then .error .afterLast else .ok index

theorem Chunk.lastBlockTimestamp_eq_some {chunk : Chunk} {ts : UInt64} (hts : ts ≠ 0) :
    chunk.lastBlockTimestamp = some ts ↔ chunk.timestamp = ts := by
  unfold Chunk.timestamp
  cases chunk.lastBlockTimestamp with
  | none => simp [hts.symm]
  | some timestamp => simp

theorem Chunk.timestamp_of_recorded {chunk : Chunk} {ts : UInt64}
    (h : chunk.lastBlockTimestamp = some ts) : chunk.timestamp = ts := by
  rw [Chunk.timestamp, h, Option.getD_some]

/-- Down from a position, the run of chunks that record the timestamp starts at `start`. -/
structure RunStart (chunks : List Chunk) (ts : UInt64) (index start : Nat) : Prop where
  le : start ≤ index + 1
  recorded : ∀ j chunk, start ≤ j → j ≤ index → chunks[j]? = some chunk →
    chunk.lastBlockTimestamp = some ts
  before : ∀ j chunk, j + 1 = start → chunks[j]? = some chunk →
    chunk.lastBlockTimestamp ≠ some ts

theorem RunStart.of_other {chunks : List Chunk} {ts : UInt64} {index : Nat} {chunk : Chunk}
    (hat : chunks[index]? = some chunk) (hother : chunk.lastBlockTimestamp ≠ some ts) :
    RunStart chunks ts index (index + 1) where
  le := Nat.le_refl _
  recorded := by
    intro j _ hle hge
    omega
  before := by
    intro j other hj hother'
    obtain rfl := Nat.succ.inj hj
    obtain rfl := Option.some.inj (hat.symm.trans hother')
    exact hother

theorem RunStart.extend {chunks : List Chunk} {ts : UInt64} {index start : Nat} {chunk : Chunk}
    (h : RunStart chunks ts index start) (hat : chunks[index + 1]? = some chunk)
    (hrun : chunk.lastBlockTimestamp = some ts) : RunStart chunks ts (index + 1) start where
  le := Nat.le_succ_of_le h.le
  recorded := by
    intro j other hle hge hother
    rcases Nat.lt_or_eq_of_le hge with hlt | rfl
    · exact h.recorded j other hle (Nat.le_of_lt_succ hlt) hother
    · obtain rfl := Option.some.inj (hat.symm.trans hother)
      exact hrun
  before := h.before

/-- The walk ends where the run of chunks that record the timestamp starts. -/
theorem walkBack_spec {chunks : List Chunk} {ts : UInt64} {index : Nat}
    (hindex : index < chunks.length) :
    ∃ start, walkBack chunks ts index = .ok start ∧ RunStart chunks ts index start := by
  induction index with
  | zero =>
    have hat := List.getElem?_eq_getElem hindex
    rw [walkBack, Exec.index_of_lt hindex, Exec.ok_bind]
    split
    · next hother => exact ⟨1, rfl, RunStart.of_other hat hother⟩
    · next hrun =>
      refine ⟨0, rfl, Nat.zero_le _, ?_, ?_⟩
      · intro j chunk _ hj hchunk
        obtain rfl := Nat.le_zero.mp hj
        obtain rfl := Option.some.inj (hat.symm.trans hchunk)
        exact not_not.mp hrun
      · intro j _ hj
        omega
  | succ index ih =>
    have hat := List.getElem?_eq_getElem hindex
    rw [walkBack, Exec.index_of_lt hindex, Exec.ok_bind]
    split
    · next hother => exact ⟨index + 2, rfl, RunStart.of_other hat hother⟩
    · next hrun =>
      obtain ⟨start, hwalk, hstart⟩ := ih (Nat.lt_of_succ_lt hindex)
      exact ⟨start, hwalk, hstart.extend hat (not_not.mp hrun)⟩

/-- A chunk that does not record the timestamp is not left. -/
theorem toRunStart_of_other {chunks : List Chunk} {ts : UInt64} {index : Nat} {chunk : Chunk}
    (hat : chunks[index]? = some chunk) (hother : chunk.lastBlockTimestamp ≠ some ts) :
    toRunStart chunks ts index = .ok index := by
  rw [toRunStart, Exec.index_eq_ok hat, Exec.ok_bind, if_neg hother]

/-- A chunk that records the timestamp is left for the start of its run. -/
theorem toRunStart_of_recorded {chunks : List Chunk} {ts : UInt64} {index : Nat} {chunk : Chunk}
    (hat : chunks[index]? = some chunk) (hrun : chunk.lastBlockTimestamp = some ts) :
    ∃ start, toRunStart chunks ts index = .ok start ∧ start ≤ index ∧
      RunStart chunks ts index start := by
  obtain ⟨start, hwalk, hstart⟩ := walkBack_spec (List.getElem?_eq_some_iff.mp hat).1
  refine ⟨start, ?_, ?_, hstart⟩
  · rw [toRunStart, Exec.index_eq_ok hat, Exec.ok_bind, if_pos hrun, hwalk]
  · rcases Nat.lt_or_eq_of_le hstart.le with hlt | rfl
    · exact Nat.le_of_lt_succ hlt
    · exact absurd hrun (hstart.before index chunk rfl hat)

/-- The first chunk is come to exactly from itself or along chunks that all record the
timestamp. -/
theorem toRunStart_eq_zero {chunks : List Chunk} {ts : UInt64} {index : Nat}
    (hindex : index < chunks.length) :
    toRunStart chunks ts index = .ok 0 ↔ index = 0 ∨
      ∀ i chunk, i ≤ index → chunks[i]? = some chunk → chunk.lastBlockTimestamp = some ts := by
  have hat := List.getElem?_eq_getElem hindex
  by_cases hrun : chunks[index].lastBlockTimestamp = some ts
  · obtain ⟨start, hwalk, hstart, hrunStart⟩ := toRunStart_of_recorded hat hrun
    rw [hwalk]
    constructor
    · intro h
      obtain rfl := Except.ok.inj h
      right
      intro i chunk hi hchunk
      exact hrunStart.recorded i chunk (Nat.zero_le _) hi hchunk
    · intro h
      cases start with
      | zero => rfl
      | succ j =>
        have hj := List.getElem?_eq_getElem (show j < chunks.length by omega)
        rcases h with hzero | hall
        · omega
        · exact absurd (hall j _ (by omega) hj) (hrunStart.before j _ rfl hj)
  · rw [toRunStart_of_other hat hrun]
    constructor
    · intro h
      exact Or.inl (Except.ok.inj h)
    · rintro (rfl | hall)
      · rfl
      · exact absurd (hall index _ (Nat.le_refl _) hat) hrun

/-- A search without an equal element goes on where elements stop being less. -/
theorem searchStart_of_missed {f : Nat → Ordering} {len : Nat} {below : Option Nat}
    (h : SearchEnd f len (.error below)) :
    ∃ k, k ≤ len ∧ searchStart len (.error below) = positionAnswer len k ∧
      (∀ i, i + 1 = k → f i = .lt) ∧ (k < len → f k = .gt) := by
  cases below with
  | none =>
    refine ⟨0, Nat.zero_le _, ?_, ?_, ?_⟩
    · simp only [searchStart, positionAnswer, ite_not, eq_comm]
    · intro i hi
      omega
    · intro hlen
      exact h.resolve_left (Nat.ne_of_gt hlen)
  | some i =>
    obtain ⟨hi, hlt, hnext⟩ := h
    refine ⟨i + 1, hi, ?_, ?_, ?_⟩
    · rw [searchStart, positionAnswer]
      rcases Nat.lt_or_eq_of_le (Nat.succ_le_of_lt hi) with hlt | heq
      · rw [if_pos hlt, if_neg (Nat.ne_of_lt hlt)]
      · rw [if_neg (Nat.not_lt.mpr (Nat.le_of_eq heq.symm)), if_pos heq]
    · intro j hj
      rw [Nat.succ.inj hj]
      exact hlt
    · intro hlen
      exact hnext.resolve_left (Nat.ne_of_lt hlen)

section Search

variable {chunks : List Chunk} {ts : UInt64}

/-- The comparison at a position. -/
theorem keyOrder_timestamp {i : Nat} {chunk : Chunk} (hat : chunks[i]? = some chunk) :
    keyOrder chunks (fun chunk => compare chunk.timestamp ts) i = compare chunk.timestamp ts := by
  obtain ⟨hi, rfl⟩ := List.getElem?_eq_some_iff.mp hat
  exact keyOrder_of_lt hi

/-- What the lookup searches for and goes on with. -/
theorem timestampIndex_eq {found : Except (Option Nat) Nat}
    (hfound : signedIndex (keyOrder chunks fun chunk => compare chunk.timestamp ts) (-1)
      chunks.length = found) :
    SearchEnd (keyOrder chunks fun chunk => compare chunk.timestamp ts) chunks.length found ∧
      timestampIndex chunks ts = resume chunks ts (searchStart chunks.length found) := by
  obtain ⟨hsearch, hend⟩ := binarySearchBy_spec chunks fun chunk => compare chunk.timestamp ts
  rw [hfound] at hsearch hend
  refine ⟨hend, ?_⟩
  unfold Chunk.timestamp at hsearch
  rw [timestampIndex, hsearch, Exec.ok_bind]

variable (hsorted : (chunks.map Chunk.timestamp).Pairwise (· ≤ ·))

include hsorted

/-- The number of earlier chunks is where they stop being earlier. -/
theorem earlier_chunks_eq {k : Nat} (hk : k ≤ chunks.length)
    (hbefore : ∀ i chunk, i + 1 = k → chunks[i]? = some chunk → chunk.timestamp < ts)
    (hat : ∀ chunk, chunks[k]? = some chunk → ts ≤ chunk.timestamp) :
    earlier (chunks.map Chunk.timestamp) ts = k := by
  apply earlier_eq hsorted (List.length_map Chunk.timestamp ▸ hk)
  · intro i timestamp hi htimestamp
    rw [List.getElem?_map] at htimestamp
    obtain ⟨chunk, hchunk, rfl⟩ := Option.map_eq_some_iff.mp htimestamp
    exact hbefore i chunk hi hchunk
  · intro timestamp htimestamp
    rw [List.getElem?_map] at htimestamp
    obtain ⟨chunk, hchunk, rfl⟩ := Option.map_eq_some_iff.mp htimestamp
    exact hat chunk hchunk

/-- A chunk does not come before an earlier one. -/
theorem timestamp_le {i j : Nat} {a b : Chunk} (hij : i ≤ j) (ha : chunks[i]? = some a)
    (hb : chunks[j]? = some b) : a.timestamp ≤ b.timestamp := by
  rcases Nat.lt_or_eq_of_le hij with hlt | rfl
  · obtain ⟨hi, rfl⟩ := List.getElem?_eq_some_iff.mp ha
    obtain ⟨hj, rfl⟩ := List.getElem?_eq_some_iff.mp hb
    exact List.pairwise_iff_getElem.mp (List.pairwise_map.mp hsorted) i j hi hj hlt
  · obtain rfl := Option.some.inj (ha.symm.trans hb)
    exact UInt64.le_refl _

/-- A search without an equal timestamp leads to the first chunk that is not earlier. -/
theorem timestampIndex_of_missed {below : Option Nat}
    (hfound : signedIndex (keyOrder chunks fun chunk => compare chunk.timestamp ts) (-1)
      chunks.length = .error below) :
    timestampIndex chunks ts =
      .ok (positionAnswer chunks.length (earlier (chunks.map Chunk.timestamp) ts)) := by
  obtain ⟨hend, hindex⟩ := timestampIndex_eq hfound
  obtain ⟨k, hk, hstart, hbefore, hafter⟩ := searchStart_of_missed hend
  have hlater : ∀ chunk, chunks[k]? = some chunk → ts < chunk.timestamp := by
    intro chunk hchunk
    have hgt := hafter (List.getElem?_eq_some_iff.mp hchunk).1
    rw [keyOrder_timestamp hchunk] at hgt
    exact Std.compare_eq_gt.mp hgt
  have hearlier : earlier (chunks.map Chunk.timestamp) ts = k := by
    apply earlier_chunks_eq hsorted hk
    · intro i chunk hi hchunk
      have hlt := hbefore i hi
      rw [keyOrder_timestamp hchunk] at hlt
      exact Std.compare_eq_lt.mp hlt
    · intro chunk hchunk
      exact UInt64.le_of_lt (hlater chunk hchunk)
  rw [hindex, hstart, hearlier, positionAnswer]
  split
  · rfl
  · next hne =>
    have hat := List.getElem?_eq_getElem (Nat.lt_of_le_of_ne hk hne)
    have hother : chunks[k].lastBlockTimestamp ≠ some ts := by
      intro hrun
      have hlt := hlater _ hat
      rw [Chunk.timestamp_of_recorded hrun] at hlt
      exact UInt64.lt_irrefl _ hlt
    rw [resume, toRunStart_of_other hat hother, Exec.ok_map]

/-- A timestamp other than zero is found at the first chunk that is not earlier. -/
theorem timestampIndex_of_ne_zero (hts : ts ≠ 0) :
    timestampIndex chunks ts =
      .ok (positionAnswer chunks.length (earlier (chunks.map Chunk.timestamp) ts)) := by
  cases hfound : signedIndex (keyOrder chunks fun chunk => compare chunk.timestamp ts) (-1)
      chunks.length with
  | error below => exact timestampIndex_of_missed hsorted hfound
  | ok index =>
    obtain ⟨⟨hlt, heq⟩, hindex⟩ := timestampIndex_eq hfound
    have hat := List.getElem?_eq_getElem hlt
    rw [keyOrder_timestamp hat] at heq
    have htimestamp : chunks[index].timestamp = ts := Std.LawfulEqCmp.eq_of_compare heq
    obtain ⟨start, hwalk, hle, hrun⟩ := toRunStart_of_recorded hat
      ((Chunk.lastBlockTimestamp_eq_some hts).mpr htimestamp)
    have hstart : ∀ chunk, chunks[start]? = some chunk → chunk.timestamp = ts := by
      intro chunk hchunk
      exact Chunk.timestamp_of_recorded
        (hrun.recorded start chunk (Nat.le_refl _) hle hchunk)
    have hearlier : earlier (chunks.map Chunk.timestamp) ts = start := by
      apply earlier_chunks_eq hsorted (by omega)
      · intro i chunk hi hchunk
        have hne := hrun.before i chunk hi hchunk
        rw [ne_eq, Chunk.lastBlockTimestamp_eq_some hts] at hne
        have hmono := timestamp_le hsorted (by omega) hchunk hat
        rw [htimestamp] at hmono
        exact UInt64.lt_of_le_of_ne hmono hne
      · intro chunk hchunk
        exact UInt64.le_of_eq (hstart chunk hchunk).symm
    rw [hindex, searchStart, resume, hwalk, Exec.ok_map, hearlier, positionAnswer,
      if_neg (by omega)]

/-- The chunks that read as zero come first. -/
theorem lt_leadingZeros_iff {i : Nat} {chunk : Chunk} (hat : chunks[i]? = some chunk) :
    i < leadingZeros chunks ↔ chunk.timestamp = 0 := by
  obtain ⟨hi, rfl⟩ := List.getElem?_eq_some_iff.mp hat
  have hclosed : chunks.Pairwise fun a b =>
      decide (b.timestamp = 0) = true → decide (a.timestamp = 0) = true := by
    refine (List.pairwise_map.mp hsorted).imp ?_
    intro a b hab hb
    rw [decide_eq_true_eq] at hb ⊢
    exact UInt64.le_zero_iff.mp (hb ▸ hab)
  rw [leadingZeros, ← lt_length_takeWhile hclosed hi, decide_eq_true_eq]

/-- Nothing is earlier than zero. -/
theorem earlier_zero : earlier (chunks.map Chunk.timestamp) 0 = 0 := by
  apply earlier_chunks_eq hsorted (Nat.zero_le _)
  · intro i chunk hi
    omega
  · intro chunk _
    exact UInt64.zero_le

/-- The search for zero comes to the first halved position among the zeros. -/
theorem signedIndex_zero (hzeros : 0 < leadingZeros chunks) :
    ∃ k, (chunks.length + 1) >>> (k + 1) ≤ leadingZeros chunks ∧
      leadingZeros chunks < (chunks.length + 1) >>> k ∧
      signedIndex (keyOrder chunks fun chunk => compare chunk.timestamp 0) (-1) chunks.length =
        .ok ((chunks.length + 1) >>> (k + 1) - 1) := by
  have hle : leadingZeros chunks ≤ chunks.length := (List.takeWhile_sublist _).length_le
  apply signedIndex_leading_eq hzeros hle
  · intro i hi
    have hat := List.getElem?_eq_getElem (show i < chunks.length by omega)
    rw [keyOrder_timestamp hat, (lt_leadingZeros_iff hsorted hat).mp hi]
    rfl
  · intro i hi hlen
    have hat := List.getElem?_eq_getElem hlen
    have hne : chunks[i].timestamp ≠ 0 := by
      intro hzero
      have hlt := (lt_leadingZeros_iff hsorted hat).mpr hzero
      omega
    rw [keyOrder_timestamp hat, Std.compare_eq_gt]
    exact UInt64.pos_iff_ne_zero.mpr hne

/-- Without chunks that read as zero the lookup of zero gives the first chunk. -/
theorem timestampIndex_zero_of_none (hzeros : leadingZeros chunks = 0) :
    timestampIndex chunks 0 = .ok (positionAnswer chunks.length 0) := by
  cases hfound : signedIndex (keyOrder chunks fun chunk => compare chunk.timestamp 0) (-1)
      chunks.length with
  | error below => exact earlier_zero hsorted ▸ timestampIndex_of_missed hsorted hfound
  | ok index =>
    obtain ⟨⟨hlt, heq⟩, -⟩ := timestampIndex_eq hfound
    have hat := List.getElem?_eq_getElem hlt
    rw [keyOrder_timestamp hat] at heq
    have hzero := (lt_leadingZeros_iff hsorted hat).mpr (Std.LawfulEqCmp.eq_of_compare heq)
    omega

/-- The lookup of zero gives the first chunk exactly if the zeros its search meets are
recorded. -/
theorem timestampIndex_zero_iff :
    timestampIndex chunks 0 = .ok (positionAnswer chunks.length 0) ↔ ZerosRecorded chunks := by
  rcases Nat.eq_zero_or_pos (leadingZeros chunks) with hnone | hzeros
  · refine iff_of_true (timestampIndex_zero_of_none hsorted hnone) ?_
    intro k hle _
    left
    omega
  · obtain ⟨k, hle, hlt, hfound⟩ := signedIndex_zero hsorted hzeros
    obtain ⟨⟨hindex, -⟩, hresume⟩ := timestampIndex_eq hfound
    have hpos : 0 < (chunks.length + 1) >>> (k + 1) := by
      rw [Nat.shiftRight_succ]
      omega
    have hunique : ZerosRecorded chunks ↔ (chunks.length + 1) >>> (k + 1) ≤ 1 ∨
        ∀ i chunk, i < (chunks.length + 1) >>> (k + 1) → chunks[i]? = some chunk →
          chunk.lastBlockTimestamp = some 0 := by
      constructor
      · intro h
        exact h k hle hlt
      · intro h j hj hj'
        obtain rfl := halving_unique hj hj' hle hlt
        exact h
    have hzero : timestampIndex chunks 0 = .ok (positionAnswer chunks.length 0) ↔
        toRunStart chunks 0 ((chunks.length + 1) >>> (k + 1) - 1) = .ok 0 := by
      rw [hresume, searchStart, resume, positionAnswer, if_neg (by omega)]
      cases toRunStart chunks 0 ((chunks.length + 1) >>> (k + 1) - 1) with
      | error panic => exact iff_of_false nofun nofun
      | ok start => simp only [Exec.ok_map, Except.ok.injEq]
    rw [hunique, hzero, toRunStart_eq_zero hindex]
    refine or_congr (by omega) (forall_congr' ?_)
    intro i
    have hbelow : i ≤ (chunks.length + 1) >>> (k + 1) - 1 ↔
        i < (chunks.length + 1) >>> (k + 1) := by omega
    simp only [hbelow]

end Search

/-- The two readers come to the same position, or fail alike. -/
def SameTimestampAnswer (old : Assignment) (d : Dataset) (new : PortalAssignment) (name : String)
    (ts : UInt64) : Prop :=
  (∃ e, old.findChunkByTimestamp name ts = .ok (.error e) ∧
    new.findChunkByTimestamp name ts = .ok (.error e)) ∨
  ∃ i chunk found, timestampIndex d.chunks ts = .ok (.ok i) ∧ d.chunks[i]? = some chunk ∧
    old.findChunkByTimestamp name ts = .ok (.ok chunk) ∧
    new.findChunkByTimestamp name ts = .ok (.ok found) ∧ found.index.toNat = i

/-- The legacy lookup reads the chunk at the position it comes to. -/
theorem Assignment.findChunkByTimestamp_eq_ok {old : Assignment} {name : String} {d : Dataset}
    (hold : old.getDataset name = .ok (some d)) {ts : UInt64}
    {answer : Except ChunkNotFound Chunk} :
    old.findChunkByTimestamp name ts = .ok answer ↔
      (∃ e, timestampIndex d.chunks ts = .ok (.error e) ∧ answer = .error e) ∨
      ∃ i chunk, timestampIndex d.chunks ts = .ok (.ok i) ∧ d.chunks[i]? = some chunk ∧
        answer = .ok chunk := by
  rw [findChunkByTimestamp, hold, Exec.ok_bind]
  dsimp only
  constructor
  · intro h
    obtain ⟨r, hr, h⟩ := Exec.bind_eq_ok.mp h
    cases r with
    | error e => exact Or.inl ⟨e, hr, (Except.ok.inj h).symm⟩
    | ok i =>
      cases hat : d.chunks[i]? with
      | none =>
        simp only [Exec.index, hat] at h
        cases h
      | some chunk =>
        simp only [Exec.index_eq_ok hat, Exec.ok_map] at h
        exact Or.inr ⟨i, chunk, hr, hat, (Except.ok.inj h).symm⟩
  · rintro (⟨e, hr, rfl⟩ | ⟨i, chunk, hr, hat, rfl⟩)
    · rw [hr, Exec.ok_bind]
    · simp only [hr, Exec.ok_bind, Exec.index_eq_ok hat, Exec.ok_map]

/-- Against a portal that answers by a number of earlier chunks, the legacy answer is the same
exactly if it goes by that number. -/
theorem sameTimestampAnswer_iff {old : Assignment} {new : PortalAssignment} {name : String}
    {d : Dataset} {dataset : PortalAssignmentDataset} {ts : UInt64} {index : Nat}
    (hold : old.getDataset name = .ok (some d))
    (hanswer : new.findChunkByTimestamp name ts = .ok (timestampAnswer dataset index))
    (hchunks : dataset.chunkCount = d.chunks.length) (hindex : index ≤ d.chunks.length)
    (hcount : d.chunks.length ≤ 2 ^ 32) :
    SameTimestampAnswer old d new name ts ↔
      timestampIndex d.chunks ts = .ok (positionAnswer d.chunks.length index) := by
  rw [SameTimestampAnswer, hanswer, timestampAnswer, positionAnswer, hchunks]
  split
  · constructor
    · rintro (⟨e, hfail, he⟩ | ⟨_, _, _, _, _, _, hfound, _⟩)
      · cases he
        rcases (Assignment.findChunkByTimestamp_eq_ok hold).mp hfail with
          ⟨e, hindex, he⟩ | ⟨_, _, _, _, he⟩
        · cases he
          exact hindex
        · cases he
      · cases hfound
    · intro h
      exact Or.inl ⟨.afterLast,
        (Assignment.findChunkByTimestamp_eq_ok hold).mpr (Or.inl ⟨_, h, rfl⟩), rfl⟩
  · next hne =>
    have hlt := Nat.lt_of_le_of_ne hindex hne
    have hnat : (UInt32.ofNat index).toNat = index :=
      UInt32.toNat_ofNat_of_lt' (Nat.lt_of_lt_of_le hlt hcount)
    constructor
    · rintro (⟨e, _, he⟩ | ⟨i, _, found, hi, _, _, hfound, hfoundIndex⟩)
      · cases he
      · cases hfound
        rw [hi, ← hfoundIndex, hnat]
    · intro h
      have hat := List.getElem?_eq_getElem hlt
      exact Or.inr ⟨index, _, _, h, hat,
        (Assignment.findChunkByTimestamp_eq_ok hold).mpr (Or.inr ⟨_, _, h, hat, rfl⟩), rfl, hnat⟩

/-- On the same timestamps, none of which steps back, the two readers give the same answer
exactly if they are not asked for zero or the zeros that the search meets are recorded. -/
theorem legacy_portal_timestamps_agree_iff (fb : FlatBuffers PortalAssignmentRoot) (buf : fb.Buf)
    (old : Assignment) (new : PortalAssignment)
    (haccept : PortalAssignment.fromOwned fb buf = .ok new) (name : String) (d : Dataset)
    (dataset : PortalAssignmentDataset) (hold : old.getDataset name = .ok (some d))
    (hnew : new.getDataset name = .ok (some dataset))
    (htimestamps : dataset.timestamps = d.chunks.map fun chunk =>
      chunk.lastBlockTimestamp.getD 0)
    (hcount : d.chunks.length ≤ 2 ^ 32) (hsorted : dataset.timestamps.Pairwise (· ≤ ·))
    (ts : UInt64) :
    SameTimestampAnswer old d new name ts ↔ ts ≠ 0 ∨ ZerosRecorded d.chunks := by
  have hcheck := PortalAssignment.check_of_getDataset haccept hnew
  obtain ⟨-, htimes⟩ := PortalAssignmentDataset.check_eq_ok.mp hcheck
  have hchunks : dataset.chunkCount = d.chunks.length := by
    rw [← htimes, htimestamps, List.length_map]
  have hanswer := PortalAssignment.findChunkByTimestamp_eq hnew hcheck hsorted ts
  have hsorted' : (d.chunks.map Chunk.timestamp).Pairwise (· ≤ ·) := htimestamps ▸ hsorted
  rw [sameTimestampAnswer_iff hold hanswer hchunks (by
    rw [← hchunks, ← htimes]
    exact earlier_le _ _) hcount]
  have hearlier : earlier dataset.timestamps ts = earlier (d.chunks.map Chunk.timestamp) ts :=
    congrArg (earlier · ts) htimestamps
  rw [hearlier]
  by_cases hts : ts = 0
  · subst hts
    rw [earlier_zero hsorted', timestampIndex_zero_iff hsorted']
    exact (or_iff_right (not_not_intro rfl)).symm
  · exact iff_of_true (timestampIndex_of_ne_zero hsorted' hts) (Or.inl hts)

/-- The only dataset is found under its id. -/
theorem Assignment.getDataset_singleton (d : Dataset) :
    Assignment.getDataset ⟨⟨[d], []⟩⟩ d.id = .ok (some d) :=
  lookupByKey_of_mem (List.pairwise_singleton _ _) (List.mem_singleton_self d)

/-- A legacy chunk with an optional timestamp. -/
def sampleTimedChunk (firstBlock : UInt64) (timestamp : Option UInt64) : Chunk where
  firstBlock := firstBlock
  id := ""
  datasetId := "z"
  size := 1
  lastBlockHash := none
  lastBlockTimestamp := timestamp
  datasetBaseUrl := ""
  baseUrl := ""
  files := []
  workerIndexes := []

/-- The dataset of `sampleTimestamps` before the split; the first timestamp is missing. -/
def sampleTimedDataset : Dataset where
  id := "z"
  chunks := [sampleTimedChunk 0 none, sampleTimedChunk 1 (some 7), sampleTimedChunk 2 (some 7),
    sampleTimedChunk 3 (some 9)]
  lastBlock := 3

theorem legacy_portal_timestamps_agree_sample :
    SameTimestampAnswer ⟨⟨[sampleTimedDataset], []⟩⟩ sampleTimedDataset
      ⟨⟨[sampleTimestamps], []⟩⟩ "z" 7 :=
  (legacy_portal_timestamps_agree_iff (.plain _) ⟨[sampleTimestamps], []⟩
    ⟨⟨[sampleTimedDataset], []⟩⟩ ⟨⟨[sampleTimestamps], []⟩⟩ rfl "z" sampleTimedDataset
    sampleTimestamps (Assignment.getDataset_singleton sampleTimedDataset)
    (PortalAssignment.getDataset_singleton sampleTimestamps) (by decide) (by decide) (by decide)
    7).mpr (Or.inl (by decide))

/-- Three chunks without timestamps, before the split. -/
def sampleUntimedDataset : Dataset where
  id := "z"
  chunks := [sampleTimedChunk 0 none, sampleTimedChunk 1 none, sampleTimedChunk 2 none]
  lastBlock := 2

/-- The portal dataset of the three chunks. -/
def sampleUntimed : PortalAssignmentDataset :=
  { sampleTimestamps with
    lastBlock := 2
    firstBlocks := [0, 1, 2]
    blockDeltas := [0, 0, 0]
    hashes := sampleTimestamps.hashes.take 3
    workerOffsets := [0, 0, 0, 0]
    timestamps := [0, 0, 0] }

/-- Asked for zero, the legacy reader gives the second of three chunks without timestamps and the
portal the first. -/
theorem legacy_portal_timestamps_disagree :
    Assignment.findChunkByTimestamp ⟨⟨[sampleUntimedDataset], []⟩⟩ "z" 0 =
      .ok (.ok (sampleTimedChunk 1 none)) ∧
    PortalAssignment.fromOwned (.plain _) ⟨[sampleUntimed], []⟩ =
      .ok ⟨⟨[sampleUntimed], []⟩⟩ ∧
    sampleUntimed.timestamps = (sampleUntimedDataset.chunks.map fun chunk =>
      chunk.lastBlockTimestamp.getD 0) ∧ sampleUntimed.timestamps.Pairwise (· ≤ ·) ∧
    PortalAssignment.findChunkByTimestamp ⟨⟨[sampleUntimed], []⟩⟩ "z" 0 =
      .ok (.ok ⟨sampleUntimed, 0⟩) ∧
    ¬ SameTimestampAnswer ⟨⟨[sampleUntimedDataset], []⟩⟩ sampleUntimedDataset
      ⟨⟨[sampleUntimed], []⟩⟩ "z" 0 := by
  have hindex : timestampIndex sampleUntimedDataset.chunks 0 = .ok (.ok 1) := by decide +kernel
  have hold : Assignment.findChunkByTimestamp ⟨⟨[sampleUntimedDataset], []⟩⟩ "z" 0 =
      .ok (.ok (sampleTimedChunk 1 none)) :=
    (Assignment.findChunkByTimestamp_eq_ok
      (Assignment.getDataset_singleton sampleUntimedDataset)).mpr
      (Or.inr ⟨1, _, hindex, rfl, rfl⟩)
  have hnew : PortalAssignment.findChunkByTimestamp ⟨⟨[sampleUntimed], []⟩⟩ "z" 0 =
      .ok (.ok ⟨sampleUntimed, 0⟩) :=
    PortalAssignment.findChunkByTimestamp_eq
      (PortalAssignment.getDataset_singleton sampleUntimed) rfl (by decide) 0
  refine ⟨hold, rfl, rfl, by decide, hnew, ?_⟩
  rintro (⟨e, hfail, _⟩ | ⟨i, _, found, hi, _, _, hfound, hfoundIndex⟩)
  · rw [hold] at hfail
    cases hfail
  · rw [hnew] at hfound
    cases hfound
    rw [hindex] at hi
    cases hi
    cases hfoundIndex

end SqdNetwork.Assignments
