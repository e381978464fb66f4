import SqdNetwork.Assignments.Accepted
import Mathlib.Data.List.TakeWhile

/-!
# Routing by timestamp

The timestamps column of a portal dataset is bisected on being earlier than the one asked
for. When it does not step back, the chunks that are earlier come first, and the answer is
the chunk right after them.
-/

namespace SqdNetwork.Assignments

open SqdNetwork.Core

/-- How many leading timestamps are earlier than the given one. -/
def earlier (timestamps : List UInt64) (ts : UInt64) : Nat :=
  (timestamps.takeWhile fun timestamp => timestamp < ts).length

/-- The answer for a number of earlier chunks. -/
def timestampAnswer (d : PortalAssignmentDataset) (index : Nat) :
    Except ChunkNotFound PortalChunk :=
  if index = d.chunkCount then .error .afterLast else .ok ⟨d, UInt32.ofNat index⟩

theorem earlier_le (timestamps : List UInt64) (ts : UInt64) :
    earlier timestamps ts ≤ timestamps.length :=
  (List.takeWhile_sublist _).length_le

/-- Once a timestamp is not earlier, none after it is. -/
theorem earlier_closed {timestamps : List UInt64} (h : timestamps.Pairwise (· ≤ ·))
    (ts : UInt64) : timestamps.Pairwise fun a b =>
      decide (b < ts) = true → decide (a < ts) = true := by
  refine h.imp ?_
  intro a b hab hb
  exact decide_eq_true (UInt64.lt_of_le_of_lt hab (of_decide_eq_true hb))

/-- A timestamp that does not step back is earlier exactly if it is among the leading ones. -/
theorem lt_earlier_iff {timestamps : List UInt64} (h : timestamps.Pairwise (· ≤ ·))
    {ts timestamp : UInt64} {i : Nat} (hi : timestamps[i]? = some timestamp) :
    i < earlier timestamps ts ↔ timestamp < ts := by
  obtain ⟨hlt, rfl⟩ := List.getElem?_eq_some_iff.mp hi
  rw [earlier, ← lt_length_takeWhile (earlier_closed h ts) hlt, decide_eq_true_eq]

/-- The number of earlier timestamps is where they stop being earlier. -/
theorem earlier_eq {timestamps : List UInt64} (h : timestamps.Pairwise (· ≤ ·)) {ts : UInt64}
    {k : Nat} (hk : k ≤ timestamps.length)
    (hbefore : ∀ i timestamp, i + 1 = k → timestamps[i]? = some timestamp → timestamp < ts)
    (hat : ∀ timestamp, timestamps[k]? = some timestamp → ts ≤ timestamp) :
    earlier timestamps ts = k := by
  have hle := earlier_le timestamps ts
  apply Nat.le_antisymm
  · by_contra hlt
    have hget := List.getElem?_eq_getElem (show k < timestamps.length by omega)
    have hearlier := (lt_earlier_iff h hget).mp (Nat.lt_of_not_le hlt)
    exact UInt64.not_lt.mpr (hat _ hget) hearlier
  · cases k with
    | zero => exact Nat.zero_le _
    | succ i =>
      have hget := List.getElem?_eq_getElem (show i < timestamps.length by omega)
      exact (lt_earlier_iff h hget).mpr (hbefore i _ rfl hget)

/-- All timestamps are earlier exactly if their number is that of all. -/
theorem earlier_eq_length_iff {timestamps : List UInt64} {ts : UInt64} :
    earlier timestamps ts = timestamps.length ↔ ∀ timestamp ∈ timestamps, timestamp < ts := by
  constructor
  · intro h timestamp hmem
    have hall : timestamps.takeWhile (fun timestamp => timestamp < ts) = timestamps :=
      (List.takeWhile_sublist _).eq_of_length h
    rw [← hall] at hmem
    have hearlier := List.mem_takeWhile_imp hmem
    exact of_decide_eq_true hearlier
  · intro h
    have hall : timestamps.takeWhile (fun timestamp => timestamp < ts) = timestamps :=
      List.takeWhile_eq_self_iff.mpr fun timestamp hmem => decide_eq_true (h timestamp hmem)
    rw [earlier, hall]

/-- On timestamps that do not step back the search answers by the number of earlier ones. -/
theorem PortalAssignment.findChunkByTimestamp_eq {a : PortalAssignment} {name : String}
    {d : PortalAssignmentDataset} (hget : a.getDataset name = .ok (some d))
    (hcheck : d.check = .ok ()) (hsorted : d.timestamps.Pairwise (· ≤ ·)) (ts : UInt64) :
    a.findChunkByTimestamp name ts = .ok (timestampAnswer d (earlier d.timestamps ts)) := by
  obtain ⟨-, htimes⟩ := PortalAssignmentDataset.check_eq_ok.mp hcheck
  have hpoint : partitionPoint d.chunkCount (fun i => do
      let timestamp ← Exec.index d.timestamps i
      .ok (decide (timestamp < ts))) = (.ok (earlier d.timestamps ts) : Exec Nat) := by
    rw [earlier, ← bisectPoint_takeWhile (earlier_closed hsorted ts), htimes]
    apply bisect_eq_pure
    intro i _ hi
    have hget := List.getElem?_eq_getElem (htimes ▸ hi)
    rw [Exec.index_eq_ok hget, Exec.ok_bind, hget, Option.any_some]
    rfl
  rw [findChunkByTimestamp, hget, Exec.ok_bind]
  dsimp only
  rw [hpoint, Exec.ok_bind, timestampAnswer]
  split
  · rfl
  · next hne =>
    have hlt : earlier d.timestamps ts < d.chunkCount := by
      have hle := earlier_le d.timestamps ts
      omega
    rw [(chunk_ofNat hlt).1, Exec.expect_some, Exec.ok_bind]

/-- A found dataset was checked. -/
theorem PortalAssignment.check_of_getDataset {fb : FlatBuffers PortalAssignmentRoot}
    {buf : fb.Buf} {a : PortalAssignment} (haccept : fromOwned fb buf = .ok a) {name : String}
    {d : PortalAssignmentDataset} (hget : a.getDataset name = .ok (some d)) :
    d.check = .ok () := by
  obtain ⟨r, hr, hmem⟩ := lookupByKey_spec a.datasets fun d => compare d.id name
  obtain rfl := Except.ok.inj (hr.symm.trans hget)
  exact (fromOwned_eq_ok.mp haccept).2 d (hmem d rfl).1

/-- The only dataset is found under its id. -/
theorem PortalAssignment.getDataset_singleton (d : PortalAssignmentDataset) :
    PortalAssignment.getDataset ⟨⟨[d], []⟩⟩ d.id = .ok (some d) :=
  lookupByKey_of_mem (List.pairwise_singleton _ _) (List.mem_singleton_self d)

section Answer

variable {d : PortalAssignmentDataset} (htimes : d.timestamps.length = d.chunkCount) {ts : UInt64}

include htimes

/-- The answer fails exactly if all timestamps are earlier. -/
theorem timestampAnswer_eq_error {e : ChunkNotFound} :
    timestampAnswer d (earlier d.timestamps ts) = .error e ↔
      e = .afterLast ∧ ∀ timestamp ∈ d.timestamps, timestamp < ts := by
  rw [timestampAnswer, ← htimes, ← earlier_eq_length_iff]
  split
  · next heq =>
    constructor
    · intro h
      exact ⟨(Except.error.inj h).symm, heq⟩
    · rintro ⟨rfl, _⟩
      rfl
  · next hne =>
    constructor
    · intro h
      cases h
    · rintro ⟨_, heq⟩
      exact absurd heq hne

/-- The answer is a chunk exactly if it is the first that is not earlier. -/
theorem timestampAnswer_eq_ok (hcount : d.chunkCount ≤ 2 ^ 32)
    (hsorted : d.timestamps.Pairwise (· ≤ ·)) {chunk : PortalChunk} :
    timestampAnswer d (earlier d.timestamps ts) = .ok chunk ↔ chunk.dataset = d ∧
      (∃ timestamp, d.timestamps[chunk.index.toNat]? = some timestamp ∧ ts ≤ timestamp) ∧
      ∀ i timestamp, i < chunk.index.toNat → d.timestamps[i]? = some timestamp →
        timestamp < ts := by
  rw [timestampAnswer, ← htimes]
  constructor
  · intro h
    split at h
    · cases h
    · next hne =>
      obtain rfl := Except.ok.inj h
      have hlt := Nat.lt_of_le_of_ne (earlier_le d.timestamps ts) hne
      have hindex : (UInt32.ofNat (earlier d.timestamps ts)).toNat = earlier d.timestamps ts :=
        UInt32.toNat_ofNat_of_lt' (Nat.lt_of_lt_of_le (htimes ▸ hlt) hcount)
      have hat := List.getElem?_eq_getElem hlt
      rw [hindex]
      refine ⟨rfl, ⟨_, hat, UInt64.not_lt.mp ?_⟩, ?_⟩
      · intro hearlier
        exact Nat.lt_irrefl _ ((lt_earlier_iff hsorted hat).mpr hearlier)
      · intro i timestamp hi htimestamp
        exact (lt_earlier_iff hsorted htimestamp).mp hi
  · rintro ⟨rfl, ⟨timestamp, hat, hle⟩, hbefore⟩
    have hlt := (List.getElem?_eq_some_iff.mp hat).1
    have hearlier : earlier chunk.dataset.timestamps ts = chunk.index.toNat := by
      apply earlier_eq hsorted (Nat.le_of_lt hlt)
      · intro i timestamp hi
        exact hbefore i timestamp (by omega)
      · intro timestamp' hat'
        obtain rfl := Option.some.inj (hat.symm.trans hat')
        exact hle
    rw [hearlier, if_neg (Nat.ne_of_lt hlt), UInt32.ofNat_toNat]

end Answer

/-- Timestamp routing is exact: in an accepted assignment, on a dataset whose timestamps do
not step back, the lookup gives the first chunk that is not earlier, and fails only if all
are. -/
theorem timestamp_routing_exact (fb : FlatBuffers PortalAssignmentRoot) (buf : fb.Buf)
    (a : PortalAssignment) (haccept : PortalAssignment.fromOwned fb buf = .ok a) (name : String)
    (d : PortalAssignmentDataset) (hget : a.getDataset name = .ok (some d))
    (hcount : d.chunkCount ≤ 2 ^ 32) (hsorted : d.timestamps.Pairwise (· ≤ ·)) (ts : UInt64) :
    ∃ r, a.findChunkByTimestamp name ts = .ok r ∧
      (∀ chunk, r = .ok chunk ↔ chunk.dataset = d ∧
        (∃ timestamp, d.timestamps[chunk.index.toNat]? = some timestamp ∧ ts ≤ timestamp) ∧
        ∀ i timestamp, i < chunk.index.toNat → d.timestamps[i]? = some timestamp →
          timestamp < ts) ∧
      (∀ e, r = .error e ↔ e = .afterLast ∧ ∀ timestamp ∈ d.timestamps, timestamp < ts) := by
  have hcheck := PortalAssignment.check_of_getDataset haccept hget
  obtain ⟨-, htimes⟩ := PortalAssignmentDataset.check_eq_ok.mp hcheck
  refine ⟨_, PortalAssignment.findChunkByTimestamp_eq hget hcheck hsorted ts, ?_, ?_⟩
  · intro chunk
    exact timestampAnswer_eq_ok htimes hcount hsorted
  · intro e
    exact timestampAnswer_eq_error htimes

/-- A dataset of four chunks: no timestamp, twice the same, and a later one. -/
def sampleTimestamps : PortalAssignmentDataset where
  id := "z"
  lastBlock := 3
  lastBlockHash := none
  readSchemaId := 0
  firstBlocks := [0, 1, 2, 3]
  blockDeltas := [0, 0, 0, 0]
  hashes := List.replicate 4 ⟨List.replicate 8 0, rfl⟩
  tops := [⟨0, 0⟩]
  versions := none
  workerOffsets := [0, 0, 0, 0, 0]
  workerIndexes := []
  timestamps := [0, 7, 7, 9]

theorem timestamp_routing_exact_sample : ∃ a : PortalAssignment,
    PortalAssignment.fromOwned (.plain _) ⟨[sampleTimestamps], []⟩ = .ok a ∧
    a.findChunkByTimestamp "z" 7 = .ok (.ok ⟨sampleTimestamps, 1⟩) := by
  obtain ⟨r, hfind, hchunk, -⟩ := timestamp_routing_exact (.plain _) ⟨[sampleTimestamps], []⟩
    ⟨⟨[sampleTimestamps], []⟩⟩ rfl "z" sampleTimestamps
    (PortalAssignment.getDataset_singleton sampleTimestamps) (by decide) (by decide) 7
  refine ⟨_, rfl, hfind.trans (congrArg Except.ok ((hchunk ⟨sampleTimestamps, 1⟩).mpr ?_))⟩
  refine ⟨rfl, ⟨7, by decide, by decide⟩, ?_⟩
  intro i timestamp hi htimestamp
  obtain rfl : i = 0 := Nat.lt_one_iff.mp hi
  obtain rfl := Option.some.inj htimestamp
  decide

end SqdNetwork.Assignments
