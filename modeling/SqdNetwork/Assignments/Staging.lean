import SqdNetwork.Assignments.Schema
import SqdNetwork.Core.Columns

/-!
# Staging one chunk

Both builders append a chunk to the columns of the open dataset in the same way;
they differ in the columns they carry beside the common ones. The common part is
one definition, from the continuity check to the two conversions that can still
refuse a chunk.
-/

namespace SqdNetwork.Assignments

open SqdNetwork.Core

/-- An inclusive block range. -/
structure BlockRange where
  start : UInt64
  stop : UInt64
  deriving DecidableEq, Repr

/-- The errors the builders return. -/
inductive BuildError where
  | unsortedRoster (writeSchemaId : UInt32)
  | rosterChanged (writeSchemaId : UInt32)
  | ingestedGeneration
  | generationChanged (version : UInt32)
  | noChunks
  | noTopRuns
  | topRunsStart
  | topRunsOrder
  | idUnset
  | idRange (first last start stop : UInt64)
  | writeSchemaUnset
  | writeSchemaUnregistered (writeSchemaId : UInt32)
  | generationUnregistered (version : UInt32)
  | writeSchemaBeforeTables
  | tableAbsent (name : String) (writeSchemaId : UInt32)
  | tablesSchema (encodedAgainst writeSchemaId : UInt32)
  | discontiguous (last start : UInt64)
  | tooManyChunks
  | chunkTooLong
  | tooManyWorkerReferences
  deriving DecidableEq, Repr

/-- What a fallible builder call returns. -/
abbrev Outcome := Except BuildError Unit

instance : DecidableEq Outcome
  | .ok (), .ok () => isTrue rfl
  | .error e, .error e' => decidable_of_iff (e = e') (by simp)
  | .ok (), .error _ => isFalse (by simp)
  | .error _, .ok () => isFalse (by simp)

/-- The columns both builders stage. -/
structure StagedColumns where
  firstBlocks : List UInt64 := []
  blockDeltas : List UInt32 := []
  hashes : List ChunkHash := []
  /-- One entry per run, appended only when a chunk's top differs from the previous one's. -/
  tops : List TopRun := []
  versions : List UInt32 := []
  /-- Where each chunk's worker slice ends. -/
  workerEnds : List UInt32 := []
  workerIndexes : List UInt16 := []

/-- The hash of an id, as its last hash padded with NUL to the stored width. -/
def chunkHash (id : DataChunk) : ChunkHash where
  bytes := padNul (asBytes id.lastHash)
  size := by
    have hl := id.hashField.length.2
    rw [DataChunk.asBytes_lastHash, padNul, List.length_append, List.length_replicate]
    unfold hashMaxLen at hl ⊢
    omega

/-- The stored hash is the id's own field. -/
@[simp] theorem chunkHash_bytes (id : DataChunk) : (chunkHash id).bytes = id.hash := by
  simp only [chunkHash, DataChunk.asBytes_lastHash, id.hashField.padded]

namespace StagedColumns

/-- Everything a row appends before its worker slice is closed. -/
def pushRow (c : StagedColumns) (index delta : UInt32) (top start : UInt64) (hash : ChunkHash)
    (version : UInt32) (workers : List UInt16) : StagedColumns :=
  { c with
    tops := pushRun TopRun.top c.tops ⟨index, top⟩
    firstBlocks := c.firstBlocks ++ [start]
    blockDeltas := c.blockDeltas ++ [delta]
    hashes := c.hashes ++ [hash]
    versions := c.versions ++ [version]
    workerIndexes := c.workerIndexes ++ workers }

/-- Close a worker slice. -/
def pushEnd (c : StagedColumns) (stop : UInt32) : StagedColumns :=
  { c with workerEnds := c.workerEnds ++ [stop] }

/-- The vectors the staged columns are emitted as: no version column when all are zero,
and a leading zero before the slice ends. -/
def emit (c : StagedColumns) : ColumnVectors where
  firstBlocks := c.firstBlocks
  blockDeltas := c.blockDeltas
  hashes := c.hashes
  tops := c.tops
  versions := if c.versions.any (· != 0) then some c.versions else none
  workerOffsets := 0 :: c.workerEnds
  workerIndexes := c.workerIndexes

end StagedColumns

/-- A chunk must start right after the last one; the first chunk starts anywhere. -/
def continuityOf (profile : Profile) (lastBlock : Option UInt64) (start : UInt64) :
    Exec Outcome :=
  match lastBlock with
  | none => .ok (.ok ())
  | some last => do
    let next ← Exec.addU64 profile last 1
    .ok (if next ≠ start then .error (.discontiguous last start) else .ok ())

/-- Append one row to the columns of the open dataset. With the continuity check off, a gap
still appends and only reports. A worker column that outgrew 32 bits is noticed only after
the other columns have grown. -/
def appendChunk {C : Type} (profile : Profile) (checkContinuity : Bool) (base : C → StagedColumns)
    (push : UInt32 → UInt32 → C → C) (pushEnd : UInt32 → C → C) (columns : C)
    (lastBlock : Option UInt64) (range : BlockRange) : Exec (C × Option UInt64 × Outcome) := do
  let continuity ← continuityOf profile lastBlock range.start
  if continuity ≠ .ok () ∧ checkContinuity then .ok (columns, lastBlock, continuity)
  else
    match Exec.tryIntoU32 (base columns).firstBlocks.length with
    | none => .ok (columns, lastBlock, .error .tooManyChunks)
    | some index => do
      let span ← Exec.subU64 profile range.stop range.start
      match Exec.tryIntoU32 span.toNat with
      | none => .ok (columns, lastBlock, .error .chunkTooLong)
      | some delta =>
        let columns := push index delta columns
        match Exec.tryIntoU32 (base columns).workerIndexes.length with
        | none => .ok (columns, lastBlock, .error .tooManyWorkerReferences)
        | some stop => .ok (pushEnd stop columns, some range.stop, continuity)

/-- Whether an outcome of finishing a chunk means that the chunk was appended: success, or the
continuity report of a builder that does not enforce it. -/
def appended (checkContinuity : Bool) : Outcome → Bool
  | .ok () => true
  | .error (.discontiguous _ _) => !checkContinuity
  | .error _ => false

/-- Ids of chunks for sample runs: one that starts a dataset, one with a top of its own, and one
after a gap whose top falls back. -/
def sampleIds : DataChunk × DataChunk × DataChunk :=
  ((DataChunk.new 0 0 9 "abcde").get (by decide), (DataChunk.new 5 5 6 "abcdefgh").get (by decide),
    (DataChunk.new 0 9 9 "Zz_09").get (by decide))

/-- How a chunk handle ended. -/
inductive ChunkEnd where
  /-- Dropped without `finish`. -/
  | dropped
  /-- Consumed by a call that failed. -/
  | rejected (e : BuildError)
  /-- Consumed by `finish`. -/
  | finished (r : Outcome)
  deriving DecidableEq

/-- How a dataset handle ended. -/
inductive DatasetEnd where
  /-- Dropped without `finish`. -/
  | dropped
  /-- Consumed by `finish`. -/
  | finished (r : Outcome)
  deriving DecidableEq

/-- Whether a chunk handle ended in its chunk being appended. -/
def ChunkEnd.appended (checkContinuity : Bool) : ChunkEnd → Bool
  | .finished r => Assignments.appended checkContinuity r
  | _ => false

/-- The only error a continuity check reports. -/
theorem continuityOf_cases {profile : Profile} {lastBlock : Option UInt64} {start : UInt64}
    {r : Outcome} (h : continuityOf profile lastBlock start = .ok r) :
    r = .ok () ∨ ∃ last, r = .error (.discontiguous last start) := by
  cases lastBlock with
  | none => exact Or.inl (Except.ok.inj h).symm
  | some last =>
    obtain ⟨next, -, h⟩ := Exec.bind_eq_ok.mp h
    rw [← Except.ok.inj h]
    split
    · exact Or.inr ⟨last, rfl⟩
    · exact Or.inl rfl

section AppendChunk

variable {C : Type} {profile : Profile} {checkContinuity : Bool} {base : C → StagedColumns}
  {push : UInt32 → UInt32 → C → C} {pushEnd : UInt32 → C → C} {columns columns' : C}
  {lastBlock lastBlock' : Option UInt64} {range : BlockRange} {r : Outcome}

/-- Everything appending a chunk can do: nothing, a row whose worker slice stays open because
the worker column is too long, or a whole row. -/
theorem appendChunk_cases (hrange : range.start ≤ range.stop)
    (h : appendChunk profile checkContinuity base push pushEnd columns lastBlock range =
      .ok (columns', lastBlock', r)) :
    (columns' = columns ∧ lastBlock' = lastBlock ∧ appended checkContinuity r = false) ∨
    (∃ index delta, columns' = push index delta columns ∧ lastBlock' = lastBlock ∧
      appended checkContinuity r = false ∧
      2 ^ 32 ≤ (base (push index delta columns)).workerIndexes.length) ∨
    (∃ index delta stop : UInt32, index.toNat = (base columns).firstBlocks.length ∧
      delta.toNat = (range.stop - range.start).toNat ∧
      stop.toNat = (base (push index delta columns)).workerIndexes.length ∧
      columns' = pushEnd stop (push index delta columns) ∧ lastBlock' = some range.stop ∧
      appended checkContinuity r = true) := by
  obtain ⟨continuity, hcont, h⟩ := Exec.bind_eq_ok.mp h
  have hcases := continuityOf_cases hcont
  split at h
  · next hstop =>
    cases h
    rcases hcases with rfl | ⟨last, rfl⟩
    · exact absurd rfl hstop.1
    · exact Or.inl ⟨rfl, rfl, by simp [appended, hstop.2]⟩
  · next hgo =>
    split at h
    · cases h
      exact Or.inl ⟨rfl, rfl, rfl⟩
    · next index hindex =>
      rw [Exec.subU64_eq_ok hrange, Exec.ok_bind] at h
      split at h
      · cases h
        exact Or.inl ⟨rfl, rfl, rfl⟩
      · next delta hdelta =>
        dsimp only at h
        split at h
        · next hfull =>
          cases h
          exact Or.inr (Or.inl ⟨index, delta, rfl, rfl, rfl, Exec.tryIntoU32_eq_none hfull⟩)
        · next stop hstop =>
          cases h
          refine Or.inr (Or.inr ⟨index, delta, stop, Exec.tryIntoU32_eq_some hindex,
            Exec.tryIntoU32_eq_some hdelta, Exec.tryIntoU32_eq_some hstop, rfl, rfl, ?_⟩)
          rcases hcases with rfl | ⟨last, rfl⟩
          · rfl
          · have hoff : checkContinuity = false := by simpa using hgo
            simp [appended, hoff]

end AppendChunk

/-- `slice::is_sorted_by`: every element stands in the order to the next one. -/
def isSortedBy {α : Type} (ordered : α → α → Bool) (xs : List α) : Bool :=
  (xs.zip xs.tail).all fun (a, b) => ordered a b

/-- A list ordered pairwise is ordered from each element to the next. -/
theorem isSortedBy_of_pairwise {α : Type} {ordered : α → α → Bool} {xs : List α}
    (h : xs.Pairwise fun a b => ordered a b = true) : isSortedBy ordered xs = true := by
  induction h with
  | nil => rfl
  | @cons a xs ha _ ih =>
    cases xs with
    | nil => rfl
    | cons b rest =>
      have hab := ha b List.mem_cons_self
      simpa [isSortedBy, hab] using ih

/-- For a transitive order the check compares all pairs. -/
theorem pairwise_of_isSortedBy {α : Type} {ordered : α → α → Bool}
    (htrans : ∀ a b c, ordered a b = true → ordered b c = true → ordered a c = true) {xs : List α}
    (h : isSortedBy ordered xs = true) : xs.Pairwise fun a b => ordered a b = true := by
  induction xs with
  | nil => exact List.Pairwise.nil
  | cons a xs ih =>
    cases xs with
    | nil => exact List.pairwise_singleton _ _
    | cons b rest =>
      obtain ⟨hab, hrest⟩ : ordered a b = true ∧ isSortedBy ordered (b :: rest) = true := by
        simpa [isSortedBy] using h
      have hpairs := ih hrest
      refine List.pairwise_cons.mpr ⟨fun c hc => ?_, hpairs⟩
      rcases List.mem_cons.mp hc with rfl | hc
      · exact hab
      · exact htrans a b c hab ((List.pairwise_cons.mp hpairs).1 c hc)

/-- Names are strictly ascending exactly when the check passes. -/
theorem isSortedBy_lt_iff {names : List String} :
    isSortedBy (· < ·) names = true ↔ names.Pairwise (· < ·) := by
  constructor
  · intro h
    refine (pairwise_of_isSortedBy (fun a b c hab hbc => ?_) h).imp of_decide_eq_true
    exact decide_eq_true (String.lt_trans (of_decide_eq_true hab) (of_decide_eq_true hbc))
  · intro h
    exact isSortedBy_of_pairwise (h.imp decide_eq_true)

/-- Runs must start at chunk 0 and strictly ascend, so that the last run at or before a chunk
can be found; the top values themselves may decrease or recur. -/
def checkTopRuns (runs : List TopRun) : Outcome :=
  match runs.head? with
  | none => .error .noTopRuns
  | some first =>
    if first.firstChunkIndex ≠ 0 then .error .topRunsStart
    else if isSortedBy (fun a b => a.firstChunkIndex < b.firstChunkIndex) runs then .ok ()
    else .error .topRunsOrder

/-- Runs that encode a column with rows pass the check. -/
theorem checkTopRuns_of_encode {runs : List TopRun} {column : List UInt64}
    (h : RunsEncode (fun r : TopRun => r.firstChunkIndex.toNat) TopRun.top runs column)
    (hne : column ≠ []) : checkTopRuns runs = .ok () := by
  have hsorted : isSortedBy (fun a b => a.firstChunkIndex < b.firstChunkIndex) runs = true := by
    apply isSortedBy_of_pairwise
    refine h.ascending.imp ?_
    intro a b hab
    exact decide_eq_true (UInt32.lt_iff_toNat_lt.mpr hab)
  obtain ⟨first, rest, rfl, hzero⟩ := h.covers hne
  have hz : first.firstChunkIndex = 0 := UInt32.toNat_inj.mp (by simpa using hzero)
  simp only [checkTopRuns, List.head?_cons, hz, ne_eq, not_true_eq_false, if_false]
  exact if_pos hsorted

section Workers

variable {P : Type} [LT P] [DecidableLT P]

/-- Workers are added in ascending order of their peer ids. -/
def assertAscending (lastPeerId : Option P) (id : P) : Exec Unit :=
  Exec.assert "Workers must be added in ascending order of their PeerIDs"
    (lastPeerId.all fun last => last < id)

/-- The fixed slot of a peer id: its first 38 bytes, which debug builds check to be all. -/
def workerIdFrom (profile : Profile) (buf : List UInt8) : Exec WorkerId :=
  if h : 38 ≤ buf.length then do
    Exec.debugAssert profile "PeerId should not have extra bytes" (buf.drop 38).isEmpty
    .ok ⟨buf.take 38, List.length_take_of_le h⟩
  else .error (.expectFailed "PeerId should always have a valid length")

end Workers

end SqdNetwork.Assignments
