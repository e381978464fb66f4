import SqdNetwork.Assignments.InStep
import SqdNetwork.Assignments.PortalBuilder

/-!
# What a portal dataset stages

The portal counterpart of the worker staging: the last argument of each setter
against one row over all columns, lifted from one chunk to everything that
happens on an open dataset.
-/

namespace SqdNetwork.Assignments

open SqdNetwork.Core

/-- The values a caller has given to a chunk handle. -/
structure PortalStaged where
  blockRange : Option BlockRange := none
  id : Option DataChunk := none
  version : UInt32 := 0
  lastBlockTimestamp : UInt64 := 0
  workerIndexes : List UInt16 := []

namespace PortalStaged

/-- A setter replaces the value it names. -/
def apply (s : PortalStaged) : PortalChunkCall → PortalStaged
  | .id id => { s with id := some id }
  | .blockRange range => { s with blockRange := some range }
  | .lastBlockTimestamp timestamp => { s with lastBlockTimestamp := timestamp }
  | .version version => { s with version := version }
  | .workerIndexes indexes => { s with workerIndexes := indexes }

/-- The values after a list of calls. -/
def ofCalls (calls : List PortalChunkCall) : PortalStaged := calls.foldl apply {}

end PortalStaged

/-- One row of a portal dataset. -/
structure PortalRow extends ChunkRow where
  timestamp : UInt64

/-- The row holds what the calls staged. -/
structure PortalRow.StagedBy (calls : List PortalChunkCall) (row : PortalRow) : Prop where
  blockRange : (PortalStaged.ofCalls calls).blockRange =
    some ⟨row.id.firstBlock, row.id.lastBlock⟩
  id : (PortalStaged.ofCalls calls).id = some row.id
  version : (PortalStaged.ofCalls calls).version = row.version
  timestamp : (PortalStaged.ofCalls calls).lastBlockTimestamp = row.timestamp
  workers : (PortalStaged.ofCalls calls).workerIndexes = row.workers

/-- The staged columns hold exactly the given rows. -/
structure PortalDatasetColumns.Encodes (c : PortalDatasetColumns) (rows : List PortalRow) :
    Prop where
  base : c.toStagedColumns.Encodes (rows.map PortalRow.toChunkRow)
  timestamps : c.timestamps = rows.map PortalRow.timestamp

/-- Datasets of the portal-facing builder. -/
def portalKind : DatasetKind PortalDatasetColumns PortalRow (List PortalChunkCall) where
  base := PortalDatasetColumns.toStagedColumns
  row := PortalRow.toChunkRow
  Encodes := PortalDatasetColumns.Encodes
  StagedBy := PortalRow.StagedBy
  push row index delta c := c.pushRow index delta row.id.top
    ⟨row.id.firstBlock, row.id.lastBlock⟩ (chunkHash row.id) row.version row.timestamp row.workers
  pushEnd stop c := c.pushEnd stop
  encodes_base h := h.base
  base_push _ _ _ _ := rfl
  encodes_push row _ _ _ h hbase :=
    ⟨by rw [List.map_append]; exact hbase,
      by simp [PortalDatasetColumns.pushEnd, PortalDatasetColumns.pushRow, h.timestamps]⟩

@[simp] theorem portalKind_base (c : PortalDatasetColumns) :
    portalKind.base c = c.toStagedColumns := rfl

/-- A dataset just opened has no chunks. -/
theorem portalKind_inStep_nil : portalKind.InStep {} none [] :=
  Or.inl ⟨[], ⟨StagedColumns.encodes_nil, rfl⟩, List.Forall₂.nil, rfl⟩

namespace PortalAssignmentBuilder

variable {P : Type}

/-- The builder without the buffer that opening a chunk clears. -/
def forgetStaged (b : PortalAssignmentBuilder P) : PortalAssignmentBuilder P :=
  { b with stagedWorkerIndexes := [] }

/-- The builder without anything that belongs to an open dataset or chunk. -/
def outside (b : PortalAssignmentBuilder P) : PortalAssignmentBuilder P :=
  b.forgetStaged.discardDataset

end PortalAssignmentBuilder

namespace PortalAssignmentChunkBuilder

variable {P : Type} {profile : Profile} {b b' : PortalAssignmentBuilder P}
  {chunk : PortalAssignmentChunkBuilder}

/-- The handle and the builder's buffer hold what the caller has given so far. -/
structure Tracks (b : PortalAssignmentBuilder P) (chunk : PortalAssignmentChunkBuilder)
    (s : PortalStaged) : Prop where
  blockRange : chunk.blockRange = s.blockRange
  id : chunk.id = s.id
  version : chunk.version = s.version
  timestamp : chunk.lastBlockTimestamp = s.lastBlockTimestamp
  workers : b.stagedWorkerIndexes = s.workerIndexes

/-- A call changes only the staging buffer and records its argument. -/
theorem call_spec {s : PortalStaged} (htracks : Tracks b chunk s) (c : PortalChunkCall) :
    (call b chunk c).1.forgetStaged = b.forgetStaged ∧
      Tracks (call b chunk c).1 (call b chunk c).2 (s.apply c) := by
  cases c <;>
  · refine ⟨rfl, ?_⟩
    constructor <;> simp [call, PortalStaged.apply, htracks.blockRange, htracks.id,
      htracks.version, htracks.timestamp, htracks.workers]

/-- A list of calls changes only the staging buffer and records every argument. -/
theorem calls_spec {s : PortalStaged} (htracks : Tracks b chunk s) (cs : List PortalChunkCall) :
    (calls b chunk cs).1.forgetStaged = b.forgetStaged ∧
      Tracks (calls b chunk cs).1 (calls b chunk cs).2 (cs.foldl PortalStaged.apply s) := by
  induction cs generalizing b chunk s with
  | nil => exact ⟨rfl, htracks⟩
  | cons c cs ih =>
    obtain ⟨hsame, htrack⟩ := call_spec htracks c
    obtain ⟨hrest, hlast⟩ := ih htrack
    exact ⟨hrest.trans hsame, hlast⟩

/-- Finishing a chunk either refuses it untouched or pushes the row of its calls. -/
theorem finish_cases {cs : List PortalChunkCall} {r : Outcome}
    (htracks : Tracks b chunk (PortalStaged.ofCalls cs))
    (h : finish profile b chunk = .ok (b', r)) :
    (b' = b ∧ ∀ check, appended check r = false) ∨
    ∃ row : PortalRow, row.StagedBy cs ∧ b.stagedWorkerIndexes = row.workers ∧
      b.pushChunk profile row.id.top ⟨row.id.firstBlock, row.id.lastBlock⟩ (chunkHash row.id)
        row.version row.timestamp = .ok (b', r) := by
  obtain ⟨range, hrange, h⟩ := Exec.bind_eq_ok.mp h
  have hblocks := Exec.expect_eq_ok hrange
  split at h
  · cases h
    exact Or.inl ⟨rfl, fun _ => rfl⟩
  · next id hid =>
    split at h
    · cases h
      exact Or.inl ⟨rfl, fun _ => rfl⟩
    · next hmatch =>
      obtain ⟨hfirst, hlast⟩ := not_not.mp hmatch
      have hpair : range = ⟨id.firstBlock, id.lastBlock⟩ := by rw [hfirst, hlast]
      refine Or.inr ⟨⟨⟨id, chunk.version, b.stagedWorkerIndexes⟩, chunk.lastBlockTimestamp⟩,
        ⟨?_, ?_, htracks.version.symm, htracks.timestamp.symm, htracks.workers.symm⟩, rfl, ?_⟩
      · rw [← htracks.blockRange, hblocks, hpair]
      · rw [← htracks.id, hid]
      · rw [hpair] at h
        exact h

end PortalAssignmentChunkBuilder

/-- The calls of the chunks appended on an open dataset, in order. -/
def appendedPortalCalls (checkContinuity : Bool) (log : List (PortalDatasetOp × ChunkEnd)) :
    List (List PortalChunkCall) :=
  (log.filter fun (_, e) => e.appended checkContinuity).map fun (op, _) => op.calls

@[simp] theorem appendedPortalCalls_snoc (check : Bool) (log : List (PortalDatasetOp × ChunkEnd))
    (op : PortalDatasetOp) (e : ChunkEnd) :
    appendedPortalCalls check (log ++ [(op, e)]) =
      appendedPortalCalls check log ++ if e.appended check then [op.calls] else [] := by
  cases he : e.appended check <;> simp [appendedPortalCalls, he]

namespace PortalAssignmentBuilder

variable {P : Type} {profile : Profile} {b b' start : PortalAssignmentBuilder P}
  {log : List (PortalDatasetOp × ChunkEnd)}

/-- The life of a chunk handle, seen from the open dataset; nothing outside it is touched. -/
theorem handled_of_runChunk {op : PortalDatasetOp} {e : ChunkEnd}
    (h : b.runChunk profile op = .ok (b', e)) :
    b'.outside = b.outside ∧ portalKind.Handled profile b.checkContinuity b.columns b.lastBlock
      op.calls b'.columns b'.lastBlock e := by
  have htracks : PortalAssignmentChunkBuilder.Tracks b.newChunk.1 b.newChunk.2 {} :=
    ⟨rfl, rfl, rfl, rfl, rfl⟩
  obtain ⟨hopen, htrack⟩ := PortalAssignmentChunkBuilder.calls_spec htracks op.calls
  unfold runChunk at h
  dsimp only at h
  generalize PortalAssignmentChunkBuilder.calls b.newChunk.1 b.newChunk.2 op.calls = mid
    at h hopen htrack
  have hopen : mid.1.forgetStaged = b.forgetStaged := hopen
  have hframe : mid.1.outside = b.outside := congrArg discardDataset hopen
  have hcolumns : mid.1.columns = b.columns := congrArg (fun b => b.columns) hopen
  have hlast : mid.1.lastBlock = b.lastBlock := congrArg (fun b => b.lastBlock) hopen
  have hkept : ∀ e : ChunkEnd, (∀ check, e.appended check = false) →
      portalKind.Handled profile b.checkContinuity b.columns b.lastBlock op.calls mid.1.columns
        mid.1.lastBlock e := by
    intro e hnot
    rw [hcolumns, hlast]
    exact .kept hnot
  split at h
  · obtain ⟨⟨last, r⟩, hfinish, h⟩ := Exec.bind_eq_ok.mp h
    cases h
    rcases PortalAssignmentChunkBuilder.finish_cases htrack hfinish with
      ⟨rfl, hr⟩ | ⟨row, hstaged, hworkers, hpush⟩
    · exact ⟨hframe, hkept _ hr⟩
    · obtain ⟨⟨columns, lastBlock, r'⟩, happend, hout⟩ := Exec.bind_eq_ok.mp hpush
      cases hout
      have hcheck : mid.1.checkContinuity = b.checkContinuity :=
        congrArg (fun b => b.checkContinuity) hopen
      rw [hcheck, hcolumns, hlast, hworkers] at happend
      exact ⟨hframe, .tried hstaged happend⟩
  · cases h
    exact ⟨hframe, hkept _ fun _ => rfl⟩

/-- An open dataset, what it was opened on and what has happened on it. -/
structure Staging (start b : PortalAssignmentBuilder P)
    (log : List (PortalDatasetOp × ChunkEnd)) : Prop where
  /-- Nothing outside the open dataset is touched. -/
  frame : b.outside = start.outside
  /-- The columns are in step with the appended chunks. -/
  inStep : portalKind.InStep b.columns b.lastBlock (appendedPortalCalls start.checkContinuity log)

theorem Staging.checkContinuity (h : Staging start b log) :
    b.checkContinuity = start.checkContinuity :=
  congrArg (fun b => b.checkContinuity) h.frame

/-- One chunk handle keeps the open dataset in step. -/
theorem Staging.step (h : Staging start b log) {op : PortalDatasetOp} {e : ChunkEnd}
    (hrun : b.runChunk profile op = .ok (b', e)) : Staging start b' (log ++ [(op, e)]) := by
  obtain ⟨hframe, hhandled⟩ := handled_of_runChunk hrun
  rw [h.checkContinuity] at hhandled
  refine ⟨hframe.trans h.frame, ?_⟩
  rw [appendedPortalCalls_snoc]
  exact h.inStep.handled hhandled

/-- Whatever happens on a dataset opened with nothing staged keeps it in step. -/
theorem staging_of_runScript {ops : List PortalDatasetOp} (hcolumns : start.columns = {})
    (hlast : start.lastBlock = none)
    (h : runScript (runChunk profile) start ops = .ok (b, log)) : Staging start b log := by
  have h0 : Staging start start [] := by
    refine ⟨rfl, ?_⟩
    rw [hcolumns, hlast]
    exact portalKind_inStep_nil
  exact runScript_invariant (fun s s' op r log hs hstep => hs.step hstep) h0 h

end PortalAssignmentBuilder

end SqdNetwork.Assignments
