import SqdNetwork.Assignments.Staging
import SqdNetwork.Core.Script

/-!
# Building portal-facing assignments

The portal builder stages the same columns as the worker builder without
anything about downloading: no sizes, schemas, tables or generations, and a
timestamp column instead. No call on its chunk handle can fail before `finish`.
-/

namespace SqdNetwork.Assignments

open SqdNetwork.Core

/-- The dataset being staged on the portal side. -/
structure PortalDatasetColumns extends StagedColumns where
  /-- Zero for a chunk staged without a timestamp. -/
  timestamps : List UInt64 := []

/-- The portal-facing builder. -/
structure PortalAssignmentBuilder (P : Type) where
  lastBlock : Option UInt64
  allDatasets : List PortalAssignmentDataset
  workerEntries : List PortalEntry
  lastPeerId : Option P
  checkContinuity : Bool
  columns : PortalDatasetColumns
  /-- The open chunk's worker indexes, cleared when a chunk is opened. -/
  stagedWorkerIndexes : List UInt16

namespace PortalDatasetColumns

/-- Everything a chunk appends before its worker slice is closed. -/
def pushRow (c : PortalDatasetColumns) (index delta : UInt32) (top : UInt64) (range : BlockRange)
    (hash : ChunkHash) (version : UInt32) (timestamp : UInt64) (workers : List UInt16) :
    PortalDatasetColumns where
  toStagedColumns := c.toStagedColumns.pushRow index delta top range.start hash version workers
  timestamps := c.timestamps ++ [timestamp]

/-- Close a chunk's worker slice. -/
def pushEnd (c : PortalDatasetColumns) (stop : UInt32) : PortalDatasetColumns :=
  { c with toStagedColumns := c.toStagedColumns.pushEnd stop }

/-- The table the columns are emitted as. -/
def toDataset (c : PortalDatasetColumns) (id : String) (lastBlock : UInt64)
    (lastBlockHash : Option String) (readSchemaId : UInt32) : PortalAssignmentDataset where
  toColumnVectors := c.emit
  id := id
  lastBlock := lastBlock
  lastBlockHash := lastBlockHash
  readSchemaId := readSchemaId
  timestamps := c.timestamps

end PortalDatasetColumns

/-- The chunk handle, beside what it keeps on the builder. -/
structure PortalAssignmentChunkBuilder where
  blockRange : Option BlockRange := none
  id : Option DataChunk := none
  version : UInt32 := 0
  lastBlockTimestamp : UInt64 := 0

/-- One call on a chunk handle. -/
inductive PortalChunkCall where
  | id (id : DataChunk)
  | blockRange (range : BlockRange)
  | lastBlockTimestamp (timestamp : UInt64)
  | version (version : UInt32)
  | workerIndexes (indexes : List UInt16)

namespace PortalAssignmentBuilder

variable {P : Type}

/-- A builder with nothing staged. -/
def new : PortalAssignmentBuilder P where
  lastBlock := none
  allDatasets := []
  workerEntries := []
  lastPeerId := none
  checkContinuity := true
  columns := {}
  stagedWorkerIndexes := []

/-- Choose whether a gap between chunks is refused or only reported. -/
def setCheckContinuity (b : PortalAssignmentBuilder P) (check : Bool) :
    PortalAssignmentBuilder P :=
  { b with checkContinuity := check }

/-- Forget everything staged for the open dataset. -/
def discardDataset (b : PortalAssignmentBuilder P) : PortalAssignmentBuilder P :=
  { b with columns := {}, lastBlock := none }

/-- Emit the staged chunks as the dataset's columns. -/
def emitDataset (b : PortalAssignmentBuilder P) (id : String) (readSchemaId : UInt32)
    (lastBlockHash : Option String) : Exec (PortalAssignmentBuilder P × Outcome) :=
  if b.columns.firstBlocks.length = 0 then .ok (b, .error .noChunks)
  else
    match checkTopRuns b.columns.tops with
    | .error e => .ok (b, .error e)
    | .ok () => do
      let lastBlock ← Exec.expect
        "a staged chunk sets last_block, and the count was checked above" b.lastBlock
      let dataset := b.columns.toDataset id lastBlock lastBlockHash readSchemaId
      .ok ({ b with
        columns := {}
        lastBlock := none
        allDatasets := b.allDatasets ++ [dataset] }, .ok ())

/-- Append one chunk to the open dataset. -/
def pushChunk (profile : Profile) (b : PortalAssignmentBuilder P) (top : UInt64)
    (range : BlockRange) (hash : ChunkHash) (version : UInt32) (timestamp : UInt64) :
    Exec (PortalAssignmentBuilder P × Outcome) := do
  let (columns, lastBlock, r) ← appendChunk profile b.checkContinuity
    PortalDatasetColumns.toStagedColumns
    (fun index delta c =>
      c.pushRow index delta top range hash version timestamp b.stagedWorkerIndexes)
    (fun stop c => c.pushEnd stop) b.columns b.lastBlock range
  .ok ({ b with columns := columns, lastBlock := lastBlock }, r)

/-- Open a chunk on the open dataset. -/
def newChunk (b : PortalAssignmentBuilder P) :
    PortalAssignmentBuilder P × PortalAssignmentChunkBuilder :=
  ({ b with stagedWorkerIndexes := [] }, {})

end PortalAssignmentBuilder

namespace PortalAssignmentChunkBuilder

variable {P : Type}

/-- One call on a chunk handle. -/
def call (b : PortalAssignmentBuilder P) (chunk : PortalAssignmentChunkBuilder) :
    PortalChunkCall → PortalAssignmentBuilder P × PortalAssignmentChunkBuilder
  | .id id => (b, { chunk with id := some id })
  | .blockRange range => (b, { chunk with blockRange := some range })
  | .lastBlockTimestamp timestamp => (b, { chunk with lastBlockTimestamp := timestamp })
  | .version version => (b, { chunk with version := version })
  | .workerIndexes indexes => ({ b with stagedWorkerIndexes := indexes }, chunk)

/-- The calls on a chunk handle in order. -/
def calls (b : PortalAssignmentBuilder P) (chunk : PortalAssignmentChunkBuilder) :
    List PortalChunkCall → PortalAssignmentBuilder P × PortalAssignmentChunkBuilder
  | [] => (b, chunk)
  | c :: rest =>
    let (b, chunk) := call b chunk c
    calls b chunk rest

/-- Stage the chunk. An unset range is misuse and panics. -/
def finish (profile : Profile) (b : PortalAssignmentBuilder P)
    (chunk : PortalAssignmentChunkBuilder) : Exec (PortalAssignmentBuilder P × Outcome) := do
  let range ← Exec.expect "Block range must be set" chunk.blockRange
  match chunk.id with
  | none => .ok (b, .error .idUnset)
  | some id =>
    if ¬ (id.firstBlock = range.start ∧ id.lastBlock = range.stop) then
      .ok (b, .error (.idRange id.firstBlock id.lastBlock range.start range.stop))
    else
      b.pushChunk profile id.top range (chunkHash id) chunk.version chunk.lastBlockTimestamp

end PortalAssignmentChunkBuilder

/-- What happens on an open portal dataset: a chunk opened, called and then finished or
dropped. -/
structure PortalDatasetOp where
  calls : List PortalChunkCall
  finish : Bool

/-- How the caller ends a portal dataset. -/
inductive PortalClose where
  | drop
  | finish (lastBlockHash : Option String)

/-- What happens on the portal-facing builder. -/
inductive PortalOp (P : Type) where
  /-- A dataset opened, filled and then finished or dropped. -/
  | dataset (id : String) (readSchemaId : UInt32) (ops : List PortalDatasetOp)
      (close : PortalClose)
  | addWorker (id : P) (status : WorkerStatus)

/-- What an operation on the portal-facing builder reported. A dataset also records the columns
as they stood when its handle ended. -/
inductive PortalResult where
  | dataset (log : List (PortalDatasetOp × ChunkEnd)) (staged : PortalDatasetColumns)
      (e : DatasetEnd)
  | added

namespace PortalAssignmentBuilder

variable {P : Type}

/-- The life of a chunk handle. -/
def runChunk (profile : Profile) (b : PortalAssignmentBuilder P) (op : PortalDatasetOp) :
    Exec (PortalAssignmentBuilder P × ChunkEnd) :=
  let (b, chunk) := b.newChunk
  let (b, chunk) := chunk.calls b op.calls
  if op.finish then do
    let (b, r) ← chunk.finish profile b
    .ok (b, .finished r)
  else .ok (b, .dropped)

/-- Finish a dataset handle; a refused dataset is discarded. -/
def finishDataset (b : PortalAssignmentBuilder P) (id : String) (readSchemaId : UInt32)
    (lastBlockHash : Option String) : Exec (PortalAssignmentBuilder P × Outcome) := do
  let (b, r) ← b.emitDataset id readSchemaId lastBlockHash
  match r with
  | .ok () => .ok (b, r)
  | .error _ => .ok (b.discardDataset, r)

/-- The life of a dataset handle; one that is dropped is discarded. -/
def runDataset (profile : Profile) (b : PortalAssignmentBuilder P) (id : String)
    (readSchemaId : UInt32) (ops : List PortalDatasetOp) (close : PortalClose) :
    Exec (PortalAssignmentBuilder P × PortalResult) := do
  let (b, log) ← runScript (runChunk profile) b ops
  match close with
  | .finish lastBlockHash =>
    let (b', r) ← b.finishDataset id readSchemaId lastBlockHash
    .ok (b', .dataset log b.columns (.finished r))
  | .drop => .ok (b.discardDataset, .dataset log b.columns .dropped)

variable [LT P] [DecidableLT P]

/-- Add a worker. -/
def addWorker (profile : Profile) (toBytes : P → List UInt8) (b : PortalAssignmentBuilder P)
    (id : P) (status : WorkerStatus) : Exec (PortalAssignmentBuilder P) := do
  assertAscending b.lastPeerId id
  let b := { b with lastPeerId := some id }
  let workerId ← workerIdFrom profile (toBytes id)
  .ok { b with workerEntries := b.workerEntries ++ [⟨workerId, statusToFb status⟩] }

/-- One operation on the builder. -/
def step (profile : Profile) (toBytes : P → List UInt8) (b : PortalAssignmentBuilder P) :
    PortalOp P → Exec (PortalAssignmentBuilder P × PortalResult)
  | .dataset id readSchemaId ops close => b.runDataset profile id readSchemaId ops close
  | .addWorker id status => do
    .ok (← b.addWorker profile toBytes id status, .added)

/-- The root table `finish` serialises. -/
def finish (b : PortalAssignmentBuilder P) : PortalAssignmentRoot where
  datasets := b.allDatasets
  workers := b.workerEntries

end PortalAssignmentBuilder

end SqdNetwork.Assignments
