import SqdNetwork.DataChunk
import SqdNetwork.Core.Outcome

/-!
# Assignment tables

The generated FlatBuffers views, as the readers and the builders see them. A
vector is the list of its elements. The two dataset tables share the columns
that every chunk has; each adds its own. The library that turns a table into
bytes and back enters only through `FlatBuffers`.
-/

namespace SqdNetwork.Assignments

open SqdNetwork.Core

/-- A short chunk hash at fixed width. -/
structure ChunkHash where
  /-- The stored bytes, padded with NUL. -/
  bytes : List UInt8
  /-- The struct holds exactly eight bytes. -/
  size : bytes.length = 8

/-- Applies `top` from `firstChunkIndex` until the next run. -/
structure TopRun where
  firstChunkIndex : UInt32
  top : UInt64
  deriving DecidableEq, Repr

/-- The storage prefix of one chunk version. -/
structure GenerationEntry where
  version : UInt32
  baseUrl : String
  deriving DecidableEq, Repr

/-- A write schema's full table list. -/
structure TableRoster where
  writeSchemaId : UInt32
  tables : List String
  deriving DecidableEq, Repr

/-- A worker's standing, as the crate exposes it. -/
inductive WorkerStatus where
  | ok
  | unreliable
  | deprecatedVersion
  | unsupportedVersion
  deriving DecidableEq, Repr

/-- The stored status byte; a foreign buffer may hold any value. -/
structure FbWorkerStatus where
  value : Int8
  deriving DecidableEq, Repr

/-- The fixed slot of a worker's peer id. -/
structure WorkerId where
  /-- The stored bytes. -/
  bytes : List UInt8
  /-- The struct holds exactly 38 bytes. -/
  size : bytes.length = 38

/-- A worker's sealed storage headers. -/
structure EncryptedHeaders where
  identity : List UInt8
  nonce : List UInt8
  ciphertext : List UInt8
  deriving DecidableEq, Repr

/-- A worker's identity, status and sealed headers. -/
structure WorkerEntry where
  workerId : WorkerId
  status : FbWorkerStatus
  encryptedHeaders : Option EncryptedHeaders

/-- A worker's identity and routing eligibility. -/
structure PortalEntry where
  workerId : WorkerId
  status : FbWorkerStatus

/-- The chunk columns common to both dataset tables. -/
structure ColumnVectors where
  firstBlocks : List UInt64
  /-- Last block minus first block. -/
  blockDeltas : List UInt32
  hashes : List ChunkHash
  tops : List TopRun
  /-- Absent when every chunk is at version 0. -/
  versions : Option (List UInt32)
  /-- One entry longer than the chunk columns. -/
  workerOffsets : List UInt32
  workerIndexes : List UInt16

/-- A dataset of the worker-facing assignment. -/
structure WorkerAssignmentDataset extends ColumnVectors where
  id : String
  lastBlock : UInt64
  baseUrl : String
  generations : Option (List GenerationEntry)
  sizes : List UInt32
  writeSchemaIds : List UInt32
  tablesPresentOffsets : Option (List UInt32)
  tablesPresent : Option (List UInt8)

/-- A dataset of the portal-facing assignment. -/
structure PortalAssignmentDataset extends ColumnVectors where
  id : String
  lastBlock : UInt64
  lastBlockHash : Option String
  readSchemaId : UInt32
  /-- Zero for a timestamp that was never recorded. -/
  timestamps : List UInt64

/-- Root table of the worker-facing assignment. -/
structure WorkerAssignmentRoot where
  datasets : List WorkerAssignmentDataset
  workers : List WorkerEntry
  schemas : List TableRoster

/-- Root table of the portal-facing assignment. -/
structure PortalAssignmentRoot where
  datasets : List PortalAssignmentDataset
  workers : List PortalEntry

/-- The library's refusal of a buffer. -/
structure InvalidFlatbuffer where
  detail : String
  deriving DecidableEq, Repr

/-- What is used of the FlatBuffers library for one root table: writing a finished
table, verifying a buffer, and that a written table reads back. -/
structure FlatBuffers (Root : Type) where
  /-- Finished buffers. -/
  Buf : Type
  /-- Serialise a root table. -/
  finish : Root → Buf
  /-- Verify a buffer and view its root table. -/
  root : Buf → Except InvalidFlatbuffer Root
  /-- Vectors and tables read back as written. -/
  root_finish : ∀ t, root (finish t) = .ok t

/-- The codec whose buffers are the tables themselves. -/
def FlatBuffers.plain (Root : Type) : FlatBuffers Root := ⟨Root, fun t => t, .ok, fun _ => rfl⟩

/-- Why an assignment could not be read. -/
inductive InvalidAssignment where
  | flatbuffer (error : InvalidFlatbuffer)
  /-- The buffer is well formed, but a dataset's columns contradict each other. -/
  | columns (dataset detail : String)
  deriving DecidableEq, Repr

/-- The crate's status as the stored byte. -/
def statusToFb : WorkerStatus → FbWorkerStatus
  | .ok => ⟨0⟩
  | .unreliable => ⟨1⟩
  | .deprecatedVersion => ⟨2⟩
  | .unsupportedVersion => ⟨3⟩

/-- The stored byte as the crate's status; an unknown byte counts as unsupported. -/
def statusFromFb (status : FbWorkerStatus) : WorkerStatus :=
  if status.value = 0 then .ok
  else if status.value = 1 then .unreliable
  else if status.value = 2 then .deprecatedVersion
  else .unsupportedVersion

/-- Every status survives its stored byte. -/
@[simp] theorem statusFromFb_statusToFb (s : WorkerStatus) : statusFromFb (statusToFb s) = s := by
  cases s <;> decide

end SqdNetwork.Assignments
