import SqdNetwork.Assignments.Reader
import SqdNetwork.Assignments.WorkerBuilder

/-!
# The assignment before the split

The first assignment format keeps every chunk as a table of its own. Its builder
has no dataset handle: chunks collect until `finishDataset`, which names the
dataset after the last of them. Its reader searches the chunk tables with a
three-way search over signed bounds.
-/

namespace SqdNetwork.Assignments

open SqdNetwork.Core

/-- A file of a chunk. -/
structure FileUrl where
  filename : String
  url : String
  deriving DecidableEq, Repr

/-- A chunk of the legacy assignment. -/
structure Chunk where
  firstBlock : UInt64
  id : String
  datasetId : String
  size : UInt32
  lastBlockHash : Option String
  lastBlockTimestamp : Option UInt64
  datasetBaseUrl : String
  baseUrl : String
  files : List FileUrl
  workerIndexes : List UInt16
  deriving DecidableEq, Repr

/-- A dataset of the legacy assignment. -/
structure Dataset where
  id : String
  chunks : List Chunk
  lastBlock : UInt64
  deriving DecidableEq, Repr

/-- Root table of the legacy assignment. -/
structure AssignmentRoot where
  datasets : List Dataset
  workers : List WorkerEntry

/-- The legacy builder. -/
structure AssignmentBuilder (P Key Rng : Type) where
  rng : Rng
  lastBlock : Option UInt64
  currentChunks : List Chunk
  currentDatasetId : Option String
  allDatasets : List Dataset
  workerAssignments : List WorkerEntry
  lastPeerId : Option P
  cloudflareStorageSecret : String
  commonIdentity : List UInt8
  commonSecretKey : Key
  checkContinuity : Bool

/-- The chunk handle. -/
structure ChunkBuilder where
  blockRange : Option BlockRange := none
  id : Option String := none
  datasetId : Option String := none
  size : Option UInt32 := none
  lastBlockHash : Option String := none
  lastBlockTimestamp : Option UInt64 := none
  datasetBaseUrl : Option String := none
  files : Option (List FileUrl) := none
  workerIndexes : Option (List UInt16) := none

/-- One call on a chunk handle. -/
inductive ChunkCall where
  | id (id : DataChunk)
  | datasetId (datasetId : String)
  | blockRange (range : BlockRange)
  | size (size : UInt32)
  | lastBlockHash (hash : String)
  | lastBlockTimestamp (timestamp : UInt64)
  | datasetBaseUrl (url : String)
  | workerIndexes (indexes : List UInt16)
  | files (files : List String)

namespace AssignmentBuilder

variable {P Key Rng : Type}

/-- A builder with nothing staged. -/
def newWithRng (env : Sealing P Key Rng) (secret : String) (rng : Rng) :
    AssignmentBuilder P Key Rng where
  rng := (env.generate rng).2
  lastBlock := none
  currentChunks := []
  currentDatasetId := none
  allDatasets := []
  workerAssignments := []
  lastPeerId := none
  cloudflareStorageSecret := secret
  commonIdentity := env.publicKey (env.generate rng).1
  commonSecretKey := (env.generate rng).1
  checkContinuity := true

/-- Choose whether a gap between chunks is refused or only reported. -/
def setCheckContinuity (b : AssignmentBuilder P Key Rng) (check : Bool) :
    AssignmentBuilder P Key Rng :=
  { b with checkContinuity := check }

/-- Append a chunk to the open dataset, unless it breaks the continuity that is checked. -/
def addChunk (profile : Profile) (b : AssignmentBuilder P Key Rng) (chunk : Chunk)
    (dataset : String) (range : BlockRange) : Exec (AssignmentBuilder P Key Rng × Outcome) := do
  let result ← continuityOf profile b.lastBlock range.start
  if result = .ok () ∨ ¬ b.checkContinuity then
    .ok ({ b with
      lastBlock := some range.stop
      currentChunks := b.currentChunks ++ [chunk]
      currentDatasetId := some dataset }, result)
  else .ok (b, result)

/-- Close the open dataset under the id its last chunk names. -/
def finishDataset (b : AssignmentBuilder P Key Rng) : Exec (AssignmentBuilder P Key Rng) := do
  let lastBlock ← Exec.expect "At least one chunk should be present in the dataset" b.lastBlock
  let id ← Exec.expect "missing required field id" b.currentDatasetId
  .ok { b with
    lastBlock := none
    currentDatasetId := none
    allDatasets := b.allDatasets ++ [⟨id, b.currentChunks, lastBlock⟩]
    currentChunks := [] }

end AssignmentBuilder

namespace ChunkBuilder

variable {P Key Rng : Type}

/-- One call on a chunk handle. A file is stored under its name. -/
def call (chunk : ChunkBuilder) : ChunkCall → ChunkBuilder
  | .id id => { chunk with id := some (toString id) }
  | .datasetId datasetId => { chunk with datasetId := some datasetId }
  | .blockRange range => { chunk with blockRange := some range }
  | .size size => { chunk with size := some size }
  | .lastBlockHash hash => { chunk with lastBlockHash := some hash }
  | .lastBlockTimestamp timestamp => { chunk with lastBlockTimestamp := some timestamp }
  | .datasetBaseUrl url => { chunk with datasetBaseUrl := some url }
  | .workerIndexes indexes => { chunk with workerIndexes := some indexes }
  | .files files => { chunk with files := some (files.map fun name => ⟨name, name⟩) }

/-- The handle after a list of calls. -/
def ofCalls (calls : List ChunkCall) : ChunkBuilder := calls.foldl call {}

/-- Stage the chunk. Every unset field that the table requires is misuse and panics. -/
def finish (profile : Profile) (b : AssignmentBuilder P Key Rng) (chunk : ChunkBuilder) :
    Exec (AssignmentBuilder P Key Rng × Outcome) := do
  let range ← Exec.expect "Block range must be set" chunk.blockRange
  let size ← Exec.expect "Size must be set" chunk.size
  let id ← Exec.expect "missing required field id" chunk.id
  let datasetId ← Exec.expect "missing required field dataset_id" chunk.datasetId
  let datasetBaseUrl ←
    Exec.expect "missing required field dataset_base_url" chunk.datasetBaseUrl
  let baseUrl ← Exec.expect "missing required field base_url" chunk.id
  let files ← Exec.expect "missing required field files" chunk.files
  let workerIndexes ← Exec.expect "missing required field worker_indexes" chunk.workerIndexes
  b.addChunk profile
    { firstBlock := range.start
      id := id
      datasetId := datasetId
      size := size
      lastBlockHash := chunk.lastBlockHash
      lastBlockTimestamp := chunk.lastBlockTimestamp
      datasetBaseUrl := datasetBaseUrl
      baseUrl := baseUrl
      files := files
      workerIndexes := workerIndexes } datasetId range

end ChunkBuilder

/-- What happens on the legacy builder. -/
inductive AssignmentOp (P : Type) where
  /-- A chunk opened, called and then finished or dropped. -/
  | chunk (calls : List ChunkCall) (finish : Bool)
  | finishDataset
  | addWorker (id : P) (status : WorkerStatus) (timestamp : Nat)

/-- What an operation on the legacy builder reported. -/
inductive AssignmentResult where
  | chunk (e : ChunkEnd)
  | finished
  | added
  deriving DecidableEq

namespace AssignmentBuilder

variable {P Key Rng : Type}

/-- The life of a chunk handle. -/
def runChunk (profile : Profile) (b : AssignmentBuilder P Key Rng) (calls : List ChunkCall)
    (finish : Bool) : Exec (AssignmentBuilder P Key Rng × ChunkEnd) :=
  if finish then do
    let (b, r) ← (ChunkBuilder.ofCalls calls).finish profile b
    .ok (b, .finished r)
  else .ok (b, .dropped)

/-- Seal a worker's storage headers under the builder's identity; absent when encryption
fails. -/
def generateEncryptedHeaders (env : Sealing P Key Rng) (b : AssignmentBuilder P Key Rng) (id : P)
    (timestamp : Nat) : AssignmentBuilder P Key Rng × Option EncryptedHeaders :=
  let text := env.toText id
  let signature := env.timedHmac text b.cloudflareStorageSecret timestamp
  let plaintext :=
    "\x7b\"worker-id\":\"" ++ text ++ "\",\"worker-signature\":\"" ++ signature ++ "\"\x7d"
  match env.encryptWithRng id b.commonSecretKey (asBytes plaintext) b.rng with
  | (none, rng) => ({ b with rng := rng }, none)
  | (some (ciphertext, nonce), rng) =>
    ({ b with rng := rng }, some ⟨b.commonIdentity, nonce, ciphertext⟩)

variable [LT P] [DecidableLT P]

/-- Add a worker with headers signed for a timestamp. -/
def addWorkerWithTimestamp (profile : Profile) (env : Sealing P Key Rng)
    (b : AssignmentBuilder P Key Rng) (id : P) (status : WorkerStatus) (timestamp : Nat) :
    Exec (AssignmentBuilder P Key Rng) := do
  assertAscending b.lastPeerId id
  let b := { b with lastPeerId := some id }
  let workerId ← workerIdFrom profile (env.toBytes id)
  let (b, headers) := b.generateEncryptedHeaders env id timestamp
  .ok { b with
    workerAssignments := b.workerAssignments ++ [⟨workerId, statusToFb status, headers⟩] }

/-- One operation on the builder. -/
def step (profile : Profile) (env : Sealing P Key Rng) (b : AssignmentBuilder P Key Rng) :
    AssignmentOp P → Exec (AssignmentBuilder P Key Rng × AssignmentResult)
  | .chunk calls finish => do
    let (b, e) ← b.runChunk profile calls finish
    .ok (b, .chunk e)
  | .finishDataset => do
    .ok (← b.finishDataset, .finished)
  | .addWorker id status timestamp => do
    .ok (← b.addWorkerWithTimestamp profile env id status timestamp, .added)

/-- The root table `finish` serialises. -/
def finish (b : AssignmentBuilder P Key Rng) : AssignmentRoot where
  datasets := b.allDatasets
  workers := b.workerAssignments

end AssignmentBuilder

/-- An accepted legacy assignment. -/
@[ext]
structure Assignment where
  reader : AssignmentRoot

/-- The search over chunk tables: an equal element, else the last less one. -/
def binarySearchBy {α : Type} (v : List α) (cmp : α → Ordering) :
    Exec (Except (Option Nat) Nat) :=
  signedSearch (fun i => do .ok (cmp (← Exec.index v i))) (-1) v.length

namespace Assignment

/-- Verify the buffer; nothing else is checked. -/
def fromOwned (fb : FlatBuffers AssignmentRoot) (buf : fb.Buf) :
    Except InvalidFlatbuffer Assignment :=
  Assignment.mk <$> fb.root buf

def datasets (a : Assignment) : List Dataset := a.reader.datasets

def getDataset (a : Assignment) (dataset : String) : Exec (Option Dataset) :=
  lookupByKey a.datasets fun d => compare d.id dataset

/-- The last chunk that starts at or before `block`; where it ends is not stored. -/
def findChunk (a : Assignment) (dataset : String) (block : UInt64) :
    Exec (Except ChunkNotFound Chunk) := do
  match ← a.getDataset dataset with
  | none => .ok (.error .unknownDataset)
  | some d =>
    if block > d.lastBlock then .ok (.error .afterLast)
    else
      match ← binarySearchBy d.chunks fun chunk => compare chunk.firstBlock block with
      | .ok index => Except.ok <$> Exec.index d.chunks index
      | .error (some index) => Except.ok <$> Exec.index d.chunks index
      | .error none => .ok (.error .beforeFirst)

end Assignment

/-- From `index` down, the first position of the run of chunks that record `ts`. -/
def walkBack (chunks : List Chunk) (ts : UInt64) : Nat → Exec Nat
  | 0 => do
    let chunk ← Exec.index chunks 0
    if chunk.lastBlockTimestamp ≠ some ts then .ok 1 else .ok 0
  | index + 1 => do
    let chunk ← Exec.index chunks (index + 1)
    if chunk.lastBlockTimestamp ≠ some ts then .ok (index + 2) else walkBack chunks ts index

/-- Where a lookup by timestamp goes after its search: to an equal chunk, else to the one after
the last less one. -/
def searchStart (count : Nat) : Except (Option Nat) Nat → Except ChunkNotFound Nat
  | .ok index => .ok index
  | .error (some index) => if index + 1 < count then .ok (index + 1) else .error .afterLast
  | .error none => if count ≠ 0 then .ok 0 else .error .afterLast

/-- A chunk that records `ts` is left for the first of its run. -/
def toRunStart (chunks : List Chunk) (ts : UInt64) (index : Nat) : Exec Nat := do
  let chunk ← Exec.index chunks index
  if chunk.lastBlockTimestamp = some ts then walkBack chunks ts index else .ok index

/-- The lookup after its search. -/
def resume (chunks : List Chunk) (ts : UInt64) :
    Except ChunkNotFound Nat → Exec (Except ChunkNotFound Nat)
  | .error e => .ok (.error e)
  | .ok index => Except.ok <$> toRunStart chunks ts index

/-- The position of the first chunk whose timestamp is at or after `ts`. The search reads a
missing timestamp as zero, the walk to the start of a run does not. -/
def timestampIndex (chunks : List Chunk) (ts : UInt64) : Exec (Except ChunkNotFound Nat) := do
  let found ← binarySearchBy chunks fun chunk => compare (chunk.lastBlockTimestamp.getD 0) ts
  resume chunks ts (searchStart chunks.length found)

/-- The first chunk whose timestamp is at or after `ts`. -/
def Assignment.findChunkByTimestamp (a : Assignment) (dataset : String) (ts : UInt64) :
    Exec (Except ChunkNotFound Chunk) := do
  match ← a.getDataset dataset with
  | none => .ok (.error .unknownDataset)
  | some d =>
    match ← timestampIndex d.chunks ts with
    | .error e => .ok (.error e)
    | .ok index => Except.ok <$> Exec.index d.chunks index

end SqdNetwork.Assignments
