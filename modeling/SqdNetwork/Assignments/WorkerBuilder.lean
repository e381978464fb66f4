import SqdNetwork.Assignments.Staging
import SqdNetwork.Core.Script
import SqdNetwork.Core.SortedMap

/-!
# Building worker-facing assignments

The builder, the dataset opened on it and the chunk opened on that share one
state, since each handle borrows its parent. A chunk handle is consumed by every
call, so its life is a list of calls that ends in `finish`, in a call that fails
or in being dropped; a dataset handle lives likewise until `finish` or drop. A
run of the builder is therefore a nested script.
-/

namespace SqdNetwork.Assignments

open SqdNetwork.Core

/-- The dataset being staged on the worker side. -/
structure WorkerDatasetColumns extends StagedColumns where
  sizes : List UInt32 := []
  writeSchemaIds : List UInt32 := []
  tablesPresent : List UInt8 := []
  /-- Where each chunk's bitmap ends. -/
  tablesPresentEnds : List UInt32 := []
  /-- Whether any chunk trimmed its tables; if none did, both columns are dropped. -/
  anyTablesTrimmed : Bool := false

/-- What the builder uses of peer ids and of cryptography. -/
structure Sealing (P Key Rng : Type) where
  /-- The bytes of a peer id. -/
  toBytes : P → List UInt8
  /-- The text of a peer id. -/
  toText : P → String
  /-- A fresh secret key. -/
  generate : Rng → Key × Rng
  /-- The bytes of the public half. -/
  publicKey : Key → List UInt8
  /-- The timed signature of a message under a secret. -/
  timedHmac : String → String → Nat → String
  /-- Ciphertext and nonce, or nothing when the peer id holds no usable key. -/
  encryptWithRng : P → Key → List UInt8 → Rng → Option (List UInt8 × List UInt8) × Rng

/-- The worker-facing builder. -/
structure WorkerAssignmentBuilder (P Key Rng : Type) where
  rng : Rng
  lastBlock : Option UInt64
  allDatasets : List WorkerAssignmentDataset
  workerEntries : List WorkerEntry
  lastPeerId : Option P
  cloudflareStorageSecret : String
  /-- Written when headers are first encrypted. -/
  commonIdentity : Option (List UInt8)
  commonSecretKey : Key
  checkContinuity : Bool
  writeSchemas : SortedMap UInt32 (List String)
  /-- Per dataset, unlike the write schemas. -/
  currentGenerations : SortedMap UInt32 String
  columns : WorkerDatasetColumns
  /-- The open chunk's worker indexes, cleared when a chunk is opened. -/
  stagedWorkerIndexes : List UInt16
  /-- The open chunk's tables bitmap, cleared when a chunk is opened. -/
  stagedTablesPresent : List UInt8

/-- Values staged for one worker chunk. -/
structure PushChunk where
  top : UInt64
  blockRange : BlockRange
  hash : ChunkHash
  size : UInt32
  writeSchemaId : UInt32
  version : UInt32

namespace WorkerDatasetColumns

/-- Append a bitmap and close its slice; the end is truncated to 32 bits. -/
def pushBitmap (c : WorkerDatasetColumns) (bits : List UInt8) : WorkerDatasetColumns :=
  { c with
    tablesPresent := c.tablesPresent ++ bits
    tablesPresentEnds := c.tablesPresentEnds ++ [UInt32.ofNat (c.tablesPresent ++ bits).length] }

/-- Everything a chunk appends before its worker slice is closed. -/
def pushRow (c : WorkerDatasetColumns) (index delta : UInt32) (chunk : PushChunk)
    (bits : List UInt8) (workers : List UInt16) : WorkerDatasetColumns :=
  let columns :=
    { c with
      toStagedColumns := c.toStagedColumns.pushRow index delta chunk.top chunk.blockRange.start
        chunk.hash chunk.version workers
      sizes := c.sizes ++ [chunk.size]
      writeSchemaIds := c.writeSchemaIds ++ [chunk.writeSchemaId]
      anyTablesTrimmed := c.anyTablesTrimmed || !bits.isEmpty }
  columns.pushBitmap bits

/-- Close a chunk's worker slice. -/
def pushEnd (c : WorkerDatasetColumns) (stop : UInt32) : WorkerDatasetColumns :=
  { c with toStagedColumns := c.toStagedColumns.pushEnd stop }

/-- The table the columns are emitted as; the bitmap columns are dropped when no chunk trimmed
its tables. -/
def toDataset (c : WorkerDatasetColumns) (id : String) (lastBlock : UInt64) (baseUrl : String)
    (generations : Option (List GenerationEntry)) : WorkerAssignmentDataset where
  toColumnVectors := c.emit
  id := id
  lastBlock := lastBlock
  baseUrl := baseUrl
  generations := generations
  sizes := c.sizes
  writeSchemaIds := c.writeSchemaIds
  tablesPresentOffsets := if c.anyTablesTrimmed then some (0 :: c.tablesPresentEnds) else none
  tablesPresent := if c.anyTablesTrimmed then some c.tablesPresent else none

end WorkerDatasetColumns

/-- The chunk handle, beside what it keeps on the builder. -/
structure WorkerAssignmentChunkBuilder where
  blockRange : Option BlockRange := none
  id : Option DataChunk := none
  size : Option UInt32 := none
  version : UInt32 := 0
  writeSchemaId : Option UInt32 := none
  /-- The write schema the staged bitmap was encoded against. -/
  tablesPresent : Option UInt32 := none

/-- One call on a chunk handle. -/
inductive WorkerChunkCall where
  | id (id : DataChunk)
  | blockRange (range : BlockRange)
  | size (size : UInt32)
  | version (version : UInt32)
  | writeSchemaId (writeSchemaId : UInt32)
  | tablesPresent (tables : List String)
  | workerIndexes (indexes : List UInt16)

/-- One pass over a sorted roster and sorted names, setting the bit of every name found. The
bits set before a missing name stay set. -/
def selectTables (roster : List String) (writeSchemaId : UInt32) :
    List String → Nat → List UInt8 → List UInt8 × Outcome
  | [], _, bits => (bits, .ok ())
  | name :: names, index, bits =>
    let index := index + ((roster.drop index).takeWhile (· < name)).length
    if roster[index]? = some name then
      selectTables roster writeSchemaId names (index + 1)
        (bits.modify (index / 8) (· ||| ((1 : UInt8) <<< UInt8.ofNat (index % 8))))
    else (bits, .error (.tableAbsent name writeSchemaId))

namespace WorkerAssignmentBuilder

variable {P Key Rng : Type}

/-- A builder with nothing staged. -/
def newWithRng (env : Sealing P Key Rng) (secret : String) (rng : Rng) :
    WorkerAssignmentBuilder P Key Rng where
  rng := (env.generate rng).2
  lastBlock := none
  allDatasets := []
  workerEntries := []
  lastPeerId := none
  cloudflareStorageSecret := secret
  commonIdentity := none
  commonSecretKey := (env.generate rng).1
  checkContinuity := true
  writeSchemas := .empty
  currentGenerations := .empty
  columns := {}
  stagedWorkerIndexes := []
  stagedTablesPresent := []

/-- Choose whether a gap between chunks is refused or only reported. -/
def setCheckContinuity (b : WorkerAssignmentBuilder P Key Rng) (check : Bool) :
    WorkerAssignmentBuilder P Key Rng :=
  { b with checkContinuity := check }

/-- Register a schema's full table list. -/
def registerWriteSchema (b : WorkerAssignmentBuilder P Key Rng) (writeSchemaId : UInt32)
    (tables : List String) : WorkerAssignmentBuilder P Key Rng × Outcome :=
  if isSortedBy (· < ·) tables then
    match b.writeSchemas.get? writeSchemaId with
    | some registered =>
      (b, if registered = tables then .ok () else .error (.rosterChanged writeSchemaId))
    | none => ({ b with writeSchemas := b.writeSchemas.insert writeSchemaId tables }, .ok ())
  else (b, .error (.unsortedRoster writeSchemaId))

/-- Forget everything staged for the open dataset. -/
def discardDataset (b : WorkerAssignmentBuilder P Key Rng) : WorkerAssignmentBuilder P Key Rng :=
  { b with columns := {}, lastBlock := none, currentGenerations := .empty }

/-- The generations of the open dataset; absent when none was registered. -/
def createGenerations (b : WorkerAssignmentBuilder P Key Rng) : Option (List GenerationEntry) :=
  if b.currentGenerations.entries.isEmpty then none
  else some (b.currentGenerations.entries.map fun (version, url) => ⟨version, url⟩)

/-- Emit the staged chunks as the dataset's columns. -/
def emitDataset (b : WorkerAssignmentBuilder P Key Rng) (id baseUrl : String) :
    Exec (WorkerAssignmentBuilder P Key Rng × Outcome) :=
  if b.columns.firstBlocks.length = 0 then .ok (b, .error .noChunks)
  else
    match checkTopRuns b.columns.tops with
    | .error e => .ok (b, .error e)
    | .ok () => do
      let lastBlock ← Exec.expect
        "a staged chunk sets last_block, and the count was checked above" b.lastBlock
      let dataset := b.columns.toDataset id lastBlock baseUrl b.createGenerations
      .ok ({ b with
        columns := {}
        lastBlock := none
        allDatasets := b.allDatasets ++ [dataset]
        currentGenerations := .empty }, .ok ())

/-- Append one chunk to the open dataset. -/
def pushChunk (profile : Profile) (b : WorkerAssignmentBuilder P Key Rng) (chunk : PushChunk) :
    Exec (WorkerAssignmentBuilder P Key Rng × Outcome) := do
  let (columns, lastBlock, r) ← appendChunk profile b.checkContinuity
    WorkerDatasetColumns.toStagedColumns
    (fun index delta c => c.pushRow index delta chunk b.stagedTablesPresent b.stagedWorkerIndexes)
    (fun stop c => c.pushEnd stop) b.columns b.lastBlock chunk.blockRange
  .ok ({ b with columns := columns, lastBlock := lastBlock }, r)

/-- Register the storage prefix of a version on the open dataset. -/
def registerGeneration (b : WorkerAssignmentBuilder P Key Rng) (version : UInt32)
    (baseUrl : String) : WorkerAssignmentBuilder P Key Rng × Outcome :=
  if version = 0 then (b, .error .ingestedGeneration)
  else match b.currentGenerations.get? version with
    | some existing =>
      (b, if existing = baseUrl then .ok () else .error (.generationChanged version))
    | none =>
      ({ b with currentGenerations := b.currentGenerations.insert version baseUrl }, .ok ())

/-- Open a chunk on the open dataset. -/
def newChunk (b : WorkerAssignmentBuilder P Key Rng) :
    WorkerAssignmentBuilder P Key Rng × WorkerAssignmentChunkBuilder :=
  ({ b with stagedWorkerIndexes := [], stagedTablesPresent := [] }, {})

end WorkerAssignmentBuilder

namespace WorkerAssignmentChunkBuilder

variable {P Key Rng : Type}

/-- Encode the tables a chunk holds as a bitmap over its schema's roster. A failed call
consumes the handle. -/
def setTablesPresent (profile : Profile) (b : WorkerAssignmentBuilder P Key Rng)
    (chunk : WorkerAssignmentChunkBuilder) (tables : List String) :
    Exec (WorkerAssignmentBuilder P Key Rng ×
      Except BuildError WorkerAssignmentChunkBuilder) := do
  Exec.debugAssert profile "tables_present must be sorted and free of duplicates"
    (isSortedBy (· < ·) tables)
  match chunk.writeSchemaId with
  | none => .ok (b, .error .writeSchemaBeforeTables)
  | some writeSchemaId =>
    match b.writeSchemas.get? writeSchemaId with
    | none => .ok (b, .error (.writeSchemaUnregistered writeSchemaId))
    | some roster =>
      let (bits, r) := selectTables roster writeSchemaId tables 0
        (List.replicate ((roster.length + 7) / 8) 0)
      let b := { b with stagedTablesPresent := bits }
      match r with
      | .error e => .ok (b, .error e)
      | .ok () => .ok (b, .ok { chunk with tablesPresent := some writeSchemaId })

/-- One call on a chunk handle. -/
def call (profile : Profile) (b : WorkerAssignmentBuilder P Key Rng)
    (chunk : WorkerAssignmentChunkBuilder) :
    WorkerChunkCall → Exec (WorkerAssignmentBuilder P Key Rng ×
      Except BuildError WorkerAssignmentChunkBuilder)
  | .id id => .ok (b, .ok { chunk with id := some id })
  | .blockRange range => .ok (b, .ok { chunk with blockRange := some range })
  | .size size => .ok (b, .ok { chunk with size := some size })
  | .version version => .ok (b, .ok { chunk with version := version })
  | .writeSchemaId writeSchemaId => .ok (b, .ok { chunk with writeSchemaId := some writeSchemaId })
  | .tablesPresent tables => setTablesPresent profile b chunk tables
  | .workerIndexes indexes => .ok ({ b with stagedWorkerIndexes := indexes }, .ok chunk)

/-- The calls on a chunk handle in order, up to the first that fails. -/
def calls (profile : Profile) (b : WorkerAssignmentBuilder P Key Rng)
    (chunk : WorkerAssignmentChunkBuilder) :
    List WorkerChunkCall → Exec (WorkerAssignmentBuilder P Key Rng ×
      Except BuildError WorkerAssignmentChunkBuilder)
  | [] => .ok (b, .ok chunk)
  | c :: rest => do
    match ← call profile b chunk c with
    | (b, .error e) => .ok (b, .error e)
    | (b, .ok chunk) => calls profile b chunk rest

/-- Stage the chunk. An unset range or size is misuse and panics. -/
def finish (profile : Profile) (b : WorkerAssignmentBuilder P Key Rng)
    (chunk : WorkerAssignmentChunkBuilder) :
    Exec (WorkerAssignmentBuilder P Key Rng × Outcome) := do
  let range ← Exec.expect "Block range must be set" chunk.blockRange
  match chunk.id with
  | none => .ok (b, .error .idUnset)
  | some id =>
    if ¬ (id.firstBlock = range.start ∧ id.lastBlock = range.stop) then
      .ok (b, .error (.idRange id.firstBlock id.lastBlock range.start range.stop))
    else match chunk.writeSchemaId with
      | none => .ok (b, .error .writeSchemaUnset)
      | some writeSchemaId =>
        if ¬ b.writeSchemas.contains writeSchemaId then
          .ok (b, .error (.writeSchemaUnregistered writeSchemaId))
        else if ¬ (chunk.version = 0 ∨ b.currentGenerations.contains chunk.version) then
          .ok (b, .error (.generationUnregistered chunk.version))
        else match chunk.tablesPresent.filter (· ≠ writeSchemaId) with
          | some encodedAgainst => .ok (b, .error (.tablesSchema encodedAgainst writeSchemaId))
          | none => do
            let size ← Exec.expect "Size must be set" chunk.size
            b.pushChunk profile
              { top := id.top
                blockRange := range
                hash := chunkHash id
                size := size
                writeSchemaId := writeSchemaId
                version := chunk.version }

end WorkerAssignmentChunkBuilder

/-- What happens on an open worker dataset. -/
inductive WorkerDatasetOp where
  | registerGeneration (version : UInt32) (baseUrl : String)
  /-- A chunk opened, called and then finished or dropped. -/
  | chunk (calls : List WorkerChunkCall) (finish : Bool)

/-- What an operation on an open worker dataset reported. -/
inductive WorkerDatasetResult where
  | generation (r : Outcome)
  | chunk (e : ChunkEnd)
  deriving DecidableEq

/-- What happens on the worker-facing builder. -/
inductive WorkerOp (P : Type) where
  | registerWriteSchema (writeSchemaId : UInt32) (tables : List String)
  /-- A dataset opened, filled and then finished or dropped. -/
  | dataset (id baseUrl : String) (ops : List WorkerDatasetOp) (finish : Bool)
  | addWorker (id : P) (status : WorkerStatus) (timestamp : Nat)
  | addWorkerWithSealedHeaders (id : P) (status : WorkerStatus)
      (identity nonce ciphertext : List UInt8)

/-- What an operation on the worker-facing builder reported. A dataset also records the columns
as they stood when its handle ended. -/
inductive WorkerResult where
  | registered (r : Outcome)
  | dataset (log : List (WorkerDatasetOp × WorkerDatasetResult)) (staged : WorkerDatasetColumns)
      (e : DatasetEnd)
  | added

namespace WorkerAssignmentBuilder

variable {P Key Rng : Type}

/-- The life of a chunk handle. -/
def runChunk (profile : Profile) (b : WorkerAssignmentBuilder P Key Rng)
    (calls : List WorkerChunkCall) (finish : Bool) :
    Exec (WorkerAssignmentBuilder P Key Rng × ChunkEnd) := do
  let (b, chunk) := b.newChunk
  match ← chunk.calls profile b calls with
  | (b, .error e) => .ok (b, .rejected e)
  | (b, .ok chunk) =>
    if finish then do
      let (b, r) ← chunk.finish profile b
      .ok (b, .finished r)
    else .ok (b, .dropped)

/-- One operation on the open dataset. -/
def datasetStep (profile : Profile) (b : WorkerAssignmentBuilder P Key Rng) :
    WorkerDatasetOp → Exec (WorkerAssignmentBuilder P Key Rng × WorkerDatasetResult)
  | .registerGeneration version baseUrl =>
    let (b, r) := b.registerGeneration version baseUrl
    .ok (b, .generation r)
  | .chunk calls finish => do
    let (b, e) ← b.runChunk profile calls finish
    .ok (b, .chunk e)

/-- Finish a dataset handle; a refused dataset is discarded. -/
def finishDataset (b : WorkerAssignmentBuilder P Key Rng) (id baseUrl : String) :
    Exec (WorkerAssignmentBuilder P Key Rng × Outcome) := do
  let (b, r) ← b.emitDataset id baseUrl
  match r with
  | .ok () => .ok (b, r)
  | .error _ => .ok (b.discardDataset, r)

/-- The life of a dataset handle; one that is dropped is discarded. -/
def runDataset (profile : Profile) (b : WorkerAssignmentBuilder P Key Rng) (id baseUrl : String)
    (ops : List WorkerDatasetOp) (finish : Bool) :
    Exec (WorkerAssignmentBuilder P Key Rng × WorkerResult) := do
  let (b, log) ← runScript (datasetStep profile) b ops
  if finish then do
    let (b', r) ← b.finishDataset id baseUrl
    .ok (b', .dataset log b.columns (.finished r))
  else .ok (b.discardDataset, .dataset log b.columns .dropped)

/-- Seal a worker's storage headers; absent when encryption fails. -/
def generateEncryptedHeaders (env : Sealing P Key Rng) (b : WorkerAssignmentBuilder P Key Rng)
    (id : P) (timestamp : Nat) : WorkerAssignmentBuilder P Key Rng × Option EncryptedHeaders :=
  let text := env.toText id
  let signature := env.timedHmac text b.cloudflareStorageSecret timestamp
  let plaintext :=
    "\x7b\"worker-id\":\"" ++ text ++ "\",\"worker-signature\":\"" ++ signature ++ "\"\x7d"
  match env.encryptWithRng id b.commonSecretKey (asBytes plaintext) b.rng with
  | (none, rng) => ({ b with rng := rng }, none)
  | (some (ciphertext, nonce), rng) =>
    let identity := b.commonIdentity.getD (env.publicKey b.commonSecretKey)
    ({ b with rng := rng, commonIdentity := some identity },
      some ⟨identity, nonce, ciphertext⟩)

/-- Sealing headers moves the random state and settles the common identity, nothing else. -/
theorem generateEncryptedHeaders_frame (env : Sealing P Key Rng)
    (b : WorkerAssignmentBuilder P Key Rng) (id : P) (timestamp : Nat) :
    ∃ rng identity, (b.generateEncryptedHeaders env id timestamp).1 =
      { b with rng := rng, commonIdentity := identity } := by
  unfold generateEncryptedHeaders
  dsimp only
  split
  · exact ⟨_, b.commonIdentity, rfl⟩
  · exact ⟨_, _, rfl⟩

/-- Append a worker entry. -/
def pushWorker (b : WorkerAssignmentBuilder P Key Rng) (workerId : WorkerId)
    (status : WorkerStatus) (headers : Option EncryptedHeaders) :
    WorkerAssignmentBuilder P Key Rng :=
  { b with workerEntries := b.workerEntries ++ [⟨workerId, statusToFb status, headers⟩] }

variable [LT P] [DecidableLT P]

/-- Add a worker, sealing its headers for the given time. -/
def addWorkerWithTimestamp (profile : Profile) (env : Sealing P Key Rng)
    (b : WorkerAssignmentBuilder P Key Rng) (id : P) (status : WorkerStatus) (timestamp : Nat) :
    Exec (WorkerAssignmentBuilder P Key Rng) := do
  assertAscending b.lastPeerId id
  let b := { b with lastPeerId := some id }
  let workerId ← workerIdFrom profile (env.toBytes id)
  let (b, headers) := b.generateEncryptedHeaders env id timestamp
  .ok (b.pushWorker workerId status headers)

/-- Add a worker whose headers were sealed elsewhere. -/
def addWorkerWithSealedHeaders (profile : Profile) (env : Sealing P Key Rng)
    (b : WorkerAssignmentBuilder P Key Rng) (id : P) (status : WorkerStatus)
    (identity nonce ciphertext : List UInt8) : Exec (WorkerAssignmentBuilder P Key Rng) := do
  assertAscending b.lastPeerId id
  let b := { b with lastPeerId := some id }
  let workerId ← workerIdFrom profile (env.toBytes id)
  .ok (b.pushWorker workerId status (some ⟨identity, nonce, ciphertext⟩))

/-- One operation on the builder. -/
def step (profile : Profile) (env : Sealing P Key Rng) (b : WorkerAssignmentBuilder P Key Rng) :
    WorkerOp P → Exec (WorkerAssignmentBuilder P Key Rng × WorkerResult)
  | .registerWriteSchema writeSchemaId tables =>
    let (b, r) := b.registerWriteSchema writeSchemaId tables
    .ok (b, .registered r)
  | .dataset id baseUrl ops finish => b.runDataset profile id baseUrl ops finish
  | .addWorker id status timestamp => do
    .ok (← b.addWorkerWithTimestamp profile env id status timestamp, .added)
  | .addWorkerWithSealedHeaders id status identity nonce ciphertext => do
    .ok (← b.addWorkerWithSealedHeaders profile env id status identity nonce ciphertext, .added)

/-- The root table `finish` serialises: rosters by schema id, then datasets and workers in the
order they were added. -/
def finish (b : WorkerAssignmentBuilder P Key Rng) : WorkerAssignmentRoot where
  schemas := b.writeSchemas.entries.map fun (writeSchemaId, tables) => ⟨writeSchemaId, tables⟩
  datasets := b.allDatasets
  workers := b.workerEntries

end WorkerAssignmentBuilder

end SqdNetwork.Assignments
