import Mathlib.Data.List.Destutter
import Mathlib.Data.List.Sort
import SqdNetwork.Core.Fallible
import SqdNetwork.Core.SortedMap
import SqdNetwork.DataChunk.FromStr
import SqdNetwork.Assignments.Legacy
import SqdNetwork.Assignments.PortalBuilder
import SqdNetwork.Assignments.WorkerEntries

/-!
# Converting a legacy assignment

The converter drives both builders over a legacy assignment with the continuity
check off and then compares the two blobs with their source, field by field. An
error of either builder ends the conversion, also the report of a gap.
-/

namespace SqdNetwork.Assignments

open SqdNetwork.Core

/-- A worker's entry in the legacy assignment and the position chunks name it by. -/
structure LegacyWorker where
  assignment : AssignmentRoot
  reader : WorkerEntry
  index : UInt16

namespace Assignment

def workers (a : Assignment) : List WorkerEntry := a.reader.workers

def getWorkerByIndex (a : Assignment) (index : UInt16) : Exec LegacyWorker := do
  let worker ← Exec.index a.workers index.toNat
  .ok ⟨a.reader, worker, index⟩

end Assignment

namespace LegacyWorker

def peerId {P : Type} (fromBytes : List UInt8 → Option P) (w : LegacyWorker) : Option P :=
  w.reader.workerId.tryInto fromBytes

def status (w : LegacyWorker) : WorkerStatus := statusFromFb w.reader.status

end LegacyWorker

/-- The head hash is the last chunk's. The subtraction of a dataset without chunks is checked in
debug builds; in release builds it wraps to a position past the end. -/
def Dataset.lastBlockHash (profile : Profile) (d : Dataset) : Exec (Option String) :=
  match d.chunks.getLast? with
  | some chunk => .ok chunk.lastBlockHash
  | none => .error (if profile = .debug then .overflow else .outOfRange)

/-- A worker's entry in the portal assignment. -/
structure PortalWorker where
  reader : PortalEntry

namespace PortalAssignment

def workers (a : PortalAssignment) : List PortalEntry := a.reader.workers

def getWorkerByIndex (a : PortalAssignment) (index : UInt16) : Exec PortalWorker := do
  .ok ⟨← Exec.index a.workers index.toNat⟩

end PortalAssignment

namespace PortalWorker

def peerId {P : Type} (fromBytes : List UInt8 → Option P) (w : PortalWorker) : Option P :=
  w.reader.workerId.tryInto fromBytes

def status (w : PortalWorker) : WorkerStatus := statusFromFb w.reader.status

end PortalWorker

/-- Why a conversion ends. -/
inductive ConvertError where
  | build (e : BuildError)
  /-- Stored bytes that are no peer id. -/
  | peerId
  | workerHeaders
  | idUnparsed (id : String)
  | idFirstBlock (id : DataChunk) (firstBlock : UInt64)
  | datasetCount
  | datasetIndex (index : Nat) (id : String)
  | lastBlock (id : String)
  | headHash (id : String)
  | workerChunkCount (id : String)
  | portalChunkCount (id : String)
  | baseUrl (id : String)
  | filedUnder (chunkId datasetId id : String)
  | workerChunkMissing
  | workerChunkId (id : String) (i : Nat) (rebuilt : Option String)
  | workerBlockRange (chunkId : String)
  | size (chunkId : String)
  | url (chunkId : String)
  | noRoster
  | tables (chunkId : String) (resolved : List String)
  | portalChunkMissing
  | portalChunkId (chunkId : String) (rebuilt : Option String)
  | portalBlockRange (chunkId : String)
  | timestamp (chunkId : String)
  | version (chunkId : String)
  | workerIndexes (chunkId : String)
  | workerCount
  | workerIdentity (index : Nat)
  | workerStatus (index : Nat)
  | headersLost
  | sealedHeaders (index : Nat)

/-- The text before a suffix. -/
def stripSuffix (suffix text : String) : Option String :=
  if suffix.toList <:+ text.toList then
    some (String.ofList (text.toList.take (text.toList.length - suffix.toList.length)))
  else none

/-- A table is a `*.parquet` file with the extension stripped; every other name is ignored. -/
def tablesOf (chunk : Chunk) : List String :=
  let tables := chunk.files.filterMap fun file => stripSuffix ".parquet" file.filename
  (tables.insertionSort fun a b => ¬b < a).destutter (· ≠ ·)

/-- The union of the tables of a dataset's chunks, in order. -/
def rosterOf (dataset : Dataset) : List String :=
  let union : SortedMap String Unit := dataset.chunks.foldl
    (fun union chunk => (tablesOf chunk).foldl (fun union table => union.insert table ()) union)
    .empty
  union.entries.map Prod.fst

/-- Each dataset's roster. -/
def rosters (legacy : Assignment) : List (List String) := legacy.datasets.map rosterOf

/-- Ordinals are 1-based, leaving 0 free to mean "unset". -/
def schemaId (profile : Profile) (datasetIndex : Nat) : Exec UInt32 :=
  Exec.addU32 profile (UInt32.ofNat datasetIndex) 1

/-- Legacy chunks carry no end block; the id does, and it agrees with the first block. -/
def idOf (chunk : Chunk) : Fallible ConvertError DataChunk := do
  let id ← Fallible.context (.idUnparsed chunk.id) (DataChunk.fromStr chunk.id)
  Fallible.ensure (id.firstBlock == chunk.firstBlock) (.idFirstBlock id chunk.firstBlock)
  pure id

section BuildWorker

variable {P Key Rng : Type}

/-- Register a dataset's roster under its ordinal. -/
def registerRoster (profile : Profile) (b : WorkerAssignmentBuilder P Key Rng)
    (entry : List String × Nat) : Fallible ConvertError (WorkerAssignmentBuilder P Key Rng) := do
  let (b, r) := b.registerWriteSchema (← schemaId profile entry.2) entry.1
  Fallible.convert .build r
  pure b

/-- Stage one chunk for workers. Its tables are listed only where they are not the whole
roster. -/
def buildWorkerChunk (profile : Profile) (writeSchemaId : UInt32) (roster : List String)
    (b : WorkerAssignmentBuilder P Key Rng) (chunk : Chunk) :
    Fallible ConvertError (WorkerAssignmentBuilder P Key Rng) := do
  let tables := tablesOf chunk
  let id ← idOf chunk
  let (b, staged) := b.newChunk
  let (b, r) ← staged.calls profile b [.id id, .blockRange ⟨id.firstBlock, id.lastBlock⟩,
    .size chunk.size, .writeSchemaId writeSchemaId, .workerIndexes chunk.workerIndexes]
  let staged ← Fallible.convert .build r
  let (b, r) ← (if tables.length ≠ roster.length then staged.setTablesPresent profile b tables
    else .ok (b, .ok staged) : Exec _)
  let staged ← Fallible.convert .build r
  let (b, r) ← staged.finish profile b
  Fallible.convert .build r
  pure b

/-- Stage one dataset for workers. -/
def buildWorkerDataset (profile : Profile) (rosters : List (List String))
    (b : WorkerAssignmentBuilder P Key Rng) (entry : Dataset × Nat) :
    Fallible ConvertError (WorkerAssignmentBuilder P Key Rng) := do
  let (dataset, index) := entry
  let writeSchemaId ← schemaId profile index
  let roster ← Exec.index rosters index
  let first ← Exec.index dataset.chunks 0
  let b ← dataset.chunks.foldlM (buildWorkerChunk profile writeSchemaId roster) b
  let (b, r) ← b.finishDataset dataset.id first.datasetBaseUrl
  Fallible.convert .build r
  pure b

variable [LT P] [DecidableLT P]

/-- Copy one worker with its sealed headers. -/
def copyWorker (profile : Profile) (env : Sealing P Key Rng) (fromBytes : List UInt8 → Option P)
    (legacy : Assignment) (b : WorkerAssignmentBuilder P Key Rng) (index : Nat) :
    Fallible ConvertError (WorkerAssignmentBuilder P Key Rng) := do
  let entry ← Exec.index legacy.workers index
  let headers ← Fallible.context .workerHeaders entry.encryptedHeaders
  let worker ← legacy.getWorkerByIndex (UInt16.ofNat index)
  let peerId ← Fallible.context .peerId (worker.peerId fromBytes)
  b.addWorkerWithSealedHeaders profile env peerId worker.status headers.identity headers.nonce
    headers.ciphertext

/-- The worker-facing blob of a legacy assignment. -/
def buildWorker (profile : Profile) (env : Sealing P Key Rng) (fromBytes : List UInt8 → Option P)
    (fb : FlatBuffers WorkerAssignmentRoot) (rng : Rng) (legacy : Assignment) :
    Fallible ConvertError fb.Buf := do
  let rosters := rosters legacy
  let b := (WorkerAssignmentBuilder.newWithRng env "" rng).setCheckContinuity false
  let b ← rosters.zipIdx.foldlM (registerRoster profile) b
  let b ← legacy.datasets.zipIdx.foldlM (buildWorkerDataset profile rosters) b
  let b ← (List.range legacy.workers.length).foldlM (copyWorker profile env fromBytes legacy) b
  pure (fb.finish b.finish)

end BuildWorker

section BuildPortal

variable {P : Type}

/-- Stage one chunk for portals. -/
def buildPortalChunk (profile : Profile) (b : PortalAssignmentBuilder P) (chunk : Chunk) :
    Fallible ConvertError (PortalAssignmentBuilder P) := do
  let id ← idOf chunk
  let (b, staged) := b.newChunk
  let (b, staged) := staged.calls b ([.id id, .blockRange ⟨id.firstBlock, id.lastBlock⟩,
    .workerIndexes chunk.workerIndexes] ++
      (chunk.lastBlockTimestamp.map PortalChunkCall.lastBlockTimestamp).toList)
  let (b, r) ← staged.finish profile b
  Fallible.convert .build r
  pure b

/-- Stage one dataset for portals. -/
def buildPortalDataset (profile : Profile) (b : PortalAssignmentBuilder P)
    (entry : Dataset × Nat) : Fallible ConvertError (PortalAssignmentBuilder P) := do
  let (dataset, index) := entry
  let readSchemaId ← schemaId profile index
  let b ← dataset.chunks.foldlM (buildPortalChunk profile) b
  let lastBlockHash ← dataset.lastBlockHash profile
  let (b, r) ← b.finishDataset dataset.id readSchemaId lastBlockHash
  Fallible.convert .build r
  pure b

variable [LT P] [DecidableLT P]

/-- Copy one worker. -/
def copyPortalWorker (profile : Profile) (toBytes : P → List UInt8)
    (fromBytes : List UInt8 → Option P) (legacy : Assignment) (b : PortalAssignmentBuilder P)
    (index : Nat) : Fallible ConvertError (PortalAssignmentBuilder P) := do
  let worker ← legacy.getWorkerByIndex (UInt16.ofNat index)
  let peerId ← Fallible.context .peerId (worker.peerId fromBytes)
  b.addWorker profile toBytes peerId worker.status

/-- The portal-facing blob of a legacy assignment. -/
def buildPortal (profile : Profile) (toBytes : P → List UInt8) (fromBytes : List UInt8 → Option P)
    (fb : FlatBuffers PortalAssignmentRoot) (legacy : Assignment) :
    Fallible ConvertError fb.Buf := do
  let b := PortalAssignmentBuilder.new.setCheckContinuity false
  let b ← legacy.datasets.zipIdx.foldlM (buildPortalDataset profile) b
  let b ← (List.range legacy.workers.length).foldlM
    (copyPortalWorker profile toBytes fromBytes legacy) b
  pure (fb.finish b.finish)

end BuildPortal

section Verify

/-- Whether a text ends in another. -/
def endsWith (text suffix : String) : Bool := suffix.toList <:+ text.toList

/-- Compare one chunk with its two copies. -/
def verifyChunk (worker : WorkerAssignment) (w : WorkerAssignmentDataset)
    (p : PortalAssignmentDataset) (id : String) (entry : Chunk × Nat) :
    Fallible ConvertError Unit := do
  let (source, i) := entry
  let lastBlock := (← idOf source).lastBlock
  Fallible.ensure (source.datasetId == id) (.filedUnder source.id source.datasetId id)
  let wc ← Fallible.context .workerChunkMissing (w.chunk (UInt32.ofNat i))
  let rebuilt ← wc.id
  Fallible.ensure (rebuilt == some source.id) (.workerChunkId id i rebuilt)
  let range ← Fallible.equals wc.firstBlock source.firstBlock <&&>
    Fallible.equals wc.lastBlock lastBlock
  Fallible.ensure range (.workerBlockRange source.id)
  Fallible.ensure (← Fallible.equals wc.size source.size) (.size source.id)
  Fallible.ensure ((← wc.url).all fun url => endsWith url source.id) (.url source.id)
  let resolved ← Fallible.context .noRoster (← worker.chunkTables wc)
  Fallible.ensure (resolved == tablesOf source) (.tables source.id resolved)
  let pc ← Fallible.context .portalChunkMissing (p.chunk (UInt32.ofNat i))
  let rebuilt ← pc.id
  Fallible.ensure (rebuilt == some source.id) (.portalChunkId source.id rebuilt)
  let range ← Fallible.equals pc.firstBlock source.firstBlock <&&>
    Fallible.equals pc.lastBlock lastBlock
  Fallible.ensure range (.portalBlockRange source.id)
  let timestamp ← Fallible.equals pc.lastBlockTimestamp (source.lastBlockTimestamp.getD 0)
  Fallible.ensure timestamp (.timestamp source.id)
  let version ← Fallible.equals pc.version 0 <&&> Fallible.equals wc.version 0
  Fallible.ensure version (.version source.id)
  let indexes ← Fallible.equals pc.workerIndexes source.workerIndexes <&&>
    Fallible.equals wc.workerIndexes source.workerIndexes
  Fallible.ensure indexes (.workerIndexes source.id)

/-- Compare one dataset with its two copies. -/
def verifyDataset (profile : Profile) (worker : WorkerAssignment) (portal : PortalAssignment)
    (entry : Dataset × Nat) : Fallible ConvertError Unit := do
  let (source, index) := entry
  let id := source.id
  let w ← Exec.index worker.datasets index
  let p ← Exec.index portal.datasets index
  Fallible.ensure (w.id == id && p.id == id) (.datasetIndex index id)
  Fallible.ensure (w.lastBlock == source.lastBlock && p.lastBlock == source.lastBlock)
    (.lastBlock id)
  Fallible.ensure (p.lastBlockHash == (← source.lastBlockHash profile)) (.headHash id)
  let chunks := source.chunks
  Fallible.ensure (w.chunkCount == chunks.length) (.workerChunkCount id)
  Fallible.ensure (p.chunkCount == chunks.length) (.portalChunkCount id)
  Fallible.ensure (w.baseUrl == (← Exec.index chunks 0).datasetBaseUrl) (.baseUrl id)
  chunks.zipIdx.forM (verifyChunk worker w p id)

variable {P : Type} [DecidableEq P]

/-- Compare one worker with its two copies. -/
def verifyWorker (fromBytes : List UInt8 → Option P) (legacy : Assignment)
    (worker : WorkerAssignment) (portal : PortalAssignment) (index : Nat) :
    Fallible ConvertError Unit := do
  let source ← legacy.getWorkerByIndex (UInt16.ofNat index)
  let peerId ← Fallible.context .peerId (source.peerId fromBytes)
  let w ← worker.getWorkerByIndex (UInt16.ofNat index)
  let p ← portal.getWorkerByIndex (UInt16.ofNat index)
  let identity ← (Fallible.context .peerId (w.peerId fromBytes)).equals peerId <&&>
    (Fallible.context .peerId (p.peerId fromBytes)).equals peerId
  Fallible.ensure identity (.workerIdentity index)
  let status := source.status
  Fallible.ensure (w.status == status && p.status == status) (.workerStatus index)
  let sourceHeaders ← Fallible.context .workerHeaders
    (← Exec.index legacy.workers index).encryptedHeaders
  let copied ← Fallible.context .headersLost
    (← Exec.index worker.workers index).encryptedHeaders
  Fallible.ensure (copied.identity == sourceHeaders.identity &&
    copied.nonce == sourceHeaders.nonce && copied.ciphertext == sourceHeaders.ciphertext)
    (.sealedHeaders index)

/-- Compare a legacy assignment with its two copies. -/
def verify (profile : Profile) (fromBytes : List UInt8 → Option P) (legacy : Assignment)
    (worker : WorkerAssignment) (portal : PortalAssignment) : Fallible ConvertError Unit := do
  Fallible.ensure (worker.datasets.length == legacy.datasets.length &&
    portal.datasets.length == legacy.datasets.length) .datasetCount
  legacy.datasets.zipIdx.forM (verifyDataset profile worker portal)
  Fallible.ensure (worker.workers.length == legacy.workers.length &&
    portal.workers.length == legacy.workers.length) .workerCount
  (List.range legacy.workers.length).forM (verifyWorker fromBytes legacy worker portal)

end Verify

end SqdNetwork.Assignments
