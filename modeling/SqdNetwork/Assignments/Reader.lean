import SqdNetwork.Assignments.Schema
import SqdNetwork.Core.Columns

/-!
# Reading assignments

The chunk accessors, the two `from_owned` checks and the searches, as the reader
computes them. Every column subscript, every `expect` and every slice is a step
that may panic; block arithmetic wraps.
-/

namespace SqdNetwork.Assignments

open SqdNetwork.Core

/-- `slice::partition_point` over anything subscriptable. -/
def partitionPoint {m : Type → Type} [Monad m] (len : Nat) (pred : Nat → m Bool) : m Nat :=
  bisect pred 0 len

/-- Position of an element that compares equal, by halving between inclusive bounds. -/
def lookupIndexByKey {α : Type} (v : List α) (f : α → Exec Ordering) : Exec (Option Nat) :=
  if v.isEmpty then .ok none
  else keySearch (fun i => do f (← Exec.index v i)) 0 (v.length - 1)

/-- The library's key lookup on a vector: the same halving, returning the element. -/
def lookupByKey {α : Type} (v : List α) (f : α → Ordering) : Exec (Option α) := do
  match ← lookupIndexByKey v (fun x => .ok (f x)) with
  | none => .ok none
  | some i => some <$> Exec.index v i

/-- Digit bytes of `rest` written leftwards, ending before position `pos`. -/
def padDigits (rest pos : Nat) (digits : List UInt8) : Exec (List UInt8) :=
  if rest = 0 then .ok digits
  else match pos with
    | 0 => .error .overflow
    | pos + 1 => padDigits (rest / 10) pos (digits.set pos (digitByte (rest % 10)))

/-- Append a decimal value padded to ten digits. -/
def pushPadded (out : String) (value : UInt64) : Exec String :=
  if 10000000000 ≤ value.toNat then .ok (out ++ value.toNat.repr)
  else do
    let digits ← padDigits value.toNat 10 (List.replicate 10 48)
    let text ← Exec.expect "ascii digits" (fromUtf8 digits)
    .ok (out ++ text)

/-- Append `top/first_block-last_block-hash`. -/
def pushChunkId (out : String) (top firstBlock lastBlock : UInt64) (hash : String) :
    Exec String := do
  let out ← pushPadded out top
  let out ← pushPadded (out ++ "/") firstBlock
  let out ← pushPadded (out ++ "-") lastBlock
  .ok (out ++ "-" ++ hash)

def endsWithSlash (s : String) : Bool := s.toList.getLast? == some '/'

/-- One separator, unless the text already ends in it. -/
def pushSlash (url : String) : String := if endsWithSlash url then url else url ++ "/"

/-- Append a path segment with exactly one separator, whichever side already carries it. -/
def pushSegment (url segment : String) : String :=
  pushSlash url ++ String.ofList (segment.toList.dropWhile (· == '/'))

namespace ColumnVectors

/-- Number of chunks: the length of the first column. -/
def chunkCount (v : ColumnVectors) : Nat := v.firstBlocks.length

def firstBlock (v : ColumnVectors) (index : UInt32) : Exec UInt64 :=
  Exec.index v.firstBlocks index.toNat

def lastBlock (v : ColumnVectors) (index : UInt32) : Exec UInt64 := do
  let first ← v.firstBlock index
  let delta ← Exec.index v.blockDeltas index.toNat
  .ok (first + delta.toUInt64)

/-- Zero when the dataset has no version column. -/
def version (v : ColumnVectors) (index : UInt32) : Exec UInt32 :=
  match v.versions with
  | none => .ok 0
  | some column => Exec.index column index.toNat

/-- The last run starting at or before `index`; absent only if the runs do not start at 0. -/
def topAt (v : ColumnVectors) (index : UInt32) : Exec (Option UInt64) := do
  let above ← partitionPoint v.tops.length fun i => do
    let run ← Exec.index v.tops i
    .ok (run.firstChunkIndex ≤ index)
  match above with
  | 0 => .ok none
  | above + 1 => do
    let run ← Exec.index v.tops above
    .ok (some run.top)

/-- The top directory, resolved through the run the chunk falls in. -/
def top (v : ColumnVectors) (index : UInt32) : Exec UInt64 := do
  Exec.expect "the first top run covers chunk 0 onwards" (← v.topAt index)

/-- The short hash, NUL padding trimmed; absent only if the bytes are not UTF-8. -/
def hash (v : ColumnVectors) (index : UInt32) : Exec (Option String) := do
  let hash ← Exec.index v.hashes index.toNat
  .ok (fromUtf8 (trimNul hash.bytes))

/-- The chunk id rebuilt from its columns; absent on the same terms as `hash`. -/
def id (v : ColumnVectors) (index : UInt32) : Exec (Option String) := do
  let top ← v.top index
  let first ← v.firstBlock index
  let last ← v.lastBlock index
  match ← v.hash index with
  | none => .ok none
  | some hash => some <$> pushChunkId "" top first last hash

/-- The workers named by a chunk: its stretch of the flat column, clamped to the column. -/
def workersOf (v : ColumnVectors) (index : UInt32) : Exec (List UInt16) := do
  let start ← Exec.index v.workerOffsets index.toNat
  let stop ← Exec.index v.workerOffsets (index.toNat + 1)
  readRange v.workerIndexes start.toNat (min stop.toNat v.workerIndexes.length)

end ColumnVectors

/-- One row of a worker dataset: a dataset handle plus an index. -/
structure WorkerChunk where
  dataset : WorkerAssignmentDataset
  index : UInt32

namespace WorkerChunk

def firstBlock (c : WorkerChunk) : Exec UInt64 := c.dataset.toColumnVectors.firstBlock c.index

def lastBlock (c : WorkerChunk) : Exec UInt64 := c.dataset.toColumnVectors.lastBlock c.index

def size (c : WorkerChunk) : Exec UInt32 := Exec.index c.dataset.sizes c.index.toNat

def version (c : WorkerChunk) : Exec UInt32 := c.dataset.toColumnVectors.version c.index

def writeSchemaId (c : WorkerChunk) : Exec UInt32 :=
  Exec.index c.dataset.writeSchemaIds c.index.toNat

def top (c : WorkerChunk) : Exec UInt64 := c.dataset.toColumnVectors.top c.index

def hash (c : WorkerChunk) : Exec (Option String) := c.dataset.toColumnVectors.hash c.index

def id (c : WorkerChunk) : Exec (Option String) := c.dataset.toColumnVectors.id c.index

def workerIndexes (c : WorkerChunk) : Exec (List UInt16) :=
  c.dataset.toColumnVectors.workersOf c.index

/-- The chunk's table bitmap; absent when the chunk holds every table of its schema. -/
def tablesPresent (c : WorkerChunk) : Exec (Option (List UInt8)) :=
  match c.dataset.tablesPresentOffsets with
  | none => .ok none
  | some offsets => do
    let start ← Exec.index offsets c.index.toNat
    let stop ← Exec.index offsets (c.index.toNat + 1)
    match c.dataset.tablesPresent with
    | none => .ok none
    | some bytes =>
      if start ≤ stop ∧ stop.toNat ≤ bytes.length then
        let bits := (bytes.take stop.toNat).drop start.toNat
        .ok (if bits.isEmpty then none else some bits)
      else .ok none

end WorkerChunk

namespace WorkerAssignmentDataset

/-- The storage prefix of a version; absent for one never registered on the dataset. -/
def getGeneration (d : WorkerAssignmentDataset) (version : UInt32) :
    Exec (Option GenerationEntry) :=
  match d.generations with
  | none => .ok none
  | some generations => lookupByKey generations fun g => compare g.version version

def chunk (d : WorkerAssignmentDataset) (index : UInt32) : Option WorkerChunk :=
  if index.toNat < d.chunkCount then some ⟨d, index⟩ else none

def chunks (d : WorkerAssignmentDataset) : List WorkerChunk :=
  (List.range (UInt32.ofNat d.chunkCount).toNat).map fun i => ⟨d, UInt32.ofNat i⟩

end WorkerAssignmentDataset

/-- Where the chunk's files live; absent when a non-zero version has no generation, or
on the same terms as `hash`. -/
def WorkerChunk.url (c : WorkerChunk) : Exec (Option String) := do
  match ← c.hash with
  | none => .ok none
  | some hash =>
    let version ← c.version
    let base ← (if version ≠ 0 then do
        match ← c.dataset.getGeneration version with
        | none => .ok none
        | some generation => .ok (some (pushSegment c.dataset.baseUrl generation.baseUrl))
      else .ok (some c.dataset.baseUrl) : Exec (Option String))
    match base with
    | none => .ok none
    | some url =>
      let top ← c.top
      let first ← c.firstBlock
      let last ← c.lastBlock
      some <$> pushChunkId (pushSlash url) top first last hash

/-- One row of a portal dataset: a dataset handle plus an index. -/
structure PortalChunk where
  dataset : PortalAssignmentDataset
  index : UInt32

namespace PortalChunk

def firstBlock (c : PortalChunk) : Exec UInt64 := c.dataset.toColumnVectors.firstBlock c.index

def lastBlock (c : PortalChunk) : Exec UInt64 := c.dataset.toColumnVectors.lastBlock c.index

/-- Zero for a chunk whose timestamp was never recorded. -/
def lastBlockTimestamp (c : PortalChunk) : Exec UInt64 :=
  Exec.index c.dataset.timestamps c.index.toNat

def version (c : PortalChunk) : Exec UInt32 := c.dataset.toColumnVectors.version c.index

def top (c : PortalChunk) : Exec UInt64 := c.dataset.toColumnVectors.top c.index

def hash (c : PortalChunk) : Exec (Option String) := c.dataset.toColumnVectors.hash c.index

def id (c : PortalChunk) : Exec (Option String) := c.dataset.toColumnVectors.id c.index

def workerIndexes (c : PortalChunk) : Exec (List UInt16) :=
  c.dataset.toColumnVectors.workersOf c.index

end PortalChunk

namespace PortalAssignmentDataset

/-- The first chunk's first block. -/
def firstBlock (d : PortalAssignmentDataset) : Exec UInt64 := Exec.index d.firstBlocks 0

def chunk (d : PortalAssignmentDataset) (index : UInt32) : Option PortalChunk :=
  if index.toNat < d.chunkCount then some ⟨d, index⟩ else none

def chunks (d : PortalAssignmentDataset) : List PortalChunk :=
  (List.range (UInt32.ofNat d.chunkCount).toNat).map fun i => ⟨d, UInt32.ofNat i⟩

end PortalAssignmentDataset

/-- A dense column holds one entry per chunk. -/
def checkDense (dataset : String) (chunks : Nat) : String × Nat → Except InvalidAssignment Unit
  | (name, len) =>
    if len ≠ chunks then .error (.columns dataset s!"{name} holds {len} of {chunks} chunks")
    else .ok ()

/-- A run column starts at chunk 0. -/
def checkRuns (dataset : String) : String × Option UInt32 → Except InvalidAssignment Unit
  | (name, none) => .error (.columns dataset s!"{name} is empty, so chunk 0 falls in no run")
  | (name, some first) =>
    if first ≠ 0 then .error (.columns dataset s!"{name} starts at chunk {first}, not 0")
    else .ok ()

/-- Check one dataset's columns against the chunk count `first_blocks` implies. -/
def checkColumns (dataset : String) (chunks : Nat) (dense : List (String × Nat))
    (runs : List (String × Option UInt32)) : Except InvalidAssignment Unit := do
  dense.forM (checkDense dataset chunks)
  runs.forM (checkRuns dataset)

theorem checkDense_eq_ok {dataset : String} {chunks : Nat} {column : String × Nat} :
    checkDense dataset chunks column = .ok () ↔ column.2 = chunks := by
  by_cases h : column.2 = chunks <;> simp [checkDense, h]

theorem checkRuns_eq_ok {dataset : String} {column : String × Option UInt32} :
    checkRuns dataset column = .ok () ↔ column.2 = some 0 := by
  obtain ⟨name, _ | first⟩ := column
  · simp [checkRuns]
  · by_cases h : first = 0 <;> simp [checkRuns, h]

/-- The check passes when dense columns are as long as the chunk count and every run column
starts at chunk 0. -/
theorem checkColumns_eq_ok {dataset : String} {chunks : Nat} {dense : List (String × Nat)}
    {runs : List (String × Option UInt32)} :
    checkColumns dataset chunks dense runs = .ok () ↔
      (∀ column ∈ dense, column.2 = chunks) ∧ ∀ column ∈ runs, column.2 = some 0 := by
  have hdense : dense.forM (checkDense dataset chunks) = .ok () ↔
      ∀ column ∈ dense, column.2 = chunks := by
    simp only [forM_eq_ok, checkDense_eq_ok]
  have hruns : runs.forM (checkRuns dataset) = .ok () ↔ ∀ column ∈ runs, column.2 = some 0 := by
    simp only [forM_eq_ok, checkRuns_eq_ok]
  rw [← hdense, ← hruns, checkColumns]
  cases dense.forM (checkDense dataset chunks) with
  | error e => simp [bind, Except.bind]
  | ok u => simp [bind, Except.bind]

/-- Verify a buffer, then check its datasets in order. -/
def verified {Root D : Type} (fb : FlatBuffers Root) (datasets : Root → List D)
    (check : D → Except InvalidAssignment Unit) (buf : fb.Buf) : Except InvalidAssignment Root :=
  match fb.root buf with
  | .error e => .error (.flatbuffer e)
  | .ok reader => do
    (datasets reader).forM check
    .ok reader

/-- A buffer passes when it verifies and every dataset passes its check. -/
theorem verified_eq_ok {Root D : Type} {fb : FlatBuffers Root} {datasets : Root → List D}
    {check : D → Except InvalidAssignment Unit} {buf : fb.Buf} {reader : Root} :
    verified fb datasets check buf = .ok reader ↔
      fb.root buf = .ok reader ∧ ∀ d ∈ datasets reader, check d = .ok () := by
  rw [← forM_eq_ok, verified]
  cases fb.root buf with
  | error e => simp
  | ok root =>
    simp only [Except.ok.injEq]
    constructor
    · intro h
      cases hcheck : (datasets root).forM check with
      | error e =>
        rw [hcheck] at h
        exact absurd h (by simp [bind, Except.bind])
      | ok u =>
        rw [hcheck] at h
        cases h
        exact ⟨rfl, hcheck⟩
    · rintro ⟨rfl, hcheck⟩
      rw [hcheck]
      rfl

/-- The common columns agree with each other as far as the reader checks. -/
structure ColumnVectors.Aligned (v : ColumnVectors) : Prop where
  blockDeltas : v.blockDeltas.length = v.chunkCount
  hashes : v.hashes.length = v.chunkCount
  workerOffsets : v.workerOffsets.length - 1 = v.chunkCount
  versions : ∀ column, v.versions = some column → column.length = v.chunkCount
  tops : v.tops.head?.map TopRun.firstChunkIndex = some 0

/-- An accepted worker-facing assignment. -/
@[ext]
structure WorkerAssignment where
  reader : WorkerAssignmentRoot

/-- The column lengths `WorkerAssignment.fromOwned` compares. -/
def WorkerAssignmentDataset.check (d : WorkerAssignmentDataset) : Except InvalidAssignment Unit :=
  checkColumns d.id d.firstBlocks.length
    ([("block_deltas", d.blockDeltas.length),
      ("hashes", d.hashes.length),
      ("sizes", d.sizes.length),
      ("write_schema_ids", d.writeSchemaIds.length),
      ("worker_offsets", d.workerOffsets.length - 1)] ++
      (d.versions.map fun c => ("versions", c.length)).toList ++
      (d.tablesPresentOffsets.map fun c => ("tables_present_offsets", c.length - 1)).toList)
    [("tops", d.tops.head?.map TopRun.firstChunkIndex)]

/-- What the check establishes for a worker dataset. -/
theorem WorkerAssignmentDataset.check_eq_ok {d : WorkerAssignmentDataset} :
    d.check = .ok () ↔ d.toColumnVectors.Aligned ∧ d.sizes.length = d.chunkCount ∧
      d.writeSchemaIds.length = d.chunkCount ∧
      ∀ column, d.tablesPresentOffsets = some column → column.length - 1 = d.chunkCount := by
  rw [WorkerAssignmentDataset.check, checkColumns_eq_ok]
  simp only [List.forall_mem_append, List.forall_mem_cons, List.not_mem_nil, false_implies,
    forall_const, and_true, Option.mem_toList, Option.map_eq_some_iff, forall_exists_index,
    and_imp, forall_apply_eq_imp_iff₂]
  constructor
  · rintro ⟨⟨⟨⟨hdeltas, hhashes, hsizes, hschemas, hoffsets⟩, hversions⟩, htables⟩, htops⟩
    exact ⟨⟨hdeltas, hhashes, hoffsets, hversions, Option.map_eq_some_iff.mpr htops⟩, hsizes,
      hschemas, htables⟩
  · rintro ⟨h, hsizes, hschemas, htables⟩
    exact ⟨⟨⟨⟨h.blockDeltas, h.hashes, hsizes, hschemas, h.workerOffsets⟩, h.versions⟩, htables⟩,
      Option.map_eq_some_iff.mp h.tops⟩

namespace WorkerAssignment

/-- Verify the buffer, then check that each dataset's columns agree in length. -/
def fromOwned (fb : FlatBuffers WorkerAssignmentRoot) (buf : fb.Buf) :
    Except InvalidAssignment WorkerAssignment :=
  WorkerAssignment.mk <$>
    verified fb WorkerAssignmentRoot.datasets WorkerAssignmentDataset.check buf

theorem fromOwned_eq_ok {fb : FlatBuffers WorkerAssignmentRoot} {buf : fb.Buf}
    {a : WorkerAssignment} : fromOwned fb buf = .ok a ↔
      fb.root buf = .ok a.reader ∧ ∀ d ∈ a.reader.datasets, d.check = .ok () := by
  rw [← verified_eq_ok, fromOwned]
  cases verified fb WorkerAssignmentRoot.datasets WorkerAssignmentDataset.check buf with
  | error e => simp
  | ok reader => simp [WorkerAssignment.ext_iff]

def datasets (a : WorkerAssignment) : List WorkerAssignmentDataset := a.reader.datasets

def workers (a : WorkerAssignment) : List WorkerEntry := a.reader.workers

def getDataset (a : WorkerAssignment) (dataset : String) :
    Exec (Option WorkerAssignmentDataset) :=
  lookupByKey a.datasets fun d => compare d.id dataset

def getWriteSchema (a : WorkerAssignment) (writeSchemaId : UInt32) : Exec (Option TableRoster) :=
  lookupByKey a.reader.schemas fun roster => compare roster.writeSchemaId writeSchemaId

/-- Whether a bitmap selects a position; no bitmap selects every position, and bits past
its end count as unset. -/
def tableSelected (bits : Option (List UInt8)) (index : Nat) : Bool :=
  bits.all fun bits => bits[index / 8]?.any fun byte =>
    byte &&& ((1 : UInt8) <<< UInt8.ofNat (index % 8)) != 0

/-- The tables a chunk holds; absent if its write schema has no roster here. -/
def chunkTables (a : WorkerAssignment) (chunk : WorkerChunk) : Exec (Option (List String)) := do
  match ← a.getWriteSchema (← chunk.writeSchemaId) with
  | none => .ok none
  | some roster =>
    let bits ← chunk.tablesPresent
    .ok (some ((roster.tables.zipIdx.filter fun (_, index) => tableSelected bits index).map
      Prod.fst))

end WorkerAssignment

/-- Where a chunk sits in an assignment. -/
structure ChunkRef where
  datasetIndex : UInt32
  chunkIndex : UInt32
  deriving DecidableEq, Repr

namespace WorkerAssignment

def getDatasetByRef (a : WorkerAssignment) (r : ChunkRef) : Option WorkerAssignmentDataset :=
  a.datasets[r.datasetIndex.toNat]?

def getChunk (a : WorkerAssignment) (r : ChunkRef) : Option WorkerChunk := do
  (← a.getDatasetByRef r).chunk r.chunkIndex

/-- The chunk's url, with the dataset resolved from the reference. -/
def chunkUrl (a : WorkerAssignment) (r : ChunkRef) : Exec (Option String) :=
  match a.getChunk r with
  | none => .ok none
  | some chunk => chunk.url

end WorkerAssignment

/-- A worker's entry and the position chunks name it by. -/
structure AssignedWorker where
  assignment : WorkerAssignmentRoot
  reader : WorkerEntry
  index : UInt16

def WorkerAssignment.getWorkerByIndex (a : WorkerAssignment) (index : UInt16) :
    Exec AssignedWorker := do
  let worker ← Exec.index a.workers index.toNat
  .ok ⟨a.reader, worker, index⟩

namespace AssignedWorker

/-- Whether a chunk's stretch of the routing column names the worker. -/
def holds (w : AssignedWorker) (dataset : WorkerAssignmentDataset) (chunk : Nat) :
    Exec Bool := do
  let start ← Exec.index dataset.workerOffsets chunk
  let stop ← Exec.index dataset.workerOffsets (chunk + 1)
  let stop := min stop.toNat dataset.workerIndexes.length
  (List.range' start.toNat (stop - start.toNat)).anyM fun slot => do
    let index ← Exec.index dataset.workerIndexes slot
    .ok (index == w.index)

/-- The worker's chunks within one dataset. -/
def holdings (w : AssignedWorker) (dataset : WorkerAssignmentDataset) :
    Exec (List WorkerChunk) := do
  let held ← (List.range dataset.chunkCount).filterM (w.holds dataset)
  .ok (held.map fun chunk => ⟨dataset, UInt32.ofNat chunk⟩)

/-- The worker's chunks, each with the dataset holding it. -/
def iterChunksWithDataset (w : AssignedWorker) :
    Exec (List (WorkerAssignmentDataset × WorkerChunk)) := do
  let held ← w.assignment.datasets.mapM fun dataset => do
    .ok ((← w.holdings dataset).map fun chunk => (dataset, chunk))
  .ok held.flatten

def iterChunks (w : AssignedWorker) : Exec (List WorkerChunk) :=
  List.map Prod.snd <$> w.iterChunksWithDataset

/-- The worker's chunks, each with its reference. -/
def iterChunksWithRef (w : AssignedWorker) : Exec (List (ChunkRef × WorkerChunk)) := do
  let held ← w.assignment.datasets.zipIdx.mapM fun (dataset, d) => do
    .ok ((← w.holdings dataset).map fun chunk => (⟨UInt32.ofNat d, chunk.index⟩, chunk))
  .ok held.flatten

end AssignedWorker

/-- Why no chunk answers a lookup. -/
inductive ChunkNotFound where
  | unknownDataset
  | beforeFirst
  | afterLast
  /-- The block falls between two chunks. -/
  | inGap
  deriving DecidableEq, Repr

/-- An accepted portal-facing assignment. -/
@[ext]
structure PortalAssignment where
  reader : PortalAssignmentRoot

/-- The column lengths `PortalAssignment.fromOwned` compares. -/
def PortalAssignmentDataset.check (d : PortalAssignmentDataset) : Except InvalidAssignment Unit :=
  checkColumns d.id d.firstBlocks.length
    ([("block_deltas", d.blockDeltas.length),
      ("hashes", d.hashes.length),
      ("timestamps", d.timestamps.length),
      ("worker_offsets", d.workerOffsets.length - 1)] ++
      (d.versions.map fun c => ("versions", c.length)).toList)
    [("tops", d.tops.head?.map TopRun.firstChunkIndex)]

/-- What the check establishes for a portal dataset. -/
theorem PortalAssignmentDataset.check_eq_ok {d : PortalAssignmentDataset} :
    d.check = .ok () ↔ d.toColumnVectors.Aligned ∧ d.timestamps.length = d.chunkCount := by
  rw [PortalAssignmentDataset.check, checkColumns_eq_ok]
  simp only [List.forall_mem_append, List.forall_mem_cons, List.not_mem_nil, false_implies,
    forall_const, and_true, Option.mem_toList, Option.map_eq_some_iff, forall_exists_index,
    and_imp, forall_apply_eq_imp_iff₂]
  constructor
  · rintro ⟨⟨⟨hdeltas, hhashes, htimes, hoffsets⟩, hversions⟩, htops⟩
    exact ⟨⟨hdeltas, hhashes, hoffsets, hversions, Option.map_eq_some_iff.mpr htops⟩, htimes⟩
  · rintro ⟨h, htimes⟩
    exact ⟨⟨⟨h.blockDeltas, h.hashes, htimes, h.workerOffsets⟩, h.versions⟩,
      Option.map_eq_some_iff.mp h.tops⟩

namespace PortalAssignment

/-- Verify the buffer, then check that each dataset's columns agree in length. -/
def fromOwned (fb : FlatBuffers PortalAssignmentRoot) (buf : fb.Buf) :
    Except InvalidAssignment PortalAssignment :=
  PortalAssignment.mk <$>
    verified fb PortalAssignmentRoot.datasets PortalAssignmentDataset.check buf

theorem fromOwned_eq_ok {fb : FlatBuffers PortalAssignmentRoot} {buf : fb.Buf}
    {a : PortalAssignment} : fromOwned fb buf = .ok a ↔
      fb.root buf = .ok a.reader ∧ ∀ d ∈ a.reader.datasets, d.check = .ok () := by
  rw [← verified_eq_ok, fromOwned]
  cases verified fb PortalAssignmentRoot.datasets PortalAssignmentDataset.check buf with
  | error e => simp
  | ok reader => simp [PortalAssignment.ext_iff]

def datasets (a : PortalAssignment) : List PortalAssignmentDataset := a.reader.datasets

def getDataset (a : PortalAssignment) (dataset : String) :
    Exec (Option PortalAssignmentDataset) :=
  lookupByKey a.datasets fun d => compare d.id dataset

/-- The chunk holding `block`. -/
def findChunk (a : PortalAssignment) (dataset : String) (block : UInt64) :
    Exec (Except ChunkNotFound PortalChunk) := do
  match ← a.getDataset dataset with
  | none => .ok (.error .unknownDataset)
  | some d =>
    if block > d.lastBlock then .ok (.error .afterLast)
    else
      let above ← partitionPoint d.firstBlocks.length fun i => do
        let first ← Exec.index d.firstBlocks i
        .ok (first ≤ block)
      match above with
      | 0 => .ok (.error .beforeFirst)
      | index + 1 => do
        let chunk ← Exec.expect "index came from the column's own length"
          (d.chunk (UInt32.ofNat index))
        if block > (← chunk.lastBlock) then .ok (.error .inGap) else .ok (.ok chunk)

/-- The first chunk whose timestamp is at or after `ts`. -/
def findChunkByTimestamp (a : PortalAssignment) (dataset : String) (ts : UInt64) :
    Exec (Except ChunkNotFound PortalChunk) := do
  match ← a.getDataset dataset with
  | none => .ok (.error .unknownDataset)
  | some d =>
    let index ← partitionPoint d.chunkCount fun i => do
      let timestamp ← Exec.index d.timestamps i
      .ok (timestamp < ts)
    if index = d.chunkCount then .ok (.error .afterLast)
    else do
      let chunk ← Exec.expect "index is below the chunk count" (d.chunk (UInt32.ofNat index))
      .ok (.ok chunk)

end PortalAssignment

end SqdNetwork.Assignments
