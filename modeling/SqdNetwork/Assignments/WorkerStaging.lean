import SqdNetwork.Assignments.InStep
import SqdNetwork.Assignments.WorkerBuilder

/-!
# What a worker dataset stages

The caller's side of a chunk is the last argument given to each setter; the
builder's side is one row over all columns. A finished chunk that reports being
appended adds exactly the row of its calls, and this lifts from one chunk to
everything that happens on an open dataset.
-/

namespace SqdNetwork.Assignments

open SqdNetwork.Core

/-- The values a caller has given to a chunk handle. -/
structure WorkerStaged where
  blockRange : Option BlockRange := none
  id : Option DataChunk := none
  size : Option UInt32 := none
  version : UInt32 := 0
  writeSchemaId : Option UInt32 := none
  workerIndexes : List UInt16 := []

namespace WorkerStaged

/-- A setter replaces the value it names. -/
def apply (s : WorkerStaged) : WorkerChunkCall → WorkerStaged
  | .id id => { s with id := some id }
  | .blockRange range => { s with blockRange := some range }
  | .size size => { s with size := some size }
  | .version version => { s with version := version }
  | .writeSchemaId writeSchemaId => { s with writeSchemaId := some writeSchemaId }
  | .tablesPresent _ => s
  | .workerIndexes indexes => { s with workerIndexes := indexes }

/-- The values after a list of calls. -/
def ofCalls (calls : List WorkerChunkCall) : WorkerStaged := calls.foldl apply {}

end WorkerStaged

/-- The last list of tables given so far. -/
def applyTables (tables : Option (List String)) : WorkerChunkCall → Option (List String)
  | .tablesPresent names => some names
  | _ => tables

/-- The last list of tables given to a chunk handle. -/
def tablesOfCalls (calls : List WorkerChunkCall) : Option (List String) :=
  calls.foldl applyTables none

/-- The bitmap of a list of tables over a roster, or the first name the pass does not find. -/
def encodeTables (roster : List String) (writeSchemaId : UInt32) (tables : List String) :
    List UInt8 × Outcome :=
  selectTables roster writeSchemaId tables 0 (List.replicate ((roster.length + 7) / 8) 0)

/-- One row of a worker dataset. -/
structure WorkerRow extends ChunkRow where
  size : UInt32
  writeSchemaId : UInt32
  bitmap : List UInt8

namespace WorkerRow

/-- The values pushed for a row. -/
def toPush (row : WorkerRow) : PushChunk where
  top := row.id.top
  blockRange := ⟨row.id.firstBlock, row.id.lastBlock⟩
  hash := chunkHash row.id
  size := row.size
  writeSchemaId := row.writeSchemaId
  version := row.version

/-- The row holds what the calls staged. -/
structure StagedBy (calls : List WorkerChunkCall) (row : WorkerRow) : Prop where
  blockRange : (WorkerStaged.ofCalls calls).blockRange =
    some ⟨row.id.firstBlock, row.id.lastBlock⟩
  id : (WorkerStaged.ofCalls calls).id = some row.id
  size : (WorkerStaged.ofCalls calls).size = some row.size
  version : (WorkerStaged.ofCalls calls).version = row.version
  writeSchemaId : (WorkerStaged.ofCalls calls).writeSchemaId = some row.writeSchemaId
  workers : (WorkerStaged.ofCalls calls).workerIndexes = row.workers

/-- The row's schema and version are registered, and its bitmap selects the calls' tables from
the schema's roster. -/
structure RegisteredIn (schemas : SortedMap UInt32 (List String))
    (generations : SortedMap UInt32 String) (calls : List WorkerChunkCall) (row : WorkerRow) :
    Prop where
  roster : ∃ roster, schemas.get? row.writeSchemaId = some roster ∧
    (tablesOfCalls calls).elim (row.bitmap = []) fun tables =>
      encodeTables roster row.writeSchemaId tables = (row.bitmap, .ok ())
  generation : row.version = 0 ∨ ∃ url, generations.get? row.version = some url

end WorkerRow

/-- The staged columns hold exactly the given rows. -/
structure WorkerDatasetColumns.Encodes (c : WorkerDatasetColumns) (rows : List WorkerRow) :
    Prop where
  base : c.toStagedColumns.Encodes (rows.map WorkerRow.toChunkRow)
  sizes : c.sizes = rows.map WorkerRow.size
  writeSchemaIds : c.writeSchemaIds = rows.map WorkerRow.writeSchemaId
  tablesPresent : c.tablesPresent = (rows.map WorkerRow.bitmap).flatten
  tablesPresentEnds : c.tablesPresentEnds =
    (sliceEnds 0 (rows.map WorkerRow.bitmap)).map UInt32.ofNat
  anyTablesTrimmed : c.anyTablesTrimmed = rows.any fun row => !row.bitmap.isEmpty

namespace WorkerDatasetColumns

/-- Nothing staged, no rows. -/
theorem encodes_nil : ({} : WorkerDatasetColumns).Encodes [] :=
  ⟨StagedColumns.encodes_nil, rfl, rfl, rfl, rfl, rfl⟩

/-- A row appended to the common columns is appended to all of them. -/
theorem Encodes.push {c : WorkerDatasetColumns} {rows : List WorkerRow} (h : c.Encodes rows)
    (row : WorkerRow) {index delta stop : UInt32}
    (hbase : ((c.pushRow index delta row.toPush row.bitmap row.workers).toStagedColumns.pushEnd
      stop).Encodes (rows.map WorkerRow.toChunkRow ++ [row.toChunkRow])) :
    ((c.pushRow index delta row.toPush row.bitmap row.workers).pushEnd stop).Encodes
      (rows ++ [row]) := by
  constructor
  · rw [List.map_append]
    exact hbase
  · simp [pushEnd, pushRow, pushBitmap, h.sizes, WorkerRow.toPush]
  · simp [pushEnd, pushRow, pushBitmap, h.writeSchemaIds, WorkerRow.toPush]
  · simp [pushEnd, pushRow, pushBitmap, h.tablesPresent]
  · simp [pushEnd, pushRow, pushBitmap, h.tablesPresent, h.tablesPresentEnds, sliceEnds_append]
  · simp [pushEnd, pushRow, pushBitmap, h.anyTablesTrimmed]

end WorkerDatasetColumns

/-- Datasets of the worker-facing builder. -/
def workerKind : DatasetKind WorkerDatasetColumns WorkerRow (List WorkerChunkCall) where
  base := WorkerDatasetColumns.toStagedColumns
  row := WorkerRow.toChunkRow
  Encodes := WorkerDatasetColumns.Encodes
  StagedBy := WorkerRow.StagedBy
  push row index delta c := c.pushRow index delta row.toPush row.bitmap row.workers
  pushEnd stop c := c.pushEnd stop
  encodes_base h := h.base
  base_push _ _ _ _ := rfl
  encodes_push row _ _ _ h hbase := h.push row hbase

/-- Worker datasets whose rows are registered in the given maps. -/
def registeredKind (schemas : SortedMap UInt32 (List String))
    (generations : SortedMap UInt32 String) :
    DatasetKind WorkerDatasetColumns WorkerRow (List WorkerChunkCall) :=
  { workerKind with
    StagedBy := fun calls row => row.StagedBy calls ∧ row.RegisteredIn schemas generations calls }

@[simp] theorem workerKind_base (c : WorkerDatasetColumns) :
    workerKind.base c = c.toStagedColumns := rfl

/-- A dataset just opened has no chunks. -/
theorem workerKind_inStep_nil : workerKind.InStep {} none [] :=
  Or.inl ⟨[], WorkerDatasetColumns.encodes_nil, List.Forall₂.nil, rfl⟩

namespace WorkerAssignmentBuilder

variable {P Key Rng : Type}

/-- The builder without the two buffers that opening a chunk clears. -/
def forgetStaged (b : WorkerAssignmentBuilder P Key Rng) : WorkerAssignmentBuilder P Key Rng :=
  { b with stagedWorkerIndexes := [], stagedTablesPresent := [] }

/-- The builder without anything that belongs to an open dataset or chunk. -/
def outside (b : WorkerAssignmentBuilder P Key Rng) : WorkerAssignmentBuilder P Key Rng :=
  b.forgetStaged.discardDataset

end WorkerAssignmentBuilder

namespace WorkerAssignmentChunkBuilder

variable {P Key Rng : Type} {profile : Profile} {b b' : WorkerAssignmentBuilder P Key Rng}
  {chunk chunk' : WorkerAssignmentChunkBuilder}

/-- The handle and the builder's buffer hold what the caller has given so far. -/
structure Tracks (b : WorkerAssignmentBuilder P Key Rng) (chunk : WorkerAssignmentChunkBuilder)
    (s : WorkerStaged) : Prop where
  blockRange : chunk.blockRange = s.blockRange
  id : chunk.id = s.id
  size : chunk.size = s.size
  version : chunk.version = s.version
  writeSchemaId : chunk.writeSchemaId = s.writeSchemaId
  workers : b.stagedWorkerIndexes = s.workerIndexes

/-- A handle just opened holds nothing. -/
theorem tracks_newChunk (b : WorkerAssignmentBuilder P Key Rng) :
    Tracks b.newChunk.1 b.newChunk.2 {} :=
  ⟨rfl, rfl, rfl, rfl, rfl, rfl⟩

/-- Encoding tables touches nothing but the staged bitmap and the handle's note of it. -/
theorem setTablesPresent_cases {tables : List String}
    {r : Except BuildError WorkerAssignmentChunkBuilder}
    (h : setTablesPresent profile b chunk tables = .ok (b', r)) :
    ∃ bits, b' = { b with stagedTablesPresent := bits } ∧
      ∀ chunk', r = .ok chunk' → ∃ against, chunk' = { chunk with tablesPresent := against } := by
  obtain ⟨-, -, h⟩ := Exec.bind_eq_ok.mp h
  split at h
  · cases h
    exact ⟨b.stagedTablesPresent, rfl, by simp⟩
  · split at h
    · cases h
      exact ⟨b.stagedTablesPresent, rfl, by simp⟩
    · dsimp only at h
      split at h
      · cases h
        exact ⟨_, rfl, by simp⟩
      · cases h
        exact ⟨_, rfl, fun chunk' he => ⟨_, (Except.ok.inj he).symm⟩⟩

/-- A call changes only the staging buffers and records its argument. -/
theorem call_spec {c : WorkerChunkCall} {s : WorkerStaged}
    {r : Except BuildError WorkerAssignmentChunkBuilder} (htracks : Tracks b chunk s)
    (h : call profile b chunk c = .ok (b', r)) :
    b'.forgetStaged = b.forgetStaged ∧ ∀ chunk', r = .ok chunk' → Tracks b' chunk' (s.apply c) := by
  cases c with
  | tablesPresent tables =>
    obtain ⟨bits, rfl, hchunk⟩ := setTablesPresent_cases h
    refine ⟨rfl, fun chunk' he => ?_⟩
    obtain ⟨against, rfl⟩ := hchunk chunk' he
    exact ⟨htracks.1, htracks.2, htracks.3, htracks.4, htracks.5, htracks.6⟩
  | id _ | blockRange _ | size _ | version _ | writeSchemaId _ | workerIndexes _ =>
    cases h
    refine ⟨rfl, ?_⟩
    rintro _ ⟨⟩
    constructor <;> simp [WorkerStaged.apply, htracks.blockRange, htracks.id, htracks.size,
      htracks.version, htracks.writeSchemaId, htracks.workers]

/-- A list of calls changes only the staging buffers and records every argument. -/
theorem calls_spec {cs : List WorkerChunkCall} {s : WorkerStaged}
    {r : Except BuildError WorkerAssignmentChunkBuilder} (htracks : Tracks b chunk s)
    (h : calls profile b chunk cs = .ok (b', r)) :
    b'.forgetStaged = b.forgetStaged ∧
      ∀ chunk', r = .ok chunk' → Tracks b' chunk' (cs.foldl WorkerStaged.apply s) := by
  induction cs generalizing b chunk s with
  | nil =>
    cases h
    refine ⟨rfl, fun chunk' he => ?_⟩
    cases he
    exact htracks
  | cons c cs ih =>
    obtain ⟨⟨mid, r'⟩, hcall, h⟩ := Exec.bind_eq_ok.mp h
    obtain ⟨hsame, htrack⟩ := call_spec htracks hcall
    cases r' with
    | error e =>
      cases h
      exact ⟨hsame, by simp⟩
    | ok next =>
      obtain ⟨hrest, hlast⟩ := ih (htrack next rfl) h
      exact ⟨hrest.trans hsame, hlast⟩

/-- The staged bitmap encodes the last tables against the schema the handle notes. -/
def TracksTables (b : WorkerAssignmentBuilder P Key Rng) (chunk : WorkerAssignmentChunkBuilder)
    (tables : Option (List String)) : Prop :=
  tables.elim (chunk.tablesPresent = none ∧ b.stagedTablesPresent = []) fun tables =>
    ∃ writeSchemaId roster, chunk.tablesPresent = some writeSchemaId ∧
      b.writeSchemas.get? writeSchemaId = some roster ∧
      encodeTables roster writeSchemaId tables = (b.stagedTablesPresent, .ok ())

/-- A call keeps the bitmap in step with the last tables. -/
theorem call_tables {c : WorkerChunkCall} {tables : Option (List String)}
    (htracks : TracksTables b chunk tables) (h : call profile b chunk c = .ok (b', .ok chunk')) :
    TracksTables b' chunk' (applyTables tables c) := by
  cases c with
  | tablesPresent names =>
    obtain ⟨-, -, h⟩ := Exec.bind_eq_ok.mp h
    split at h
    · cases h
    · next writeSchemaId hschema =>
      split at h
      · cases h
      · next roster hroster =>
        dsimp only at h
        split at h
        · cases h
        · next hok =>
          cases h
          exact ⟨writeSchemaId, roster, rfl, hroster, Prod.ext rfl hok⟩
  | id _ | blockRange _ | size _ | version _ | writeSchemaId _ | workerIndexes _ =>
    cases h
    exact htracks

/-- A list of calls keeps the bitmap in step with the last tables. -/
theorem calls_tables {cs : List WorkerChunkCall} {tables : Option (List String)}
    (htracks : TracksTables b chunk tables)
    (h : calls profile b chunk cs = .ok (b', .ok chunk')) :
    TracksTables b' chunk' (cs.foldl applyTables tables) := by
  induction cs generalizing b chunk tables with
  | nil =>
    cases h
    exact htracks
  | cons c cs ih =>
    obtain ⟨⟨mid, r⟩, hcall, h⟩ := Exec.bind_eq_ok.mp h
    cases r with
    | error e => cases h
    | ok next => exact ih (call_tables htracks hcall) h

/-- The checks of `finish` make a row with the staged bitmap a registered one. -/
theorem registeredIn_of_checks {cs : List WorkerChunkCall} {row : ChunkRow} {size : UInt32}
    {writeSchemaId : UInt32} (htables : TracksTables b chunk (tablesOfCalls cs))
    (hknown : b.writeSchemas.contains writeSchemaId = true)
    (hversion : row.version = 0 ∨ b.currentGenerations.contains row.version = true)
    (hagainst : chunk.tablesPresent.filter (· ≠ writeSchemaId) = none) :
    WorkerRow.RegisteredIn b.writeSchemas b.currentGenerations cs
      ⟨row, size, writeSchemaId, b.stagedTablesPresent⟩ := by
  obtain ⟨roster, hroster⟩ := Option.isSome_iff_exists.mp hknown
  refine ⟨⟨roster, hroster, ?_⟩, hversion.imp_right Option.isSome_iff_exists.mp⟩
  unfold TracksTables at htables
  cases htable : tablesOfCalls cs with
  | none =>
    rw [htable] at htables
    exact htables.2
  | some tables =>
    rw [htable] at htables
    obtain ⟨against, roster', hnoted, hroster', hencode⟩ := htables
    have hsame : against = writeSchemaId := by
      rw [hnoted] at hagainst
      simpa using hagainst
    subst hsame
    obtain rfl := Option.some.inj (hroster'.symm.trans hroster)
    exact hencode

/-- Finishing a chunk either refuses it untouched or pushes the row of its calls, whose schema
and version are registered. -/
theorem finish_cases {cs : List WorkerChunkCall} {r : Outcome}
    (htracks : Tracks b chunk (WorkerStaged.ofCalls cs))
    (htables : TracksTables b chunk (tablesOfCalls cs))
    (h : finish profile b chunk = .ok (b', r)) :
    (b' = b ∧ ∀ check, appended check r = false) ∨
    ∃ row : WorkerRow, row.StagedBy cs ∧ row.RegisteredIn b.writeSchemas b.currentGenerations cs ∧
      row.bitmap = b.stagedTablesPresent ∧ b.stagedWorkerIndexes = row.workers ∧
      b.pushChunk profile row.toPush = .ok (b', r) := by
  obtain ⟨range, hrange, h⟩ := Exec.bind_eq_ok.mp h
  have hblocks := Exec.expect_eq_ok hrange
  split at h
  · cases h
    exact Or.inl ⟨rfl, fun _ => rfl⟩
  · next id hid =>
    split at h
    · cases h
      exact Or.inl ⟨rfl, fun _ => rfl⟩
    · next hmatch =>
      split at h
      · cases h
        exact Or.inl ⟨rfl, fun _ => rfl⟩
      · next writeSchemaId hschema =>
        split at h
        · cases h
          exact Or.inl ⟨rfl, fun _ => rfl⟩
        · next hknown =>
          split at h
          · cases h
            exact Or.inl ⟨rfl, fun _ => rfl⟩
          · next hversion =>
            split at h
            · cases h
              exact Or.inl ⟨rfl, fun _ => rfl⟩
            · next hagainst =>
              obtain ⟨size, hsize, h⟩ := Exec.bind_eq_ok.mp h
              obtain ⟨hfirst, hlast⟩ := not_not.mp hmatch
              have hpair : range = ⟨id.firstBlock, id.lastBlock⟩ := by rw [hfirst, hlast]
              refine Or.inr ⟨⟨⟨id, chunk.version, b.stagedWorkerIndexes⟩, size, writeSchemaId,
                b.stagedTablesPresent⟩, ⟨?_, ?_, ?_, ?_, ?_, ?_⟩,
                registeredIn_of_checks htables (not_not.mp hknown) (not_not.mp hversion) hagainst,
                rfl, rfl, ?_⟩
              · rw [← htracks.blockRange, hblocks, hpair]
              · rw [← htracks.id, hid]
              · rw [← htracks.size, Exec.expect_eq_ok hsize]
              · exact htracks.version.symm
              · rw [← htracks.writeSchemaId, hschema]
              · exact htracks.workers.symm
              · rw [hpair] at h
                exact h

end WorkerAssignmentChunkBuilder

namespace WorkerAssignmentBuilder

variable {P Key Rng : Type} {profile : Profile} {b b' : WorkerAssignmentBuilder P Key Rng}

/-- The life of a chunk handle, seen from the open dataset: the row it may append is registered,
and nothing else is touched. -/
theorem handled_of_runChunk {cs : List WorkerChunkCall} {finish : Bool} {e : ChunkEnd}
    (h : b.runChunk profile cs finish = .ok (b', e)) :
    b'.outside = b.outside ∧ b'.currentGenerations = b.currentGenerations ∧
      (registeredKind b.writeSchemas b.currentGenerations).Handled profile b.checkContinuity
        b.columns b.lastBlock cs b'.columns b'.lastBlock e := by
  obtain ⟨⟨mid, r⟩, hcalls, h⟩ := Exec.bind_eq_ok.mp h
  obtain ⟨hsame, htrack⟩ := WorkerAssignmentChunkBuilder.calls_spec
    (WorkerAssignmentChunkBuilder.tracks_newChunk b) hcalls
  have hopen : mid.forgetStaged = b.forgetStaged := hsame
  have hframe : mid.outside = b.outside := congrArg discardDataset hopen
  have hgenerations : mid.currentGenerations = b.currentGenerations :=
    congrArg (fun b => b.currentGenerations) hopen
  have hcolumns : mid.columns = b.columns := congrArg (fun b => b.columns) hopen
  have hlast : mid.lastBlock = b.lastBlock := congrArg (fun b => b.lastBlock) hopen
  have hkept : ∀ e : ChunkEnd, (∀ check, e.appended check = false) →
      (registeredKind b.writeSchemas b.currentGenerations).Handled profile b.checkContinuity
        b.columns b.lastBlock cs mid.columns mid.lastBlock e := by
    intro e hnot
    rw [hcolumns, hlast]
    exact .kept hnot
  cases r with
  | error e =>
    cases h
    exact ⟨hframe, hgenerations, hkept _ fun _ => rfl⟩
  | ok chunk =>
    cases finish with
    | false =>
      cases h
      exact ⟨hframe, hgenerations, hkept _ fun _ => rfl⟩
    | true =>
      obtain ⟨⟨last, r⟩, hfinish, h⟩ := Exec.bind_eq_ok.mp h
      cases h
      have hfresh : WorkerAssignmentChunkBuilder.TracksTables b.newChunk.1 b.newChunk.2 none :=
        ⟨rfl, rfl⟩
      have htables := WorkerAssignmentChunkBuilder.calls_tables hfresh hcalls
      rcases WorkerAssignmentChunkBuilder.finish_cases (htrack chunk rfl) htables hfinish with
        ⟨rfl, hr⟩ | ⟨row, hstaged, hregistered, hbitmap, hworkers, hpush⟩
      · exact ⟨hframe, hgenerations, hkept _ hr⟩
      · obtain ⟨⟨columns, lastBlock, r'⟩, happend, hout⟩ := Exec.bind_eq_ok.mp hpush
        cases hout
        have hschemas : mid.writeSchemas = b.writeSchemas :=
          congrArg (fun b => b.writeSchemas) hopen
        have hcheck : mid.checkContinuity = b.checkContinuity :=
          congrArg (fun b => b.checkContinuity) hopen
        rw [hschemas, hgenerations] at hregistered
        rw [hcheck, hcolumns, hlast, ← hbitmap, hworkers] at happend
        exact ⟨hframe, hgenerations, .tried ⟨hstaged, hregistered⟩ happend⟩

end WorkerAssignmentBuilder

/-- The calls of the chunks appended on an open dataset, in order. -/
def appendedCalls (checkContinuity : Bool) (log : List (WorkerDatasetOp × WorkerDatasetResult)) :
    List (List WorkerChunkCall) :=
  log.filterMap fun
    | (.chunk calls _, .chunk e) => if e.appended checkContinuity then some calls else none
    | _ => none

@[simp] theorem appendedCalls_snoc_chunk (check : Bool)
    (log : List (WorkerDatasetOp × WorkerDatasetResult)) (cs : List WorkerChunkCall)
    (finish : Bool) (e : ChunkEnd) :
    appendedCalls check (log ++ [(.chunk cs finish, .chunk e)]) =
      appendedCalls check log ++ if e.appended check then [cs] else [] := by
  cases he : e.appended check <;> simp [appendedCalls, he]

@[simp] theorem appendedCalls_snoc_generation (check : Bool)
    (log : List (WorkerDatasetOp × WorkerDatasetResult)) (version : UInt32) (baseUrl : String)
    (r : WorkerDatasetResult) :
    appendedCalls check (log ++ [(.registerGeneration version baseUrl, r)]) =
      appendedCalls check log := by
  simp [appendedCalls]

namespace WorkerAssignmentBuilder

variable {P Key Rng : Type} {profile : Profile} {b b' start : WorkerAssignmentBuilder P Key Rng}
  {log : List (WorkerDatasetOp × WorkerDatasetResult)}

/-- An open dataset, what it was opened on and what has happened on it. -/
structure Staging (start b : WorkerAssignmentBuilder P Key Rng)
    (log : List (WorkerDatasetOp × WorkerDatasetResult)) : Prop where
  /-- Nothing outside the open dataset is touched. -/
  frame : b.outside = start.outside
  /-- The columns are in step with the appended chunks. -/
  inStep : workerKind.InStep b.columns b.lastBlock (appendedCalls start.checkContinuity log)

theorem Staging.checkContinuity (h : Staging start b log) :
    b.checkContinuity = start.checkContinuity :=
  congrArg (fun b => b.checkContinuity) h.frame

/-- One chunk handle keeps the open dataset in step. -/
theorem Staging.runChunk (h : Staging start b log) {cs : List WorkerChunkCall} {finish : Bool}
    {e : ChunkEnd} (hrun : b.runChunk profile cs finish = .ok (b', e)) :
    Staging start b' (log ++ [(.chunk cs finish, .chunk e)]) := by
  obtain ⟨hframe, -, hhandled⟩ := handled_of_runChunk hrun
  rw [h.checkContinuity] at hhandled
  refine ⟨hframe.trans h.frame, ?_⟩
  rw [appendedCalls_snoc_chunk]
  exact h.inStep.handled (hhandled.weaken fun _ hrow => hrow.1)

/-- Registering a generation touches only the dataset's generations. -/
theorem registerGeneration_frame {version : UInt32} {baseUrl : String} {out : Outcome}
    (h : b.registerGeneration version baseUrl = (b', out)) :
    ∃ generations, b' = { b with currentGenerations := generations } := by
  unfold registerGeneration at h
  split at h
  · cases h
    exact ⟨b.currentGenerations, rfl⟩
  · split at h
    · cases h
      exact ⟨b.currentGenerations, rfl⟩
    · cases h
      exact ⟨_, rfl⟩

/-- An operation on an open dataset is the life of a chunk handle or a registration. -/
theorem datasetStep_cases {op : WorkerDatasetOp} {r : WorkerDatasetResult}
    (h : b.datasetStep profile op = .ok (b', r)) :
    (∃ cs finish e, op = .chunk cs finish ∧ r = .chunk e ∧
      b.runChunk profile cs finish = .ok (b', e)) ∨
    ∃ version baseUrl out, op = .registerGeneration version baseUrl ∧ r = .generation out ∧
      b.registerGeneration version baseUrl = (b', out) := by
  cases op with
  | chunk cs finish =>
    obtain ⟨⟨mid, e⟩, hrun, hout⟩ := Exec.bind_eq_ok.mp h
    cases hout
    exact Or.inl ⟨cs, finish, e, rfl, rfl, hrun⟩
  | registerGeneration version baseUrl =>
    cases h
    exact Or.inr ⟨version, baseUrl, _, rfl, rfl, rfl⟩

/-- One operation keeps the open dataset in step. -/
theorem Staging.step (h : Staging start b log) {op : WorkerDatasetOp} {r : WorkerDatasetResult}
    (hstep : b.datasetStep profile op = .ok (b', r)) : Staging start b' (log ++ [(op, r)]) := by
  rcases datasetStep_cases hstep with ⟨cs, finish, e, rfl, rfl, hrun⟩ |
      ⟨version, baseUrl, out, rfl, rfl, hregister⟩
  · exact h.runChunk hrun
  · obtain ⟨generations, rfl⟩ := registerGeneration_frame hregister
    exact ⟨h.frame, by simpa using h.inStep⟩

/-- Whatever happens on a dataset opened with nothing staged keeps it in step. -/
theorem staging_of_runScript {ops : List WorkerDatasetOp} (hcolumns : start.columns = {})
    (hlast : start.lastBlock = none)
    (h : runScript (datasetStep profile) start ops = .ok (b, log)) : Staging start b log := by
  have h0 : Staging start start [] := by
    refine ⟨rfl, ?_⟩
    rw [hcolumns, hlast]
    exact workerKind_inStep_nil
  exact runScript_invariant (fun s s' op r log hs hstep => hs.step hstep) h0 h

end WorkerAssignmentBuilder

end SqdNetwork.Assignments
