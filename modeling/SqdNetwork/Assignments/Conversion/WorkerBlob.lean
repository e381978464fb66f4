import SqdNetwork.Assignments.Conversion.Build

/-!
# The worker blob of a conversion

Each chunk the converter stages for workers is appended as one row, so a dataset
is staged exactly when its rows are appended without a report. Everything around
the chunks succeeds: rosters are sorted and registered under ordinals of their own,
datasets have chunks, and workers ascend.
-/

namespace SqdNetwork.Assignments

open SqdNetwork.Core

/-- The bitmap staged for a chunk: none when it has every table of the roster. -/
def stagedBitmap (writeSchemaId : UInt32) (roster : List String) (c : Chunk) : List UInt8 :=
  if (tablesOf c).length ≠ roster.length then (encodeTables roster writeSchemaId (tablesOf c)).1
  else []

/-- The row of a converted chunk on the worker side. -/
def workerRow (writeSchemaId : UInt32) (roster : List String) (entry : Chunk × DataChunk) :
    WorkerRow where
  id := entry.2
  version := 0
  workers := entry.1.workerIndexes
  size := entry.1.size
  writeSchemaId := writeSchemaId
  bitmap := stagedBitmap writeSchemaId roster entry.1

/-- Tables within a sorted roster are encoded. -/
theorem encodeTables_tablesOf {roster : List String} (hsorted : roster.Pairwise (· < ·))
    (writeSchemaId : UInt32) {c : Chunk} (htables : ∀ table ∈ tablesOf c, table ∈ roster) :
    (encodeTables roster writeSchemaId (tablesOf c)).2 = .ok () := by
  refine (selectTables_ok_iff hsorted writeSchemaId (tablesOf c) 0 _).mpr ⟨tablesOf_sorted c, ?_⟩
  intro table ht
  obtain ⟨i, hi⟩ := List.mem_iff_getElem?.mp (htables table ht)
  exact ⟨i, Nat.zero_le i, hi⟩

section WorkerChunks

variable {P Key Rng : Type} {profile : Profile} {writeSchemaId : UInt32} {roster : List String}
  {b b' : WorkerAssignmentBuilder P Key Rng}

/-- The builder once a chunk with a buffer of its own has been appended. -/
def WorkerAssignmentBuilder.afterChunk (b : WorkerAssignmentBuilder P Key Rng) (row : WorkerRow)
    (columns : WorkerDatasetColumns) (lastBlock : Option UInt64) :
    WorkerAssignmentBuilder P Key Rng :=
  { b with
    columns := columns
    lastBlock := lastBlock
    stagedWorkerIndexes := row.workers
    stagedTablesPresent := row.bitmap }

/-- The handle of a converted chunk before it is finished. -/
def stagedHandle (row : WorkerRow) (against : Option UInt32) : WorkerAssignmentChunkBuilder where
  blockRange := some ⟨row.id.firstBlock, row.id.lastBlock⟩
  id := some row.id
  size := some row.size
  writeSchemaId := some row.writeSchemaId
  tablesPresent := against

/-- Listing the tables of a chunk, where they are not the whole roster, stages its bitmap. -/
theorem stageTables_eq (hroster : b.writeSchemas.get? writeSchemaId = some roster)
    (hsorted : roster.Pairwise (· < ·)) {c : Chunk} (id : DataChunk)
    (htables : ∀ table ∈ tablesOf c, table ∈ roster) (hempty : b.stagedTablesPresent = []) :
    ∃ against : Option UInt32, against.filter (· ≠ writeSchemaId) = none ∧
      (if (tablesOf c).length ≠ roster.length then
        (stagedHandle (workerRow writeSchemaId roster (c, id)) none).setTablesPresent profile b
          (tablesOf c)
      else .ok (b, .ok (stagedHandle (workerRow writeSchemaId roster (c, id)) none))) =
        .ok ({ b with stagedTablesPresent := stagedBitmap writeSchemaId roster c },
          .ok (stagedHandle (workerRow writeSchemaId roster (c, id)) against)) := by
  unfold stagedBitmap
  split
  · refine ⟨some writeSchemaId, by simp, ?_⟩
    rw [WorkerAssignmentChunkBuilder.setTablesPresent_eq rfl hroster fun _ => tablesOf_sorted c,
      encodeTables_tablesOf hsorted writeSchemaId htables]
    rfl
  · refine ⟨none, rfl, ?_⟩
    rw [← hempty]

/-- Finishing the handle of a converted chunk pushes its row. -/
theorem finish_stagedHandle {row : WorkerRow} {against : Option UInt32} (hversion : row.version = 0)
    (hknown : b.writeSchemas.contains row.writeSchemaId = true)
    (hagainst : against.filter (· ≠ row.writeSchemaId) = none) :
    (stagedHandle row against).finish profile b = b.pushChunk profile row.toPush := by
  unfold WorkerAssignmentChunkBuilder.finish stagedHandle
  simp only [Exec.expect_some, Exec.ok_bind, and_self, not_true_eq_false, if_false, hknown,
    true_or, hagainst]
  rw [WorkerRow.toPush, hversion]

/-- A chunk is staged exactly if its row is appended without a report. -/
theorem buildWorkerChunk_gives_iff (hcheck : b.checkContinuity = false)
    (hroster : b.writeSchemas.get? writeSchemaId = some roster)
    (hsorted : roster.Pairwise (· < ·)) {datasetId : String} {c : Chunk} {id : DataChunk}
    (hfiled : c.FiledAs datasetId id) (htables : ∀ table ∈ tablesOf c, table ∈ roster) :
    (buildWorkerChunk profile writeSchemaId roster b c).Gives b' ↔ ∃ columns lastBlock,
      appendChunk profile false workerKind.base
        (workerKind.push (workerRow writeSchemaId roster (c, id))) workerKind.pushEnd b.columns
        b.lastBlock ⟨id.firstBlock, id.lastBlock⟩ = .ok (columns, lastBlock, .ok ()) ∧
      b' = b.afterChunk (workerRow writeSchemaId roster (c, id)) columns lastBlock := by
  obtain ⟨against, hagainst, hstage⟩ := @stageTables_eq _ _ _ profile writeSchemaId roster
    { b with stagedWorkerIndexes := c.workerIndexes, stagedTablesPresent := [] } hroster hsorted c
    id htables rfl
  have hknown : b.writeSchemas.contains writeSchemaId = true := by
    rw [SortedMap.contains, hroster]
    rfl
  refine hfiled.idOf.bind_iff.trans ?_
  refine (Fallible.gives_lift.mpr rfl).bind_iff.trans ?_
  refine (Fallible.gives_convert.mpr rfl).bind_iff.trans ?_
  refine (Fallible.gives_lift.mpr hstage).bind_iff.trans ?_
  refine (Fallible.gives_convert.mpr rfl).bind_iff.trans ?_
  dsimp only
  rw [finish_stagedHandle rfl hknown hagainst]
  refine gives_reported.trans ?_
  rw [WorkerAssignmentBuilder.pushChunk, Exec.bind_eq_ok, ← hcheck]
  constructor
  · rintro ⟨⟨columns, lastBlock, r⟩, happend, hout⟩
    cases hout
    exact ⟨columns, lastBlock, happend, rfl⟩
  · rintro ⟨columns, lastBlock, happend, rfl⟩
    exact ⟨_, happend, rfl⟩

end WorkerChunks

/-- A dataset of the worker blob that holds what is converted of a legacy one. -/
def WorkerCopy (writeSchemaId : UInt32) (d : Dataset) (dataset : WorkerAssignmentDataset) : Prop :=
  ∃ (columns : WorkerDatasetColumns) (first : Chunk), d.chunks[0]? = some first ∧
    columns.Encodes (d.parsed.map (workerRow writeSchemaId (rosterOf d))) ∧
    dataset = columns.toDataset d.id d.lastBlock first.datasetBaseUrl none

namespace WorkerAssignmentBuilder

variable {P Key Rng : Type}

/-- A builder between the datasets of a conversion. -/
structure Converting (schemas : SortedMap UInt32 (List String))
    (b : WorkerAssignmentBuilder P Key Rng) : Prop where
  columns : b.columns = {}
  lastBlock : b.lastBlock = none
  generations : b.currentGenerations = .empty
  checkContinuity : b.checkContinuity = false
  writeSchemas : b.writeSchemas = schemas

/-- What a conversion of datasets leaves alone. -/
def workerPart (b : WorkerAssignmentBuilder P Key Rng) := (b.workerEntries, b.lastPeerId)

/-- The dataset that is open, apart from everything else. -/
def openDataset (b : WorkerAssignmentBuilder P Key Rng) :
    OpenDataset WorkerDatasetColumns (WorkerAssignmentBuilder P Key Rng) where
  columns := b.columns
  lastBlock := b.lastBlock
  rest := { b.forgetStaged with columns := {}, lastBlock := none }

theorem Converting.rest {schemas : SortedMap UInt32 (List String)}
    {b : WorkerAssignmentBuilder P Key Rng} (h : b.Converting schemas) :
    b.openDataset.rest.Converting schemas :=
  ⟨rfl, rfl, h.generations, h.checkContinuity, h.writeSchemas⟩

theorem Converting.holds {schemas : SortedMap UInt32 (List String)}
    {b : WorkerAssignmentBuilder P Key Rng} (h : b.Converting schemas) :
    workerKind.Holds b.openDataset.columns b.openDataset.lastBlock [] := by
  refine ⟨?_, h.lastBlock⟩
  rw [openDataset, h.columns]
  exact WorkerDatasetColumns.encodes_nil

end WorkerAssignmentBuilder

section WorkerDatasets

variable {P Key Rng : Type} {profile : Profile} {schemas : SortedMap UInt32 (List String)}
  {b b' : WorkerAssignmentBuilder P Key Rng} {d : Dataset} {index : Nat} {writeSchemaId : UInt32}
  {legacyRosters : List (List String)}

/-- The steps of converting one dataset. -/
theorem buildWorkerDataset_gives_iff (hid : schemaId profile index = .ok writeSchemaId)
    (hroster : legacyRosters[index]? = some (rosterOf d)) (h : d.Convertible) :
    ∃ first, d.chunks[0]? = some first ∧
      ∀ b', (buildWorkerDataset profile legacyRosters b (d, index)).Gives b' ↔
        ∃ mid, (d.chunks.foldlM (buildWorkerChunk profile writeSchemaId (rosterOf d)) b).Gives mid ∧
          mid.finishDataset d.id first.datasetBaseUrl = .ok (b', .ok ()) := by
  have hpos := List.length_pos_iff.mpr h.chunks_ne_nil
  refine ⟨d.chunks[0], List.getElem?_eq_getElem hpos, fun b' => ?_⟩
  refine (Fallible.gives_lift.mpr hid).bind_iff.trans ?_
  refine (Fallible.gives_lift.mpr (Exec.index_eq_ok hroster)).bind_iff.trans ?_
  refine (Fallible.gives_lift.mpr (Exec.index_of_lt hpos)).bind_iff.trans ?_
  rw [Fallible.gives_bind]
  exact exists_congr fun mid => and_congr_right fun _ => gives_reported

/-- Columns that hold the rows of a dataset are emitted as its copy. -/
theorem finishDataset_of_holds {baseUrl : String} (h : d.Convertible)
    (hholds : workerKind.Holds b.columns b.lastBlock
      (d.parsed.map (workerRow writeSchemaId (rosterOf d)))) :
    b.finishDataset d.id baseUrl = .ok (b.afterEmit d.id baseUrl d.lastBlock, .ok ()) := by
  obtain ⟨hcount, htops⟩ := hholds.ready h.rows_ne_nil
  have hlast : b.lastBlock = some d.lastBlock := by
    rw [hholds.2]
    exact h.getLast?_rows fun _ => rfl
  rw [workerKind_base] at hcount htops
  rw [WorkerAssignmentBuilder.finishDataset, WorkerAssignmentBuilder.emitDataset, if_neg hcount,
    htops, hlast]
  rfl

variable (hready : b.Converting schemas) (hid : schemaId profile index = .ok writeSchemaId)
  (hroster : legacyRosters[index]? = some (rosterOf d))
  (hschema : schemas.get? writeSchemaId = some (rosterOf d)) (h : d.Convertible)

include hready hschema h

omit hready in
/-- Every chunk of the dataset is staged by its row. -/
theorem workerChunk_stages {entry : Chunk × DataChunk} (he : entry ∈ d.parsed) :
    StagesRow workerKind profile WorkerAssignmentBuilder.openDataset
      (workerRow writeSchemaId (rosterOf d)) (buildWorkerChunk profile writeSchemaId (rosterOf d))
      (fun b : WorkerAssignmentBuilder P Key Rng => fun entry =>
        b.afterChunk (workerRow writeSchemaId (rosterOf d) entry))
      (WorkerAssignmentBuilder.Converting schemas) entry := by
  intro b hready b'
  have hcheck : b.checkContinuity = false := hready.checkContinuity
  have hschemas : b.writeSchemas = schemas := hready.writeSchemas
  have hmem : entry.1 ∈ d.chunks := by
    rw [← h.map_parsed]
    exact List.mem_map_of_mem he
  rw [← hschemas] at hschema
  exact buildWorkerChunk_gives_iff hcheck hschema (rosterOf_sorted d) (h.filedAs he)
    fun table ht => mem_rosterOf hmem ht

/-- Staged chunks are held, with everything else as it was. -/
theorem of_stageWorkerChunks {mid : WorkerAssignmentBuilder P Key Rng}
    (hmid : (d.chunks.foldlM (buildWorkerChunk profile writeSchemaId (rosterOf d)) b).Gives mid) :
    workerKind.Holds mid.columns mid.lastBlock
        (d.parsed.map (workerRow writeSchemaId (rosterOf d))) ∧
      mid.openDataset.rest = b.openDataset.rest :=
  of_stageChunks (fun _ _ _ _ => rfl) h (fun _ he => workerChunk_stages hschema h he) hready.rest
    hready.holds hmid

include hid hroster

/-- A dataset is converted exactly if it is contiguous and its worker references can be
counted. -/
theorem exists_buildWorkerDataset_iff (hcount : d.chunks.length < 2 ^ 32) :
    (∃ b', (buildWorkerDataset profile legacyRosters b (d, index)).Gives b') ↔
      d.Contiguous ∧ d.workerReferences < 2 ^ 32 := by
  obtain ⟨first, -, hsteps⟩ := @buildWorkerDataset_gives_iff _ _ _ _ b _ _ _ _ hid hroster h
  have hstaged : (∃ mid, (d.chunks.foldlM
      (buildWorkerChunk profile writeSchemaId (rosterOf d)) b).Gives mid) ↔
        d.Contiguous ∧ d.workerReferences < 2 ^ 32 :=
    exists_stageChunks_iff (fun _ _ _ _ => rfl) h (fun _ he => workerChunk_stages hschema h he)
      hready.rest hready.holds (fun _ => ⟨rfl, rfl⟩) hcount
  rw [← hstaged]
  constructor
  · rintro ⟨b', hb⟩
    obtain ⟨mid, hmid, -⟩ := (hsteps b').mp hb
    exact ⟨mid, hmid⟩
  · rintro ⟨mid, hmid⟩
    have hholds := (of_stageWorkerChunks hready hschema h hmid).1
    exact ⟨_, (hsteps _).mpr ⟨mid, hmid, finishDataset_of_holds h hholds⟩⟩

/-- A converted dataset is added to the blob, and nothing else changes. -/
theorem of_buildWorkerDataset
    (hb : (buildWorkerDataset profile legacyRosters b (d, index)).Gives b') :
    b'.Converting schemas ∧ b'.workerPart = b.workerPart ∧
      ∃ dataset, b'.allDatasets = b.allDatasets ++ [dataset] ∧
        WorkerCopy writeSchemaId d dataset := by
  obtain ⟨first, hfirst, hsteps⟩ := @buildWorkerDataset_gives_iff _ _ _ _ b _ _ _ _ hid hroster h
  obtain ⟨mid, hmid, hfinish⟩ := (hsteps b').mp hb
  obtain ⟨hholds, hrest⟩ := of_stageWorkerChunks hready hschema h hmid
  rw [finishDataset_of_holds h hholds, Except.ok.injEq, Prod.mk.injEq] at hfinish
  obtain ⟨rfl, -⟩ := hfinish
  have hcheck : mid.checkContinuity = b.checkContinuity :=
    congrArg (fun b => b.checkContinuity) hrest
  have hschemas : mid.writeSchemas = b.writeSchemas := congrArg (fun b => b.writeSchemas) hrest
  have hdatasets : mid.allDatasets = b.allDatasets := congrArg (fun b => b.allDatasets) hrest
  have hworkers : mid.workerPart = b.workerPart :=
    congrArg (fun b => (b.workerEntries, b.lastPeerId)) hrest
  have hgenerations : mid.currentGenerations = b.currentGenerations :=
    congrArg (fun b => b.currentGenerations) hrest
  have hnone : mid.createGenerations = none := by
    rw [WorkerAssignmentBuilder.createGenerations, hgenerations, hready.generations]
    rfl
  refine ⟨⟨rfl, rfl, rfl, hcheck.trans hready.checkContinuity, hschemas.trans hready.writeSchemas⟩,
    hworkers, _, congrArg (· ++ [_]) hdatasets, mid.columns, first, hfirst, hholds.1, ?_⟩
  rw [hnone]

end WorkerDatasets

section WorkerLoops

variable {P Key Rng : Type} {profile : Profile} {b b' : WorkerAssignmentBuilder P Key Rng}

/-- The builder while rosters are registered: those before the position have their ordinals, and
no other key is taken. -/
structure RostersUpTo (list : List (List String)) (start : WorkerAssignmentBuilder P Key Rng)
    (i : Nat) (b : WorkerAssignmentBuilder P Key Rng) : Prop where
  converting : b.Converting b.writeSchemas
  workerPart : b.workerPart = start.workerPart
  allDatasets : b.allDatasets = start.allDatasets
  registered : ∀ j roster, j < i → list[j]? = some roster →
    b.writeSchemas.get? (ordinal j) = some roster
  taken : ∀ key roster, b.writeSchemas.get? key = some roster → key.toNat ≤ i

/-- One more sorted roster is registered under its ordinal. -/
theorem RostersUpTo.step {list : List (List String)} {start : WorkerAssignmentBuilder P Key Rng}
    {i : Nat} {roster : List String} (h : RostersUpTo list start i b) (hi : i + 1 < 2 ^ 32)
    (hroster : list[i]? = some roster) (hsorted : roster.Pairwise (· < ·)) :
    ∃ b', (registerRoster profile b (roster, i)).Gives b' ∧ RostersUpTo list start (i + 1) b' := by
  have hord := toNat_ordinal hi
  have hnew : b.writeSchemas.get? (ordinal i) = none := by
    by_contra hne
    obtain ⟨other, hother⟩ := Option.ne_none_iff_exists'.mp hne
    have hle := h.taken _ _ hother
    omega
  have hregister : b.registerWriteSchema (ordinal i) roster =
      ({ b with writeSchemas := b.writeSchemas.insert (ordinal i) roster }, .ok ()) := by
    rw [WorkerAssignmentBuilder.registerWriteSchema, if_pos (isSortedBy_lt_iff.mpr hsorted), hnew]
  refine ⟨{ b with writeSchemas := b.writeSchemas.insert (ordinal i) roster }, ?_, ?_⟩
  · refine (Fallible.gives_lift.mpr (schemaId_eq hi)).bind_iff.mpr ?_
    rw [hregister]
    exact (Fallible.gives_convert.mpr rfl).bind_iff.mpr (Fallible.gives_pure.mpr rfl)
  · have hconverting := h.converting
    refine ⟨⟨hconverting.1, hconverting.2, hconverting.3, hconverting.4, rfl⟩, h.workerPart,
      h.allDatasets, fun j other hj hget => ?_, fun key other hget => ?_⟩
    · change (b.writeSchemas.insert (ordinal i) roster).get? (ordinal j) = some other
      rw [SortedMap.get?_insert]
      split
      · next heq =>
        have hnat := congrArg UInt32.toNat heq
        rw [hord, toNat_ordinal (by omega)] at hnat
        obtain rfl : j = i := by omega
        exact hroster.symm.trans hget
      · next hne =>
        exact h.registered j other (lt_of_le_of_ne (by omega) fun he => hne (he ▸ rfl)) hget
    · change (b.writeSchemas.insert (ordinal i) roster).get? key = some other at hget
      rw [SortedMap.get?_insert] at hget
      split at hget
      · next heq => rw [heq, hord]
      · exact (h.taken key other hget).trans (Nat.le_succ i)

/-- Sorted rosters are all registered under their ordinals. -/
theorem registerRosters_give {list : List (List String)} (hlength : list.length < 2 ^ 32)
    (hsorted : ∀ roster ∈ list, roster.Pairwise (· < ·)) (hready : b.Converting .empty) :
    ∃ b', (list.zipIdx.foldlM (registerRoster profile) b).Gives b' ∧
      RostersUpTo list b list.length b' := by
  have h0 : RostersUpTo list b 0 b := by
    refine ⟨⟨hready.1, hready.2, hready.3, hready.4, rfl⟩, rfl, rfl, by simp, ?_⟩
    rw [hready.writeSchemas]
    rintro key roster ⟨⟩
  refine Fallible.foldlM_zipIdx_gives (RostersUpTo list b) _ list (fun i roster s hi hs => ?_) h0
  have hlt := (List.getElem?_eq_some_iff.mp hi).1
  exact hs.step (by omega) hi (hsorted roster (List.mem_of_getElem? hi))

end WorkerLoops

/-- A copied worker's entry: an unknown status byte is stored as an unsupported version. -/
def copiedEntry (entry : WorkerEntry) : WorkerEntry :=
  { entry with status := statusToFb (statusFromFb entry.status) }

/-- What is converted of a legacy assignment, as the worker blob. -/
structure WorkerBlob (legacy : Assignment) (root : WorkerAssignmentRoot) : Prop where
  datasets : Copies WorkerCopy legacy.datasets root.datasets
  workers : root.workers = legacy.workers.map copiedEntry
  schemas : ∃ schemas : SortedMap UInt32 (List String),
    root.schemas = schemas.entries.map (fun entry => ⟨entry.1, entry.2⟩) ∧
    ∀ i d, legacy.datasets[i]? = some d → schemas.get? (ordinal i) = some (rosterOf d)

section WorkerBlobs

variable {P Key Rng : Type} [LT P] [DecidableLT P] {profile : Profile} {env : Sealing P Key Rng}
  {fromBytes : List UInt8 → Option P} {legacy : Assignment}
  (hbytes : ∀ bytes p, fromBytes bytes = some p → env.toBytes p = bytes)

/-- The workers copied so far, apart from everything else in the blob. -/
def WorkerAssignmentBuilder.copiedWorkers (b : WorkerAssignmentBuilder P Key Rng) :
    CopiedWorkers WorkerEntry P
      (List WorkerAssignmentDataset × SortedMap UInt32 (List String)) where
  entries := b.workerEntries
  lastPeerId := b.lastPeerId
  rest := (b.allDatasets, b.writeSchemas)

include hbytes

/-- A worker with headers is copied. -/
theorem copyWorker_gives {b : WorkerAssignmentBuilder P Key Rng} {i : Nat} {entry : WorkerEntry}
    {peer : P} (hheaders : ∃ headers, entry.encryptedHeaders = some headers)
    (hentry : legacy.workers[i]? = some entry)
    (hparse : entry.workerId.tryInto fromBytes = some peer)
    (hworker : legacy.getWorkerByIndex (UInt16.ofNat i) =
      .ok ⟨legacy.reader, entry, UInt16.ofNat i⟩)
    (hnext : assertAscending b.lastPeerId peer = .ok ()) :
    ∃ b', (copyWorker profile env fromBytes legacy b i).Gives b' ∧
      b'.copiedWorkers = ⟨b.workerEntries ++ [copiedEntry entry], some peer,
        b.allDatasets, b.writeSchemas⟩ := by
  obtain ⟨headers, hheaders⟩ := hheaders
  have hslot : workerIdFrom profile (env.toBytes peer) = .ok entry.workerId := by
    rw [hbytes _ _ hparse]
    exact workerIdFrom_bytes profile entry.workerId
  have hadd : b.addWorkerWithSealedHeaders profile env peer (statusFromFb entry.status)
      headers.identity headers.nonce headers.ciphertext =
        .ok ({ b with lastPeerId := some peer }.pushWorker entry.workerId
          (statusFromFb entry.status) (some headers)) := by
    rw [WorkerAssignmentBuilder.addWorkerWithSealedHeaders, hnext, hslot]
    rfl
  refine ⟨{ b with lastPeerId := some peer }.pushWorker entry.workerId
    (statusFromFb entry.status) (some headers), ?_, ?_⟩
  · refine (Fallible.gives_lift.mpr (Exec.index_eq_ok hentry)).bind_iff.mpr ?_
    refine (Fallible.gives_context.mpr hheaders).bind_iff.mpr ?_
    refine (Fallible.gives_lift.mpr hworker).bind_iff.mpr ?_
    refine (Fallible.gives_context.mpr hparse).bind_iff.mpr ?_
    exact Fallible.gives_lift.mpr hadd
  · rw [copiedEntry, hheaders]
    rfl

/-- The workers of a convertible assignment are all copied. -/
theorem copyWorkers_give {b : WorkerAssignmentBuilder P Key Rng} (h : legacy.Convertible fromBytes)
    (hnone : b.workerPart = ([], none)) :
    ∃ b', ((List.range legacy.workers.length).foldlM (copyWorker profile env fromBytes legacy)
        b).Gives b' ∧ b'.workerEntries = legacy.workers.map copiedEntry ∧
      b'.allDatasets = b.allDatasets ∧ b'.writeSchemas = b.writeSchemas := by
  obtain ⟨hentries, hlast⟩ := Prod.mk.inj hnone
  have hb : b.copiedWorkers = ⟨[], none, b.allDatasets, b.writeSchemas⟩ := by
    rw [WorkerAssignmentBuilder.copiedWorkers, hentries, hlast]
  obtain ⟨b', hb', hcopied, hrest⟩ := copyLoop_gives h
    (fun b i entry peer hentry hparse hworker hnext => copyWorker_gives hbytes
      (h.headers entry (List.mem_of_getElem? hentry)) hentry hparse hworker hnext) hb
  exact ⟨b', hb', hcopied, congrArg Prod.fst hrest, congrArg Prod.snd hrest⟩

omit [LT P] [DecidableLT P] hbytes in
/-- Once rosters are registered, every dataset has its own. -/
theorem RostersUpTo.schema {start b : WorkerAssignmentBuilder P Key Rng}
    (h : RostersUpTo (rosters legacy) start (rosters legacy).length b) {i : Nat} {d : Dataset}
    (hd : legacy.datasets[i]? = some d) : (rosters legacy)[i]? = some (rosterOf d) ∧
      b.writeSchemas.get? (ordinal i) = some (rosterOf d) := by
  have hroster : (rosters legacy)[i]? = some (rosterOf d) := by
    rw [rosters, List.getElem?_map, hd, Option.map_some]
  exact ⟨hroster, h.registered i _ (List.getElem?_eq_some_iff.mp hroster).1 hroster⟩

section DatasetLoop

variable {start b : WorkerAssignmentBuilder P Key Rng}
  (hrosters : RostersUpTo (rosters legacy) start (rosters legacy).length b)
  (hstored : legacy.Stored) (hdatasets : ∀ d ∈ legacy.datasets, d.Convertible)

include hrosters hstored hdatasets

omit [LT P] [DecidableLT P] hbytes in
/-- One round of the datasets' loop. -/
theorem convertWorkerDataset_round {s s' : WorkerAssignmentBuilder P Key Rng} {i : Nat}
    {d : Dataset} (hd : legacy.datasets[i]? = some d)
    (hs : s.Converting b.writeSchemas ∧ s.workerPart = start.workerPart)
    (hgives : (buildWorkerDataset profile (rosters legacy) s (d, i)).Gives s') :
    (s'.Converting b.writeSchemas ∧ s'.workerPart = start.workerPart) ∧
      ∃ dataset, s'.allDatasets = s.allDatasets ++ [dataset] ∧
        WorkerCopy (ordinal i) d dataset := by
  have hi : i < legacy.datasets.length := (List.getElem?_eq_some_iff.mp hd).1
  obtain ⟨hroster, hschema⟩ := hrosters.schema hd
  have hid := @schemaId_eq profile i (Nat.lt_of_le_of_lt hi hstored.datasets)
  obtain ⟨hconverting, hworkers, hcopy⟩ := of_buildWorkerDataset hs.1 hid hroster hschema
    (hdatasets d (List.mem_of_getElem? hd)) hgives
  exact ⟨⟨hconverting, hworkers.trans hs.2⟩, hcopy⟩

omit [LT P] [DecidableLT P] hbytes in
/-- The datasets are all converted exactly if they are contiguous and their worker references can
be counted. -/
theorem convertWorkerDatasets_give_iff :
    (∃ b', (legacy.datasets.zipIdx.foldlM (buildWorkerDataset profile (rosters legacy)) b).Gives
        b') ↔ ∀ d ∈ legacy.datasets, d.Contiguous ∧ d.workerReferences < 2 ^ 32 := by
  refine convertDatasets_give_iff
    (fun _ _ _ _ hd hs hgives => convertWorkerDataset_round hrosters hstored hdatasets hd hs hgives)
    (fun s i d hd hs => ?_) ⟨hrosters.converting, hrosters.workerPart⟩
  have hi : i < legacy.datasets.length := (List.getElem?_eq_some_iff.mp hd).1
  have hmem := List.mem_of_getElem? hd
  obtain ⟨hroster, hschema⟩ := hrosters.schema hd
  have hid := @schemaId_eq profile i (Nat.lt_of_le_of_lt hi hstored.datasets)
  exact exists_buildWorkerDataset_iff hs.1 hid hroster hschema (hdatasets d hmem)
    (hstored.chunks d hmem)

omit [LT P] [DecidableLT P] hbytes in
/-- The converted datasets are copies. -/
theorem of_convertWorkerDatasets (hempty : start.allDatasets = [])
    {b' : WorkerAssignmentBuilder P Key Rng}
    (h : (legacy.datasets.zipIdx.foldlM (buildWorkerDataset profile (rosters legacy)) b).Gives b') :
    (b'.Converting b.writeSchemas ∧ b'.workerPart = start.workerPart) ∧
      Copies WorkerCopy legacy.datasets b'.allDatasets :=
  of_convertDatasets
    (fun _ _ _ _ hd hs hgives => convertWorkerDataset_round hrosters hstored hdatasets hd hs hgives)
    h ⟨hrosters.converting, hrosters.workerPart⟩ (hrosters.allDatasets.trans hempty)

end DatasetLoop

variable (fb : FlatBuffers WorkerAssignmentRoot) (rng : Rng) (hstored : legacy.Stored)
  (h : legacy.Convertible fromBytes)

include hstored

omit [LT P] [DecidableLT P] hbytes in
/-- Rosters are registered first. -/
theorem registerRosters_new :
    ∃ b, ((rosters legacy).zipIdx.foldlM (registerRoster profile)
        ((WorkerAssignmentBuilder.newWithRng env "" rng).setCheckContinuity false)).Gives b ∧
      RostersUpTo (rosters legacy)
        ((WorkerAssignmentBuilder.newWithRng env "" rng).setCheckContinuity false)
        (rosters legacy).length b := by
  refine registerRosters_give ?_ ?_ ⟨rfl, rfl, rfl, rfl, rfl⟩
  · rw [rosters, List.length_map]
    exact hstored.datasets
  · intro roster hroster
    obtain ⟨d, -, rfl⟩ := List.mem_map.mp hroster
    exact rosterOf_sorted d

include h

/-- The worker blob is built exactly if every dataset is contiguous and its worker references can
be counted. -/
theorem exists_buildWorker_iff :
    (∃ buf, (buildWorker profile env fromBytes fb rng legacy).Gives buf) ↔
      ∀ d ∈ legacy.datasets, d.Contiguous ∧ d.workerReferences < 2 ^ 32 := by
  obtain ⟨b, hb, hrosters⟩ := @registerRosters_new _ _ _ profile env _ rng hstored
  rw [← @convertWorkerDatasets_give_iff _ _ _ profile _ _ _ hrosters hstored h.datasets]
  constructor
  · rintro ⟨buf, hbuf⟩
    obtain ⟨b', hb', -⟩ := Fallible.gives_bind.mp (hb.bind_iff.mp hbuf)
    exact ⟨b', hb'⟩
  · rintro ⟨b', hb'⟩
    obtain ⟨⟨-, hworkers⟩, -⟩ := of_convertWorkerDatasets hrosters hstored h.datasets rfl hb'
    obtain ⟨last, hlast, -⟩ := @copyWorkers_give _ _ _ _ _ profile _ _ _ hbytes b' h hworkers
    exact ⟨fb.finish last.finish, hb.bind_iff.mpr (hb'.bind_iff.mpr
      (hlast.bind_iff.mpr (Fallible.gives_pure.mpr rfl)))⟩

/-- A worker blob that is built holds what is converted. -/
theorem of_buildWorker {buf : fb.Buf}
    (hbuf : (buildWorker profile env fromBytes fb rng legacy).Gives buf) :
    ∃ root, buf = fb.finish root ∧ WorkerBlob legacy root := by
  obtain ⟨b, hb, hrosters⟩ := @registerRosters_new _ _ _ profile env _ rng hstored
  obtain ⟨b', hb', hrest⟩ := Fallible.gives_bind.mp (hb.bind_iff.mp hbuf)
  obtain ⟨⟨hconverting, hworkers⟩, hcopies⟩ :=
    of_convertWorkerDatasets hrosters hstored h.datasets rfl hb'
  obtain ⟨last, hlast, hentries, hdatasets, hschemas⟩ :=
    @copyWorkers_give _ _ _ _ _ profile _ _ _ hbytes b' h hworkers
  have hfinish := hlast.bind_iff.mp hrest
  refine ⟨last.finish, (Fallible.gives_pure.mp hfinish).symm, ?_, hentries, last.writeSchemas, rfl,
    fun i d hd => ?_⟩
  · rw [← hdatasets] at hcopies
    exact hcopies
  · rw [hschemas, hconverting.writeSchemas]
    exact (hrosters.schema hd).2

end WorkerBlobs

end SqdNetwork.Assignments
