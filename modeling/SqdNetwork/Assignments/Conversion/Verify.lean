import SqdNetwork.Assignments.Urls
import SqdNetwork.Assignments.WorkerIds
import SqdNetwork.Assignments.Conversion.PortalBlob
import SqdNetwork.Assignments.Conversion.WorkerBlob

/-!
# Conversions that are verified

Both blobs read back what was converted, so the comparison with the source can
fail on one field only: the tables of a chunk, where the bitmaps of its dataset
no longer fit the offsets that cut them. A whole conversion thus goes through
exactly if every dataset is contiguous and small enough.
-/

namespace SqdNetwork.Assignments

open SqdNetwork.Core

section Chunks

/-- A chunk's common columns read back as the legacy chunk. -/
structure CopiedAt (c : Chunk) (id : DataChunk) (v : ColumnVectors) (index : UInt32) : Prop where
  rebuilt : v.id index = .ok (some c.id)
  firstBlock : v.firstBlock index = .ok c.firstBlock
  lastBlock : v.lastBlock index = .ok id.lastBlock
  version : v.version index = .ok 0
  workers : v.workersOf index = .ok c.workerIndexes

variable {d : Dataset} {c : Chunk} {id : DataChunk} {i : Nat}

theorem StagedColumns.Encodes.copiedAt {columns : StagedColumns} {rows : List ChunkRow}
    {index : UInt32} (h : columns.Encodes rows)
    (hrow : rows[index.toNat]? = some ⟨id, 0, c.workerIndexes⟩) {datasetId : String}
    (hfiled : c.FiledAs datasetId id) : CopiedAt c id columns.emit index := by
  have hid := h.id_emit hrow
  have hfirst := h.firstBlock_emit hrow
  refine ⟨?_, ?_, h.lastBlock_emit hrow, h.version_emit hrow, h.workersOf_emit hrow⟩
  · rw [hfiled.canonical]
    exact hid
  · rw [← hfiled.firstBlock]
    exact hfirst

/-- A url ends in what was joined to it. -/
theorem endsWith_joinSlash (url rest : String) : endsWith (joinSlash url rest) rest = true := by
  refine decide_eq_true ?_
  unfold joinSlash
  split
  · rw [String.toList_append]
    exact List.suffix_append _ _
  · rw [String.toList_append]
    exact List.suffix_append _ _

/-- What a worker dataset returns at a position. -/
structure WorkerChunkCopy (c : Chunk) (id : DataChunk) (w : WorkerAssignmentDataset)
    (index : UInt32) : Prop where
  chunk : w.chunk index = some ⟨w, index⟩
  copied : CopiedAt c id w.toColumnVectors index
  size : WorkerChunk.size ⟨w, index⟩ = .ok c.size
  url : ∃ url, WorkerChunk.url ⟨w, index⟩ = .ok (some url) ∧ endsWith url c.id = true

/-- What a portal dataset returns at a position. -/
structure PortalChunkCopy (c : Chunk) (id : DataChunk) (p : PortalAssignmentDataset)
    (index : UInt32) : Prop where
  chunk : p.chunk index = some ⟨p, index⟩
  copied : CopiedAt c id p.toColumnVectors index
  timestamp : PortalChunk.lastBlockTimestamp ⟨p, index⟩ = .ok (c.lastBlockTimestamp.getD 0)

/-- The position of a chunk as the reader takes it. -/
theorem toNat_position (hcount : d.chunks.length < 2 ^ 32) (hc : d.chunks[i]? = some c) :
    (UInt32.ofNat i).toNat = i :=
  UInt32.toNat_ofNat_of_lt (Nat.lt_trans (List.getElem?_eq_some_iff.mp hc).1 hcount)

/-- Every chunk of a copied dataset is returned at its position. -/
theorem WorkerCopy.chunk {writeSchemaId : UInt32} {w : WorkerAssignmentDataset}
    (hcopy : WorkerCopy writeSchemaId d w) (h : d.Convertible) (hcount : d.chunks.length < 2 ^ 32)
    (hc : d.chunks[i]? = some c) (hentry : d.parsed[i]? = some (c, id)) :
    WorkerChunkCopy c id w (UInt32.ofNat i) := by
  obtain ⟨columns, first, -, hrows, rfl⟩ := hcopy
  have hindex := toNat_position hcount hc
  have hfiled := h.filedAs (List.mem_of_getElem? hentry)
  have hrow : (d.parsed.map (workerRow writeSchemaId (rosterOf d)))[(UInt32.ofNat i).toNat]? =
      some (workerRow writeSchemaId (rosterOf d) (c, id)) := by
    rw [hindex, List.getElem?_map, hentry, Option.map_some]
  constructor
  · refine if_pos ?_
    rw [hrows.chunkCount_toDataset]
    exact (List.getElem?_eq_some_iff.mp hrow).1
  · refine hrows.base.copiedAt ?_ hfiled
    rw [List.getElem?_map, hrow, Option.map_some]
    rfl
  · apply Exec.index_eq_ok
    simp only [WorkerDatasetColumns.toDataset, hrows.sizes, List.getElem?_map, hrow,
      Option.map_some, workerRow]
  · refine ⟨_, @WorkerDatasetColumns.Encodes.url_toDataset _ _ _ _ _ .empty _ _ hrows hrow _
      (Or.inl ⟨rfl, rfl⟩), ?_⟩
    rw [hfiled.canonical]
    exact endsWith_joinSlash _ _

/-- Every chunk of a copied dataset is returned at its position. -/
theorem PortalCopy.chunk {readSchemaId : UInt32} {p : PortalAssignmentDataset}
    (hcopy : PortalCopy readSchemaId d p) (h : d.Convertible) (hcount : d.chunks.length < 2 ^ 32)
    (hc : d.chunks[i]? = some c) (hentry : d.parsed[i]? = some (c, id)) :
    PortalChunkCopy c id p (UInt32.ofNat i) := by
  obtain ⟨columns, last, -, hrows, rfl⟩ := hcopy
  have hindex := toNat_position hcount hc
  have hrow : (d.parsed.map portalRow)[(UInt32.ofNat i).toNat]? = some (portalRow (c, id)) := by
    rw [hindex, List.getElem?_map, hentry, Option.map_some]
  constructor
  · refine if_pos ?_
    rw [hrows.chunkCount_toDataset]
    exact (List.getElem?_eq_some_iff.mp hrow).1
  · refine hrows.base.copiedAt ?_ (h.filedAs (List.mem_of_getElem? hentry))
    rw [List.getElem?_map, hrow, Option.map_some]
    rfl
  · apply Exec.index_eq_ok
    simp only [PortalDatasetColumns.toDataset, hrows.timestamps, List.getElem?_map, hrow,
      Option.map_some, portalRow]

/-- A chunk passes exactly if its tables are resolved from the worker blob. -/
theorem verifyChunk_gives_iff {worker : WorkerAssignment} {w : WorkerAssignmentDataset}
    {p : PortalAssignmentDataset} (hw : WorkerChunkCopy c id w (UInt32.ofNat i))
    (hp : PortalChunkCopy c id p (UInt32.ofNat i)) {datasetId : String}
    (hfiled : c.FiledAs datasetId id) :
    (verifyChunk worker w p datasetId (c, i)).Gives () ↔
      worker.chunkTables ⟨w, UInt32.ofNat i⟩ = .ok (some (tablesOf c)) := by
  obtain ⟨url, hurl, hends⟩ := hw.url
  refine hfiled.idOf.bind_iff.trans ?_
  refine (Fallible.ensure_bind_iff (beq_iff_eq.mpr hfiled.datasetId)).trans ?_
  refine (Fallible.gives_context.mpr hw.chunk).bind_iff.trans ?_
  refine (Fallible.gives_lift.mpr hw.copied.rebuilt).bind_iff.trans ?_
  refine (Fallible.ensure_bind_iff (beq_self_eq_true _)).trans ?_
  refine (Fallible.gives_andM.mpr ⟨Fallible.equals_of_eq hw.copied.firstBlock,
    Fallible.equals_of_eq hw.copied.lastBlock⟩).bind_iff.trans ?_
  refine (Fallible.ensure_bind_iff rfl).trans ?_
  refine (Fallible.equals_of_eq hw.size).bind_iff.trans ?_
  refine (Fallible.ensure_bind_iff rfl).trans ?_
  refine (Fallible.gives_lift.mpr hurl).bind_iff.trans ?_
  refine (Fallible.ensure_bind_iff hends).trans ?_
  -- The tables are the one field that may differ; everything after them agrees again.
  rw [Fallible.gives_bind]
  constructor
  · rintro ⟨tables, htables, hrest⟩
    obtain ⟨resolved, hresolved, hrest⟩ := Fallible.gives_bind.mp hrest
    obtain ⟨⟨⟩, hsame, -⟩ := Fallible.gives_bind.mp hrest
    obtain rfl := Fallible.gives_context.mp hresolved
    obtain rfl := beq_iff_eq.mp (Fallible.gives_ensure.mp hsame)
    exact Fallible.gives_lift.mp htables
  · intro htables
    refine ⟨_, Fallible.gives_lift.mpr htables, ?_⟩
    refine (Fallible.gives_context.mpr rfl).bind_iff.mpr ?_
    refine (Fallible.ensure_bind_iff (beq_self_eq_true _)).mpr ?_
    refine (Fallible.gives_context.mpr hp.chunk).bind_iff.mpr ?_
    refine (Fallible.gives_lift.mpr hp.copied.rebuilt).bind_iff.mpr ?_
    refine (Fallible.ensure_bind_iff (beq_self_eq_true _)).mpr ?_
    refine (Fallible.gives_andM.mpr ⟨Fallible.equals_of_eq hp.copied.firstBlock,
      Fallible.equals_of_eq hp.copied.lastBlock⟩).bind_iff.mpr ?_
    refine (Fallible.ensure_bind_iff rfl).mpr ?_
    refine (Fallible.equals_of_eq hp.timestamp).bind_iff.mpr ?_
    refine (Fallible.ensure_bind_iff rfl).mpr ?_
    refine (Fallible.gives_andM.mpr ⟨Fallible.equals_of_eq hp.copied.version,
      Fallible.equals_of_eq hw.copied.version⟩).bind_iff.mpr ?_
    refine (Fallible.ensure_bind_iff rfl).mpr ?_
    refine (Fallible.gives_andM.mpr ⟨Fallible.equals_of_eq hp.copied.workers,
      Fallible.equals_of_eq hw.copied.workers⟩).bind_iff.mpr ?_
    exact Fallible.gives_ensure.mpr rfl

end Chunks

section Tables

variable {d : Dataset} {c : Chunk} {id : DataChunk} {i : Nat} {writeSchemaId : UInt32}

theorem length_stagedBitmap (writeSchemaId : UInt32) (roster : List String) (c : Chunk) :
    (stagedBitmap writeSchemaId roster c).length = bitmapSize roster c := by
  unfold stagedBitmap bitmapSize
  split
  · rw [encodeTables, length_selectTables, List.length_replicate]
  · rfl

/-- What a reader selects by the bitmap of a chunk are its tables. -/
theorem filter_stagedBitmap (writeSchemaId : UInt32) (hc : c ∈ d.chunks) :
    ((rosterOf d).zipIdx.filter fun entry => WorkerAssignment.tableSelected
      (if (stagedBitmap writeSchemaId (rosterOf d) c).isEmpty then none
        else some (stagedBitmap writeSchemaId (rosterOf d) c)) entry.2).map Prod.fst =
      tablesOf c := by
  by_cases hall : (tablesOf c).length = (rosterOf d).length
  · have hbits : stagedBitmap writeSchemaId (rosterOf d) c = [] := if_neg (not_not.mpr hall)
    rw [hbits, tablesOf_eq_rosterOf hc hall]
    exact filter_tableSelected_none _
  · have hbits : stagedBitmap writeSchemaId (rosterOf d) c =
        (encodeTables (rosterOf d) writeSchemaId (tablesOf c)).1 := if_pos hall
    rw [hbits]
    exact @filter_of_bitmap _ (rosterOf_sorted d) writeSchemaId (some (tablesOf c)) _
      (Prod.ext rfl (encodeTables_tablesOf (rosterOf_sorted d) writeSchemaId
        fun _ => mem_rosterOf hc))

/-- The bitmaps of a copied dataset take the bytes that are counted for it. -/
theorem length_flatten_bitmaps (h : d.Convertible) :
    ((d.parsed.map (workerRow writeSchemaId (rosterOf d))).map WorkerRow.bitmap).flatten.length =
      d.bitmapBytes := by
  rw [List.length_flatten, Dataset.bitmapBytes, List.map_map, List.map_map,
    ← h.map_parsed, List.map_map]
  exact congrArg List.sum (List.map_congr_left fun entry _ => length_stagedBitmap _ _ _)

/-- The row of a chunk at the position that the reader takes. -/
theorem getElem?_workerRows (hcount : d.chunks.length < 2 ^ 32) (hc : d.chunks[i]? = some c)
    (hentry : d.parsed[i]? = some (c, id)) :
    (d.parsed.map (workerRow writeSchemaId (rosterOf d)))[(UInt32.ofNat i).toNat]? =
      some (workerRow writeSchemaId (rosterOf d) (c, id)) := by
  rw [toNat_position hcount hc, List.getElem?_map, hentry, Option.map_some]

variable {worker : WorkerAssignment} {columns : WorkerDatasetColumns} {baseUrl : String}
  (hschema : worker.getWriteSchema writeSchemaId = .ok (some ⟨writeSchemaId, rosterOf d⟩))
  (h : d.Convertible) (hcount : d.chunks.length < 2 ^ 32)
  (hrows : columns.Encodes (d.parsed.map (workerRow writeSchemaId (rosterOf d))))

include hschema hcount hrows

/-- The tables of a chunk, once its bitmap is read. -/
theorem chunkTables_of_tablesPresent (hc : d.chunks[i]? = some c)
    (hentry : d.parsed[i]? = some (c, id)) {bits : Option (List UInt8)}
    (hbits : WorkerChunk.tablesPresent
      ⟨columns.toDataset d.id d.lastBlock baseUrl none, UInt32.ofNat i⟩ = .ok bits) :
    worker.chunkTables ⟨columns.toDataset d.id d.lastBlock baseUrl none, UInt32.ofNat i⟩ =
      .ok (some (((rosterOf d).zipIdx.filter fun entry =>
        WorkerAssignment.tableSelected bits entry.2).map Prod.fst)) := by
  have hrow := @getElem?_workerRows _ _ _ _ writeSchemaId hcount hc hentry
  rw [WorkerAssignment.chunkTables, hrows.writeSchemaId_toDataset hrow, Exec.ok_bind]
  change (worker.getWriteSchema writeSchemaId >>= _) = _
  rw [hschema, Exec.ok_bind]
  dsimp only
  rw [hbits, Exec.ok_bind]

include h

/-- Bitmaps that fit are read back, and with them the tables. -/
theorem chunkTables_of_fits (hfits : d.bitmapBytes < 2 ^ 32) (hc : d.chunks[i]? = some c)
    (hentry : d.parsed[i]? = some (c, id)) :
    worker.chunkTables ⟨columns.toDataset d.id d.lastBlock baseUrl none, UInt32.ofNat i⟩ =
      .ok (some (tablesOf c)) := by
  have hrow := @getElem?_workerRows _ _ _ _ writeSchemaId hcount hc hentry
  have hlength : columns.tablesPresent.length < 2 ^ 32 := by
    rw [hrows.tablesPresent, length_flatten_bitmaps h]
    exact hfits
  rw [chunkTables_of_tablesPresent hschema hcount hrows hc hentry
    (hrows.tablesPresent_toDataset hlength hrow)]
  exact congrArg (fun tables => Except.ok (some tables))
    (filter_stagedBitmap writeSchemaId (List.mem_of_getElem? hc))

/-- Where bitmaps do not fit, there is a chunk whose tables are not its own: its bitmap is not
found, and it counts as one that has every table. -/
theorem exists_chunkTables_ne (hover : 2 ^ 32 ≤ d.bitmapBytes)
    (hroster : (rosterOf d).length < 2 ^ 32) : ∃ i c, d.chunks[i]? = some c ∧
      worker.chunkTables ⟨columns.toDataset d.id d.lastBlock baseUrl none, UInt32.ofNat i⟩ ≠
        .ok (some (tablesOf c)) := by
  rw [← @length_flatten_bitmaps _ writeSchemaId h] at hover
  obtain ⟨i, bits, hbits, hbefore, hafter⟩ := exists_crossing (Nat.two_pow_pos 32) hover
  rw [List.getElem?_map, List.getElem?_map, Option.map_map] at hbits
  obtain ⟨⟨c, id⟩, hentry, rfl⟩ := Option.map_eq_some_iff.mp hbits
  have hc : d.chunks[i]? = some c := by
    rw [← h.map_parsed, List.getElem?_map, hentry, Option.map_some]
  have hindex := toNat_position hcount hc
  have hrow := @getElem?_workerRows _ _ _ _ writeSchemaId hcount hc hentry
  have hlength : (workerRow writeSchemaId (rosterOf d) (c, id)).bitmap.length =
      bitmapSize (rosterOf d) c := length_stagedBitmap _ _ _
  have hsize : bitmapSize (rosterOf d) c < 2 ^ 32 := by
    unfold bitmapSize
    split
    · omega
    · exact Nat.two_pow_pos 32
  have hnone := @WorkerDatasetColumns.Encodes.tablesPresent_crossing _ _ _ _ hrows hrow
    (hlength ▸ hsize) (by rwa [hindex]) (by rwa [hindex]) d.id baseUrl d.lastBlock none
  refine ⟨i, c, hc, fun htables => ?_⟩
  rw [chunkTables_of_tablesPresent hschema hcount hrows hc hentry hnone,
    filter_tableSelected_none, Except.ok.injEq, Option.some.injEq] at htables
  -- A chunk with every table of the roster has no bitmap to cross with.
  have hzero : bitmapSize (rosterOf d) c = 0 := if_neg (not_not.mpr (htables ▸ rfl))
  change 2 ^ 32 ≤ _ + (workerRow writeSchemaId (rosterOf d) (c, id)).bitmap.length at hafter
  omega

end Tables

section Datasets

variable {profile : Profile} {worker : WorkerAssignment} {portal : PortalAssignment} {d : Dataset}
  {index : Nat} {schema : UInt32} {w : WorkerAssignmentDataset} {p : PortalAssignmentDataset}

/-- The chunks of a dataset all pass exactly if its bitmaps fit their offsets. -/
theorem verifyChunks_give_iff
    (hschema : worker.getWriteSchema schema = .ok (some ⟨schema, rosterOf d⟩))
    (h : d.Convertible) (hcount : d.chunks.length < 2 ^ 32)
    (hroster : (rosterOf d).length < 2 ^ 32) (hw : WorkerCopy schema d w)
    (hp : PortalCopy schema d p) :
    (d.chunks.zipIdx.forM (verifyChunk worker w p d.id)).Gives () ↔ d.bitmapBytes < 2 ^ 32 := by
  have hpasses : ∀ i c, d.chunks[i]? = some c →
      ((verifyChunk worker w p d.id (c, i)).Gives () ↔
        worker.chunkTables ⟨w, UInt32.ofNat i⟩ = .ok (some (tablesOf c))) := by
    intro i c hc
    obtain ⟨id, hentry, hfiled⟩ := h.getElem?_parsed hc
    exact verifyChunk_gives_iff (hw.chunk h hcount hc hentry) (hp.chunk h hcount hc hentry) hfiled
  obtain ⟨columns, first, -, hrows, rfl⟩ := hw
  rw [Fallible.gives_forM]
  constructor
  · intro hall
    by_contra hover
    obtain ⟨i, c, hc, hne⟩ := @exists_chunkTables_ne _ _ _ _ first.datasetBaseUrl hschema h hcount
      hrows (Nat.not_lt.mp hover) hroster
    exact hne ((hpasses i c hc).mp (hall (c, i) (List.mem_zipIdx_iff_getElem?.mpr hc)))
  · rintro hfits ⟨c, i⟩ hmem
    have hc := List.mem_zipIdx_iff_getElem?.mp hmem
    obtain ⟨id, hentry, -⟩ := h.getElem?_parsed hc
    exact (hpasses i c hc).mpr (chunkTables_of_fits hschema h hcount hrows hfits hc hentry)

/-- A dataset passes exactly if its bitmaps fit their offsets. -/
theorem verifyDataset_gives_iff
    (hschema : worker.getWriteSchema schema = .ok (some ⟨schema, rosterOf d⟩))
    (h : d.Convertible) (hcount : d.chunks.length < 2 ^ 32)
    (hroster : (rosterOf d).length < 2 ^ 32) (hwat : worker.datasets[index]? = some w)
    (hpat : portal.datasets[index]? = some p) (hw : WorkerCopy schema d w)
    (hp : PortalCopy schema d p) :
    (verifyDataset profile worker portal (d, index)).Gives () ↔ d.bitmapBytes < 2 ^ 32 := by
  have hchunks := verifyChunks_give_iff hschema h hcount hroster hw hp
  obtain ⟨columns, first, hfirst, hrows, rfl⟩ := hw
  obtain ⟨columns', last, hlast, hrows', rfl⟩ := hp
  have hhash : d.lastBlockHash profile = .ok last.lastBlockHash := by
    rw [Dataset.lastBlockHash, hlast]
  refine (Fallible.gives_lift.mpr (Exec.index_eq_ok hwat)).bind_iff.trans ?_
  refine (Fallible.gives_lift.mpr (Exec.index_eq_ok hpat)).bind_iff.trans ?_
  refine (Fallible.ensure_bind_iff ?_).trans ?_
  · simp [WorkerDatasetColumns.toDataset, PortalDatasetColumns.toDataset]
  refine (Fallible.ensure_bind_iff ?_).trans ?_
  · simp [WorkerDatasetColumns.toDataset, PortalDatasetColumns.toDataset]
  refine (Fallible.gives_lift.mpr hhash).bind_iff.trans ?_
  refine (Fallible.ensure_bind_iff (beq_self_eq_true _)).trans ?_
  refine (Fallible.ensure_bind_iff (beq_iff_eq.mpr ?_)).trans ?_
  · rw [hrows.chunkCount_toDataset, List.length_map, h.length_parsed]
  refine (Fallible.ensure_bind_iff (beq_iff_eq.mpr ?_)).trans ?_
  · rw [hrows'.chunkCount_toDataset, List.length_map, h.length_parsed]
  refine (Fallible.gives_lift.mpr (Exec.index_eq_ok hfirst)).bind_iff.trans ?_
  refine (Fallible.ensure_bind_iff (beq_self_eq_true _)).trans ?_
  exact hchunks

end Datasets

section Blobs

variable {P : Type} [LT P] [DecidableEq P] {profile : Profile}
  {fromBytes : List UInt8 → Option P} {legacy : Assignment} {worker : WorkerAssignment}
  {portal : PortalAssignment} (h : legacy.Convertible fromBytes)
  (hworker : WorkerBlob legacy worker.reader) (hportal : PortalBlob legacy portal.reader)

include h hworker hportal

/-- Every worker passes. -/
theorem verifyWorker_gives {i : Nat} (hi : i < legacy.workers.length) :
    (verifyWorker fromBytes legacy worker portal i).Gives () := by
  obtain ⟨ids, -, hids⟩ := h.ascending
  obtain ⟨entry, peer, hentry, -, hparse, hat⟩ := worker_at hids h.workerCount hi
  obtain ⟨headers, hheaders⟩ := h.headers entry (List.mem_of_getElem? hentry)
  have hindex := toNat_workerIndex h.workerCount hi
  have hw : worker.workers[i]? = some (copiedEntry entry) := by
    rw [WorkerAssignment.workers, hworker.workers, List.getElem?_map, hentry, Option.map_some]
  have hp : portal.workers[i]? = some (copiedPortalEntry entry) := by
    rw [PortalAssignment.workers, hportal.workers, List.getElem?_map, hentry, Option.map_some]
  have hwat : worker.getWorkerByIndex (UInt16.ofNat i) =
      .ok ⟨worker.reader, copiedEntry entry, UInt16.ofNat i⟩ := by
    rw [WorkerAssignment.getWorkerByIndex, hindex, Exec.index_eq_ok hw, Exec.ok_bind]
  have hpat : portal.getWorkerByIndex (UInt16.ofNat i) = .ok ⟨copiedPortalEntry entry⟩ := by
    rw [PortalAssignment.getWorkerByIndex, hindex, Exec.index_eq_ok hp, Exec.ok_bind]
  refine (Fallible.gives_lift.mpr hat).bind_iff.mpr ?_
  refine (Fallible.gives_context.mpr hparse).bind_iff.mpr ?_
  refine (Fallible.gives_lift.mpr hwat).bind_iff.mpr ?_
  refine (Fallible.gives_lift.mpr hpat).bind_iff.mpr ?_
  refine (Fallible.gives_andM.mpr ⟨Fallible.gives_equals.mpr (Fallible.gives_context.mpr hparse),
    Fallible.gives_equals.mpr (Fallible.gives_context.mpr hparse)⟩).bind_iff.mpr ?_
  refine (Fallible.ensure_bind_iff rfl).mpr ?_
  refine (Fallible.ensure_bind_iff ?_).mpr ?_
  · simp [AssignedWorker.status, PortalWorker.status, LegacyWorker.status, copiedEntry,
      copiedPortalEntry]
  refine (Fallible.gives_lift.mpr (Exec.index_eq_ok hentry)).bind_iff.mpr ?_
  refine (Fallible.gives_context.mpr hheaders).bind_iff.mpr ?_
  refine (Fallible.gives_lift.mpr (Exec.index_eq_ok hw)).bind_iff.mpr ?_
  refine (Fallible.gives_context.mpr hheaders).bind_iff.mpr ?_
  exact Fallible.gives_ensure.mpr (by simp)

omit [DecidableEq P] in
/-- A dataset passes exactly if its bitmaps fit their offsets. -/
theorem verifyDataset_at (hstored : legacy.Stored) {i : Nat} {d : Dataset}
    (hd : legacy.datasets[i]? = some d) :
    (verifyDataset profile worker portal (d, i)).Gives () ↔ d.bitmapBytes < 2 ^ 32 := by
  have hmem := List.mem_of_getElem? hd
  obtain ⟨w, hwat, hw⟩ := hworker.datasets.copied i d hd
  obtain ⟨p, hpat, hp⟩ := hportal.datasets.copied i d hd
  obtain ⟨schemas, hschemas, hrosters⟩ := hworker.schemas
  have hschema : worker.getWriteSchema (ordinal i) = .ok (some ⟨ordinal i, rosterOf d⟩) := by
    rw [WorkerAssignment.getWriteSchema, hschemas]
    refine (lookupByKey_entries schemas TableRoster.writeSchemaId
      (fun entry => ⟨entry.1, entry.2⟩) (fun _ => rfl) (ordinal i)).trans ?_
    rw [hrosters i d hd, Option.map_some]
  exact verifyDataset_gives_iff hschema (h.datasets d hmem) (hstored.chunks d hmem)
    (hstored.tables d hmem) hwat hpat hw hp

/-- A conversion is verified exactly if the bitmaps of every dataset fit their offsets. -/
theorem verify_gives_iff (hstored : legacy.Stored) :
    (verify profile fromBytes legacy worker portal).Gives () ↔
      ∀ d ∈ legacy.datasets, d.bitmapBytes < 2 ^ 32 := by
  have hcounts : worker.workers.length = legacy.workers.length ∧
      portal.workers.length = legacy.workers.length := by
    rw [WorkerAssignment.workers, PortalAssignment.workers, hworker.workers, hportal.workers,
      List.length_map, List.length_map]
    exact ⟨rfl, rfl⟩
  have hworkers : ((List.range legacy.workers.length).forM
      (verifyWorker fromBytes legacy worker portal)).Gives () := by
    refine Fallible.gives_forM.mpr fun i hi => ?_
    exact verifyWorker_gives h hworker hportal (List.mem_range.mp hi)
  have hdatasets : (legacy.datasets.zipIdx.forM (verifyDataset profile worker portal)).Gives () ↔
      ∀ d ∈ legacy.datasets, d.bitmapBytes < 2 ^ 32 := by
    rw [Fallible.gives_forM]
    constructor
    · intro hall d hmem
      obtain ⟨i, hd⟩ := List.mem_iff_getElem?.mp hmem
      exact (verifyDataset_at h hworker hportal hstored hd).mp
        (hall (d, i) (List.mem_zipIdx_iff_getElem?.mpr hd))
    · rintro hall ⟨d, i⟩ hmem
      have hd := List.mem_zipIdx_iff_getElem?.mp hmem
      exact (verifyDataset_at h hworker hportal hstored hd).mpr
        (hall d (List.mem_of_getElem? hd))
  rw [← hdatasets]
  refine (Fallible.ensure_bind_iff ?_).trans ?_
  · simp [WorkerAssignment.datasets, PortalAssignment.datasets, hworker.datasets.length,
      hportal.datasets.length]
  rw [Fallible.gives_bind]
  constructor
  · rintro ⟨⟨⟩, hpass, -⟩
    exact hpass
  · intro hpass
    refine ⟨(), hpass, (Fallible.ensure_bind_iff ?_).mpr hworkers⟩
    simp [hcounts.1, hcounts.2]

end Blobs

end SqdNetwork.Assignments
