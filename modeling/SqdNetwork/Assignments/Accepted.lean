import SqdNetwork.Assignments.ChunkColumns
import SqdNetwork.Assignments.Lookup

/-!
# Reading any accepted buffer

The two acceptance checks compare a few lengths and look at the first top run.
This suffices for every chunk-level read to return: offsets may descend, runs may
be out of order and optional columns may be missing, but no subscript leaves its
column and no `expect` fails.
-/

namespace SqdNetwork.Assignments

open SqdNetwork.Core

namespace ColumnVectors

variable {v : ColumnVectors} {index : UInt32}

theorem firstBlock_returns (hi : index.toNat < v.chunkCount) : (v.firstBlock index).Returns :=
  Exec.index_returns hi

theorem lastBlock_returns (h : v.Aligned) (hi : index.toNat < v.chunkCount) :
    (v.lastBlock index).Returns := by
  refine (firstBlock_returns hi).bind fun first _ => ?_
  exact (Exec.index_returns (h.blockDeltas ▸ hi)).bind fun delta _ => Exec.returns_ok _

theorem version_returns (h : v.Aligned) (hi : index.toNat < v.chunkCount) :
    (v.version index).Returns := by
  unfold version
  split
  · exact Exec.returns_ok 0
  · next column hcolumn => exact Exec.index_returns (h.versions column hcolumn ▸ hi)

/-- The first run starts at chunk 0, so bisecting on the starts never lands before it, in
whatever order the other runs stand. -/
theorem topAt_returns_some (h : v.Aligned) (index : UInt32) :
    ∃ top, v.topAt index = .ok (some top) := by
  obtain ⟨first, hfirst, hzero⟩ := Option.map_eq_some_iff.mp h.tops
  have hpos : 0 < v.tops.length := by
    cases htops : v.tops with
    | nil => simp [htops] at hfirst
    | cons run rest => simp
  have hprobe : ∀ i, i < v.tops.length → (Exec.index v.tops i >>= fun run =>
      (.ok (decide (run.firstChunkIndex ≤ index)) : Exec Bool)).Returns :=
    fun i hi => (Exec.index_returns hi).bind fun run _ => Exec.returns_ok _
  obtain ⟨k, hk, hle, hstart⟩ := partitionPoint_returns hprobe
  have hread : Exec.index v.tops 0 = .ok first :=
    Exec.index_eq_ok (by rwa [List.head?_eq_getElem?] at hfirst)
  have hk0 : 0 < k := by
    refine hstart hpos ?_
    rw [hread, Exec.ok_bind, hzero]
    exact congrArg Except.ok (decide_eq_true (UInt32.zero_le))
  obtain ⟨above, rfl⟩ : ∃ above, k = above + 1 := ⟨k - 1, by omega⟩
  refine ⟨(v.tops.get ⟨above, by omega⟩).top, ?_⟩
  rw [topAt, hk, Exec.ok_bind]
  simp only [Exec.index_of_lt (show above < v.tops.length by omega), Exec.ok_bind]
  rfl

theorem top_returns (h : v.Aligned) : (v.top index).Returns := by
  obtain ⟨top, htop⟩ := topAt_returns_some h index
  exact ⟨top, by rw [ColumnVectors.top, htop]; rfl⟩

theorem hash_returns (h : v.Aligned) (hi : index.toNat < v.chunkCount) :
    (v.hash index).Returns :=
  (Exec.index_returns (h.hashes ▸ hi)).bind fun _ _ => Exec.returns_ok _

theorem pushChunkId_returns (out : String) (top first last : UInt64) (hash : String) :
    (pushChunkId out top first last hash).Returns :=
  ⟨_, pushChunkId_eq_displayFormat out top first last hash⟩

theorem id_returns (h : v.Aligned) (hi : index.toNat < v.chunkCount) : (v.id index).Returns := by
  refine (top_returns h).bind fun top _ => ?_
  refine (firstBlock_returns hi).bind fun first _ => ?_
  refine (lastBlock_returns h hi).bind fun last _ => ?_
  refine (hash_returns h hi).bind fun hash _ => ?_
  cases hash with
  | none => exact Exec.returns_ok none
  | some hash => exact (pushChunkId_returns "" top first last hash).map some

theorem workersOf_returns (h : v.Aligned) (hi : index.toNat < v.chunkCount) :
    (v.workersOf index).Returns := by
  have hoffsets := h.workerOffsets
  refine (Exec.index_returns (by omega)).bind fun start _ => ?_
  refine (Exec.index_returns (by omega)).bind fun stop _ => ?_
  exact ⟨_, readRange_eq_ok _ (Nat.min_le_right _ _)⟩

end ColumnVectors

/-- Every accessor of a worker chunk returns. -/
structure WorkerChunk.Readable (c : WorkerChunk) : Prop where
  firstBlock : c.firstBlock.Returns
  lastBlock : c.lastBlock.Returns
  size : c.size.Returns
  version : c.version.Returns
  writeSchemaId : c.writeSchemaId.Returns
  top : c.top.Returns
  hash : c.hash.Returns
  id : c.id.Returns
  tablesPresent : c.tablesPresent.Returns
  url : c.url.Returns
  workerIndexes : c.workerIndexes.Returns

/-- Every accessor of a portal chunk returns. -/
structure PortalChunk.Readable (c : PortalChunk) : Prop where
  firstBlock : c.firstBlock.Returns
  lastBlock : c.lastBlock.Returns
  lastBlockTimestamp : c.lastBlockTimestamp.Returns
  version : c.version.Returns
  top : c.top.Returns
  hash : c.hash.Returns
  id : c.id.Returns
  workerIndexes : c.workerIndexes.Returns

namespace WorkerChunk

variable {d : WorkerAssignmentDataset} {index : UInt32}

theorem tablesPresent_returns (hcheck : d.check = .ok ()) (hi : index.toNat < d.chunkCount) :
    (WorkerChunk.tablesPresent ⟨d, index⟩).Returns := by
  obtain ⟨-, -, -, htables⟩ := WorkerAssignmentDataset.check_eq_ok.mp hcheck
  unfold tablesPresent
  dsimp only
  split
  · exact Exec.returns_ok none
  · next offsets hoffsets =>
    have hlen := htables offsets hoffsets
    refine (Exec.index_returns (by omega)).bind fun start _ => ?_
    refine (Exec.index_returns (by omega)).bind fun stop _ => ?_
    split
    · exact Exec.returns_ok none
    · split <;> exact Exec.returns_ok _

theorem url_returns (hcheck : d.check = .ok ()) (hi : index.toNat < d.chunkCount) :
    (WorkerChunk.url ⟨d, index⟩).Returns := by
  obtain ⟨h, -, -, -⟩ := WorkerAssignmentDataset.check_eq_ok.mp hcheck
  refine (ColumnVectors.hash_returns h hi).bind fun hash _ => ?_
  cases hash with
  | none => exact Exec.returns_ok none
  | some hash =>
    refine (ColumnVectors.version_returns h hi).bind fun version _ => ?_
    refine Exec.Returns.bind ?_ fun base _ => ?_
    · split
      · unfold WorkerAssignmentDataset.getGeneration
        dsimp only
        split
        · exact Exec.returns_ok none
        · next generations _ =>
          obtain ⟨r, hr, -⟩ := lookupByKey_spec generations fun g => compare g.version version
          refine Exec.Returns.bind ⟨r, hr⟩ fun found _ => ?_
          cases found <;> exact Exec.returns_ok _
      · exact Exec.returns_ok _
    · cases base with
      | none => exact Exec.returns_ok none
      | some url =>
        refine (ColumnVectors.top_returns h).bind fun top _ => ?_
        refine (ColumnVectors.firstBlock_returns hi).bind fun first _ => ?_
        refine (ColumnVectors.lastBlock_returns h hi).bind fun last _ => ?_
        exact (ColumnVectors.pushChunkId_returns _ top first last hash).map some

/-- A chunk of a checked dataset is readable throughout. -/
theorem readable (hcheck : d.check = .ok ()) (hi : index.toNat < d.chunkCount) :
    WorkerChunk.Readable ⟨d, index⟩ := by
  obtain ⟨h, hsizes, hschemas, -⟩ := WorkerAssignmentDataset.check_eq_ok.mp hcheck
  exact
    { firstBlock := ColumnVectors.firstBlock_returns hi
      lastBlock := ColumnVectors.lastBlock_returns h hi
      size := Exec.index_returns (hsizes ▸ hi)
      version := ColumnVectors.version_returns h hi
      writeSchemaId := Exec.index_returns (hschemas ▸ hi)
      top := ColumnVectors.top_returns h
      hash := ColumnVectors.hash_returns h hi
      id := ColumnVectors.id_returns h hi
      tablesPresent := tablesPresent_returns hcheck hi
      url := url_returns hcheck hi
      workerIndexes := ColumnVectors.workersOf_returns h hi }

end WorkerChunk

/-- A chunk of a checked dataset is readable throughout. -/
theorem PortalChunk.readable {d : PortalAssignmentDataset} {index : UInt32}
    (hcheck : d.check = .ok ()) (hi : index.toNat < d.chunkCount) :
    PortalChunk.Readable ⟨d, index⟩ := by
  obtain ⟨h, htimes⟩ := PortalAssignmentDataset.check_eq_ok.mp hcheck
  exact
    { firstBlock := ColumnVectors.firstBlock_returns hi
      lastBlock := ColumnVectors.lastBlock_returns h hi
      lastBlockTimestamp := Exec.index_returns (htimes ▸ hi)
      version := ColumnVectors.version_returns h hi
      top := ColumnVectors.top_returns h
      hash := ColumnVectors.hash_returns h hi
      id := ColumnVectors.id_returns h hi
      workerIndexes := ColumnVectors.workersOf_returns h hi }

namespace WorkerAssignment

variable {a : WorkerAssignment} {d : WorkerAssignmentDataset}

theorem chunkTables_returns {index : UInt32} (hcheck : d.check = .ok ())
    (hi : index.toNat < d.chunkCount) : (a.chunkTables ⟨d, index⟩).Returns := by
  refine (WorkerChunk.readable hcheck hi).writeSchemaId.bind fun writeSchemaId _ => ?_
  obtain ⟨r, hr, -⟩ :=
    lookupByKey_spec a.reader.schemas fun roster => compare roster.writeSchemaId writeSchemaId
  refine Exec.Returns.bind ⟨r, hr⟩ fun found _ => ?_
  cases found with
  | none => exact Exec.returns_ok none
  | some roster =>
    exact (WorkerChunk.tablesPresent_returns hcheck hi).bind fun bits _ => Exec.returns_ok _

end WorkerAssignment

namespace AssignedWorker

variable {w : AssignedWorker} {d : WorkerAssignmentDataset}

/-- The scan of a checked dataset stays inside both routing columns. -/
theorem holdings_returns (hcheck : d.check = .ok ()) : (w.holdings d).Returns := by
  have hoffsets := (WorkerAssignmentDataset.check_eq_ok.mp hcheck).1.workerOffsets
  have hscan : ∀ chunk ∈ List.range d.chunkCount, (w.holds d chunk).Returns := by
    intro chunk hchunk
    have hlt := List.mem_range.mp hchunk
    refine (Exec.index_returns (by omega)).bind fun start _ => ?_
    refine (Exec.index_returns (by omega)).bind fun stop _ => ?_
    refine Exec.returns_anyM _ fun slot hslot => ?_
    obtain ⟨hlow, hhigh⟩ := List.mem_range'_1.mp hslot
    exact (Exec.index_returns (by omega)).bind fun index _ => Exec.returns_ok _
  exact (Exec.returns_filterM _ hscan).bind fun held _ => Exec.returns_ok _

variable (h : ∀ d ∈ w.assignment.datasets, d.check = .ok ())

include h

theorem iterChunksWithDataset_returns : w.iterChunksWithDataset.Returns := by
  have hscan : ∀ d ∈ w.assignment.datasets, (w.holdings d >>= fun held =>
      (.ok (held.map fun chunk => (d, chunk)) :
        Exec (List (WorkerAssignmentDataset × WorkerChunk)))).Returns :=
    fun d hd => (holdings_returns (h d hd)).bind fun held _ => Exec.returns_ok _
  exact (Exec.returns_mapM _ hscan).bind fun held _ => Exec.returns_ok _

theorem iterChunks_returns : w.iterChunks.Returns :=
  (iterChunksWithDataset_returns h).map _

theorem iterChunksWithRef_returns : w.iterChunksWithRef.Returns := by
  refine Exec.Returns.bind (Exec.returns_mapM _ fun entry hentry => ?_) fun held _ =>
    Exec.returns_ok _
  have hmem := (List.mem_zipIdx' hentry).2
  have hd : entry.1 ∈ w.assignment.datasets := hmem ▸ List.getElem_mem _
  exact (holdings_returns (h entry.1 hd)).bind fun held _ => Exec.returns_ok _

end AssignedWorker

namespace PortalAssignment

variable {a : PortalAssignment}

/-- A row number below the count names a chunk, also when it is truncated to 32 bits. -/
theorem chunk_ofNat {d : PortalAssignmentDataset} {i : Nat} (hi : i < d.chunkCount) :
    d.chunk (UInt32.ofNat i) = some ⟨d, UInt32.ofNat i⟩ ∧
      (UInt32.ofNat i).toNat < d.chunkCount := by
  have hlt : (UInt32.ofNat i).toNat < d.chunkCount := by
    rw [UInt32.toNat_ofNat']
    exact Nat.lt_of_le_of_lt (Nat.mod_le _ _) hi
  exact ⟨if_pos hlt, hlt⟩

variable (h : ∀ d ∈ a.datasets, d.check = .ok ())

include h

theorem findChunk_returns (dataset : String) (block : UInt64) :
    (a.findChunk dataset block).Returns := by
  obtain ⟨r, hr, hmem⟩ := lookupByKey_spec a.datasets fun d => compare d.id dataset
  rw [findChunk, getDataset, hr, Exec.ok_bind]
  cases r with
  | none => exact Exec.returns_ok _
  | some d =>
    have hcheck := h d (hmem d rfl).1
    dsimp only
    split
    · exact Exec.returns_ok _
    · have hprobe : ∀ i, i < d.firstBlocks.length → (Exec.index d.firstBlocks i >>= fun first =>
          (.ok (decide (first ≤ block)) : Exec Bool)).Returns :=
        fun i hi => (Exec.index_returns hi).bind fun first _ => Exec.returns_ok _
      obtain ⟨k, hk, hle, -⟩ := partitionPoint_returns hprobe
      rw [hk, Exec.ok_bind]
      cases k with
      | zero => exact Exec.returns_ok _
      | succ index =>
        obtain ⟨hchunk, hlt⟩ := chunk_ofNat (d := d) (Nat.lt_of_succ_le hle)
        simp only [hchunk, Exec.expect_some, Exec.ok_bind]
        refine (PortalChunk.readable hcheck hlt).lastBlock.bind fun last _ => ?_
        split <;> exact Exec.returns_ok _

theorem findChunkByTimestamp_returns (dataset : String) (ts : UInt64) :
    (a.findChunkByTimestamp dataset ts).Returns := by
  obtain ⟨r, hr, hmem⟩ := lookupByKey_spec a.datasets fun d => compare d.id dataset
  rw [findChunkByTimestamp, getDataset, hr, Exec.ok_bind]
  cases r with
  | none => exact Exec.returns_ok _
  | some d =>
    obtain ⟨-, htimes⟩ := PortalAssignmentDataset.check_eq_ok.mp (h d (hmem d rfl).1)
    have hprobe : ∀ i, i < d.chunkCount → (Exec.index d.timestamps i >>= fun timestamp =>
        (.ok (decide (timestamp < ts)) : Exec Bool)).Returns :=
      fun i hi => (Exec.index_returns (htimes ▸ hi)).bind fun timestamp _ => Exec.returns_ok _
    obtain ⟨k, hk, hle, -⟩ := partitionPoint_returns hprobe
    dsimp only
    rw [hk, Exec.ok_bind]
    split
    · exact Exec.returns_ok _
    · next hne =>
      have hlt : k < d.chunkCount := by omega
      simp only [(chunk_ofNat hlt).1, Exec.expect_some, Exec.ok_bind, Exec.returns_ok]

end PortalAssignment

/-- Every chunk-level read of an accepted buffer returns: the chunk accessors and the tables of
any chunk below the count, the chunk iterators of any worker, and both portal searches. -/
theorem accepted_chunk_reads_return (fbw : FlatBuffers WorkerAssignmentRoot)
    (fbp : FlatBuffers PortalAssignmentRoot) :
    (∀ (buf : fbw.Buf) (a : WorkerAssignment), WorkerAssignment.fromOwned fbw buf = .ok a →
      (∀ d ∈ a.datasets, ∀ index : UInt32, index.toNat < d.chunkCount →
        WorkerChunk.Readable ⟨d, index⟩ ∧ (a.chunkTables ⟨d, index⟩).Returns) ∧
      ∀ w : AssignedWorker, w.assignment = a.reader →
        w.iterChunks.Returns ∧ w.iterChunksWithDataset.Returns ∧ w.iterChunksWithRef.Returns) ∧
    (∀ (buf : fbp.Buf) (a : PortalAssignment), PortalAssignment.fromOwned fbp buf = .ok a →
      (∀ d ∈ a.datasets, ∀ index : UInt32, index.toNat < d.chunkCount →
        PortalChunk.Readable ⟨d, index⟩) ∧
      ∀ (dataset : String) (x : UInt64),
        (a.findChunk dataset x).Returns ∧ (a.findChunkByTimestamp dataset x).Returns) := by
  constructor
  · intro buf a haccept
    have h := (WorkerAssignment.fromOwned_eq_ok.mp haccept).2
    refine ⟨fun d hd index hi => ⟨WorkerChunk.readable (h d hd) hi,
      WorkerAssignment.chunkTables_returns (h d hd) hi⟩, fun w hw => ?_⟩
    have hw : ∀ d ∈ w.assignment.datasets, d.check = .ok () := hw ▸ h
    exact ⟨AssignedWorker.iterChunks_returns hw, AssignedWorker.iterChunksWithDataset_returns hw,
      AssignedWorker.iterChunksWithRef_returns hw⟩
  · intro buf a haccept
    have h := (PortalAssignment.fromOwned_eq_ok.mp haccept).2
    exact ⟨fun d hd index hi => PortalChunk.readable (h d hd) hi, fun dataset x =>
      ⟨PortalAssignment.findChunk_returns h dataset x,
        PortalAssignment.findChunkByTimestamp_returns h dataset x⟩⟩

/-- Columns the checks let through although offsets descend, top runs are out of order and the
hashes are not text. -/
def sampleMalformedColumns : ColumnVectors where
  firstBlocks := [50, 10]
  blockDeltas := [4, 4294967295]
  hashes := List.replicate 2 ⟨List.replicate 8 255, rfl⟩
  tops := [⟨0, 7⟩, ⟨9, 8⟩, ⟨1, 9⟩]
  versions := some [3, 0]
  workerOffsets := [7, 2, 900]
  workerIndexes := [4, 4, 4]

/-- A worker dataset over those columns. -/
def sampleMalformedWorker : WorkerAssignmentRoot where
  datasets := [{ sampleMalformedColumns with
    id := "z"
    lastBlock := 0
    baseUrl := ""
    generations := some []
    sizes := [1, 1]
    writeSchemaIds := [2, 2]
    tablesPresentOffsets := some [9, 3, 1]
    tablesPresent := none }]
  workers := []
  schemas := [⟨2, ["logs"]⟩]

/-- A portal dataset over those columns. -/
def sampleMalformedPortal : PortalAssignmentRoot where
  datasets := [{ sampleMalformedColumns with
    id := "z"
    lastBlock := 0
    lastBlockHash := none
    readSchemaId := 0
    timestamps := [5, 0] }]
  workers := []

theorem accepted_chunk_reads_return_malformed :
    (∃ a, WorkerAssignment.fromOwned (.plain _) sampleMalformedWorker = .ok a ∧
      ∀ d ∈ a.datasets, ∀ index : UInt32, index.toNat < d.chunkCount →
        WorkerChunk.Readable ⟨d, index⟩ ∧ (a.chunkTables ⟨d, index⟩).Returns) ∧
    (∃ a, PortalAssignment.fromOwned (.plain _) sampleMalformedPortal = .ok a ∧
      (a.findChunk "z" 60).Returns) := by
  have h := accepted_chunk_reads_return (.plain _) (.plain _)
  exact ⟨⟨⟨sampleMalformedWorker⟩, rfl, (h.1 sampleMalformedWorker _ rfl).1⟩,
    ⟨⟨sampleMalformedPortal⟩, rfl, ((h.2 sampleMalformedPortal _ rfl).2 "z" 60).1⟩⟩

end SqdNetwork.Assignments
