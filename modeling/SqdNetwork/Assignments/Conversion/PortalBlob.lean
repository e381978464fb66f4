import SqdNetwork.Assignments.PortalRoundTrip
import SqdNetwork.Assignments.Conversion.Build

/-!
# The portal blob of a conversion

The portal counterpart of the worker blob. A portal dataset has no rosters and
takes its head hash from the last chunk; its chunks carry a timestamp where the
legacy ones do.
-/

namespace SqdNetwork.Assignments

open SqdNetwork.Core

/-- The row of a converted chunk on the portal side. -/
def portalRow (entry : Chunk × DataChunk) : PortalRow where
  id := entry.2
  version := 0
  workers := entry.1.workerIndexes
  timestamp := entry.1.lastBlockTimestamp.getD 0

/-- A dataset of the portal blob that holds what is converted of a legacy one. -/
def PortalCopy (readSchemaId : UInt32) (d : Dataset) (dataset : PortalAssignmentDataset) : Prop :=
  ∃ (columns : PortalDatasetColumns) (last : Chunk), d.chunks.getLast? = some last ∧
    columns.Encodes (d.parsed.map portalRow) ∧
    dataset = columns.toDataset d.id d.lastBlock last.lastBlockHash readSchemaId

/-- A copied worker's entry. -/
def copiedPortalEntry (entry : WorkerEntry) : PortalEntry where
  workerId := entry.workerId
  status := statusToFb (statusFromFb entry.status)

/-- What is converted of a legacy assignment, as the portal blob. -/
structure PortalBlob (legacy : Assignment) (root : PortalAssignmentRoot) : Prop where
  datasets : Copies PortalCopy legacy.datasets root.datasets
  workers : root.workers = legacy.workers.map copiedPortalEntry

namespace PortalAssignmentBuilder

variable {P : Type}

/-- A builder between the datasets of a conversion. -/
structure Converting (b : PortalAssignmentBuilder P) : Prop where
  columns : b.columns = {}
  lastBlock : b.lastBlock = none
  checkContinuity : b.checkContinuity = false

/-- What a conversion of datasets leaves alone. -/
def workerPart (b : PortalAssignmentBuilder P) := (b.workerEntries, b.lastPeerId)

/-- The dataset that is open, apart from everything else. -/
def openDataset (b : PortalAssignmentBuilder P) :
    OpenDataset PortalDatasetColumns (PortalAssignmentBuilder P) where
  columns := b.columns
  lastBlock := b.lastBlock
  rest := b.outside

/-- The builder once a chunk with a buffer of its own has been appended. -/
def afterChunk (b : PortalAssignmentBuilder P) (row : PortalRow) (columns : PortalDatasetColumns)
    (lastBlock : Option UInt64) : PortalAssignmentBuilder P :=
  { b with columns := columns, lastBlock := lastBlock, stagedWorkerIndexes := row.workers }

theorem Converting.rest {b : PortalAssignmentBuilder P} (h : b.Converting) :
    b.openDataset.rest.Converting :=
  ⟨rfl, rfl, h.checkContinuity⟩

theorem Converting.holds {b : PortalAssignmentBuilder P} (h : b.Converting) :
    portalKind.Holds b.openDataset.columns b.openDataset.lastBlock [] := by
  refine ⟨?_, h.lastBlock⟩
  rw [openDataset, h.columns]
  exact ⟨StagedColumns.encodes_nil, rfl⟩

end PortalAssignmentBuilder

section PortalDatasets

variable {P : Type} {profile : Profile} {b b' : PortalAssignmentBuilder P} {d : Dataset}
  {index : Nat} {readSchemaId : UInt32}

/-- The calls on a chunk stage its row. -/
theorem portalCalls_eq (b : PortalAssignmentBuilder P) (c : Chunk) (id : DataChunk) :
    PortalAssignmentChunkBuilder.calls b {} ([.id id, .blockRange ⟨id.firstBlock, id.lastBlock⟩,
      .workerIndexes c.workerIndexes] ++
        (c.lastBlockTimestamp.map PortalChunkCall.lastBlockTimestamp).toList) =
      ({ b with stagedWorkerIndexes := c.workerIndexes },
        { blockRange := some ⟨id.firstBlock, id.lastBlock⟩
          id := some id
          version := 0
          lastBlockTimestamp := c.lastBlockTimestamp.getD 0 }) := by
  cases c.lastBlockTimestamp <;> rfl

/-- Every chunk of the dataset is staged by its row. -/
theorem portalChunk_stages (h : d.Convertible) {entry : Chunk × DataChunk}
    (he : entry ∈ d.parsed) :
    StagesRow portalKind profile PortalAssignmentBuilder.openDataset portalRow
      (buildPortalChunk profile)
      (fun b : PortalAssignmentBuilder P => fun entry => b.afterChunk (portalRow entry))
      PortalAssignmentBuilder.Converting entry := by
  intro b hready b'
  obtain ⟨c, id⟩ := entry
  have hcheck : b.checkContinuity = false := hready.checkContinuity
  refine (h.filedAs he).idOf.bind_iff.trans ?_
  dsimp only [PortalAssignmentBuilder.newChunk]
  rw [portalCalls_eq]
  refine gives_reported.trans ?_
  rw [PortalAssignmentChunkBuilder.finish]
  simp only [Exec.expect_some, Exec.ok_bind, and_self, not_true_eq_false, if_false]
  rw [PortalAssignmentBuilder.pushChunk, Exec.bind_eq_ok, ← hcheck]
  constructor
  · rintro ⟨⟨columns, lastBlock, r⟩, happend, hout⟩
    cases hout
    exact ⟨columns, lastBlock, happend, rfl⟩
  · rintro ⟨columns, lastBlock, happend, rfl⟩
    exact ⟨_, happend, rfl⟩

/-- The steps of converting one dataset. -/
theorem buildPortalDataset_gives_iff (hid : schemaId profile index = .ok readSchemaId)
    (h : d.Convertible) :
    ∃ last, d.chunks.getLast? = some last ∧
      ∀ b', (buildPortalDataset profile b (d, index)).Gives b' ↔
        ∃ mid, (d.chunks.foldlM (buildPortalChunk profile) b).Gives mid ∧
          mid.finishDataset d.id readSchemaId last.lastBlockHash = .ok (b', .ok ()) := by
  obtain ⟨last, -, hlast, -⟩ := h.lastBlock
  have hhash : d.lastBlockHash profile = .ok last.lastBlockHash := by
    rw [Dataset.lastBlockHash, hlast]
  refine ⟨last, hlast, fun b' => ?_⟩
  refine (Fallible.gives_lift.mpr hid).bind_iff.trans ?_
  rw [Fallible.gives_bind]
  refine exists_congr fun mid => and_congr_right fun _ => ?_
  exact (Fallible.gives_lift.mpr hhash).bind_iff.trans gives_reported

/-- Columns that hold the rows of a dataset are emitted as its copy. -/
theorem finishPortalDataset_of_holds {lastBlockHash : Option String} (h : d.Convertible)
    (hholds : portalKind.Holds b.columns b.lastBlock (d.parsed.map portalRow)) :
    b.finishDataset d.id readSchemaId lastBlockHash =
      .ok (b.afterEmit d.id readSchemaId lastBlockHash d.lastBlock, .ok ()) := by
  obtain ⟨hcount, htops⟩ := hholds.ready h.rows_ne_nil
  have hlast : b.lastBlock = some d.lastBlock := by
    rw [hholds.2]
    exact h.getLast?_rows fun _ => rfl
  rw [portalKind_base] at hcount htops
  rw [PortalAssignmentBuilder.finishDataset, PortalAssignmentBuilder.emitDataset, if_neg hcount,
    htops, hlast]
  rfl

variable (hready : b.Converting) (hid : schemaId profile index = .ok readSchemaId)
  (h : d.Convertible)

include hready h

/-- Staged chunks are held, with everything else as it was. -/
theorem of_stagePortalChunks {mid : PortalAssignmentBuilder P}
    (hmid : (d.chunks.foldlM (buildPortalChunk profile) b).Gives mid) :
    portalKind.Holds mid.columns mid.lastBlock (d.parsed.map portalRow) ∧
      mid.outside = b.outside :=
  of_stageChunks (fun _ _ _ _ => rfl) h (fun _ he => portalChunk_stages h he) hready.rest
    hready.holds hmid

include hid

/-- A dataset is converted exactly if it is contiguous and its worker references can be
counted. -/
theorem exists_buildPortalDataset_iff (hcount : d.chunks.length < 2 ^ 32) :
    (∃ b', (buildPortalDataset profile b (d, index)).Gives b') ↔
      d.Contiguous ∧ d.workerReferences < 2 ^ 32 := by
  obtain ⟨last, -, hsteps⟩ := @buildPortalDataset_gives_iff _ _ b _ _ _ hid h
  have hstaged : (∃ mid, (d.chunks.foldlM (buildPortalChunk profile) b).Gives mid) ↔
      d.Contiguous ∧ d.workerReferences < 2 ^ 32 :=
    exists_stageChunks_iff (fun _ _ _ _ => rfl) h (fun _ he => portalChunk_stages h he)
      hready.rest hready.holds (fun _ => ⟨rfl, rfl⟩) hcount
  rw [← hstaged]
  constructor
  · rintro ⟨b', hb⟩
    obtain ⟨mid, hmid, -⟩ := (hsteps b').mp hb
    exact ⟨mid, hmid⟩
  · rintro ⟨mid, hmid⟩
    have hholds := (of_stagePortalChunks hready h hmid).1
    exact ⟨_, (hsteps _).mpr ⟨mid, hmid, finishPortalDataset_of_holds h hholds⟩⟩

/-- A converted dataset is added to the blob, and nothing else changes. -/
theorem of_buildPortalDataset (hb : (buildPortalDataset profile b (d, index)).Gives b') :
    b'.Converting ∧ b'.workerPart = b.workerPart ∧
      ∃ dataset, b'.allDatasets = b.allDatasets ++ [dataset] ∧
        PortalCopy readSchemaId d dataset := by
  obtain ⟨last, hlast, hsteps⟩ := @buildPortalDataset_gives_iff _ _ b _ _ _ hid h
  obtain ⟨mid, hmid, hfinish⟩ := (hsteps b').mp hb
  obtain ⟨hholds, hrest⟩ := of_stagePortalChunks hready h hmid
  rw [finishPortalDataset_of_holds h hholds, Except.ok.injEq, Prod.mk.injEq] at hfinish
  obtain ⟨rfl, -⟩ := hfinish
  have hcheck : mid.checkContinuity = b.checkContinuity :=
    congrArg (fun b => b.checkContinuity) hrest
  have hdatasets : mid.allDatasets = b.allDatasets := congrArg (fun b => b.allDatasets) hrest
  have hworkers : mid.workerPart = b.workerPart :=
    congrArg (fun b => (b.workerEntries, b.lastPeerId)) hrest
  exact ⟨⟨rfl, rfl, hcheck.trans hready.checkContinuity⟩, hworkers, _,
    congrArg (· ++ [_]) hdatasets, mid.columns, last, hlast, hholds.1, rfl⟩

end PortalDatasets

section PortalBlobs

variable {P : Type} {profile : Profile} {legacy : Assignment}

section DatasetLoop

variable {start : PortalAssignmentBuilder P} (hready : start.Converting)
  (hstored : legacy.Stored) (hdatasets : ∀ d ∈ legacy.datasets, d.Convertible)

include hstored hdatasets

/-- One round of the datasets' loop. -/
theorem convertPortalDataset_round {s s' : PortalAssignmentBuilder P} {i : Nat} {d : Dataset}
    (hd : legacy.datasets[i]? = some d)
    (hs : s.Converting ∧ s.workerPart = start.workerPart)
    (hgives : (buildPortalDataset profile s (d, i)).Gives s') :
    (s'.Converting ∧ s'.workerPart = start.workerPart) ∧
      ∃ dataset, s'.allDatasets = s.allDatasets ++ [dataset] ∧
        PortalCopy (ordinal i) d dataset := by
  have hi : i < legacy.datasets.length := (List.getElem?_eq_some_iff.mp hd).1
  have hid := @schemaId_eq profile i (Nat.lt_of_le_of_lt hi hstored.datasets)
  obtain ⟨hconverting, hworkers, hcopy⟩ := of_buildPortalDataset hs.1 hid
    (hdatasets d (List.mem_of_getElem? hd)) hgives
  exact ⟨⟨hconverting, hworkers.trans hs.2⟩, hcopy⟩

include hready

/-- The datasets are all converted exactly if they are contiguous and their worker references can
be counted. -/
theorem convertPortalDatasets_give_iff :
    (∃ b', (legacy.datasets.zipIdx.foldlM (buildPortalDataset profile) start).Gives b') ↔
      ∀ d ∈ legacy.datasets, d.Contiguous ∧ d.workerReferences < 2 ^ 32 := by
  refine convertDatasets_give_iff
    (fun _ _ _ _ hd hs hgives => convertPortalDataset_round hstored hdatasets hd hs hgives)
    (fun s i d hd hs => ?_) ⟨hready, rfl⟩
  have hi : i < legacy.datasets.length := (List.getElem?_eq_some_iff.mp hd).1
  have hmem := List.mem_of_getElem? hd
  have hid := @schemaId_eq profile i (Nat.lt_of_le_of_lt hi hstored.datasets)
  exact exists_buildPortalDataset_iff hs.1 hid (hdatasets d hmem) (hstored.chunks d hmem)

/-- The converted datasets are copies. -/
theorem of_convertPortalDatasets (hempty : start.allDatasets = [])
    {b' : PortalAssignmentBuilder P}
    (h : (legacy.datasets.zipIdx.foldlM (buildPortalDataset profile) start).Gives b') :
    (b'.Converting ∧ b'.workerPart = start.workerPart) ∧
      Copies PortalCopy legacy.datasets b'.allDatasets :=
  of_convertDatasets
    (fun _ _ _ _ hd hs hgives => convertPortalDataset_round hstored hdatasets hd hs hgives)
    h ⟨hready, rfl⟩ hempty

end DatasetLoop

/-- The workers copied so far, apart from everything else in the blob. -/
def PortalAssignmentBuilder.copiedWorkers (b : PortalAssignmentBuilder P) :
    CopiedWorkers PortalEntry P (List PortalAssignmentDataset) where
  entries := b.workerEntries
  lastPeerId := b.lastPeerId
  rest := b.allDatasets

variable [LT P] [DecidableLT P] {toBytes : P → List UInt8} {fromBytes : List UInt8 → Option P}
  (hbytes : ∀ bytes p, fromBytes bytes = some p → toBytes p = bytes)

include hbytes

/-- A worker is copied. -/
theorem copyPortalWorker_gives {b : PortalAssignmentBuilder P} {i : Nat} {entry : WorkerEntry}
    {peer : P} (hparse : entry.workerId.tryInto fromBytes = some peer)
    (hworker : legacy.getWorkerByIndex (UInt16.ofNat i) =
      .ok ⟨legacy.reader, entry, UInt16.ofNat i⟩)
    (hnext : assertAscending b.lastPeerId peer = .ok ()) :
    ∃ b', (copyPortalWorker profile toBytes fromBytes legacy b i).Gives b' ∧
      b'.copiedWorkers =
        ⟨b.workerEntries ++ [copiedPortalEntry entry], some peer, b.allDatasets⟩ := by
  have hslot : workerIdFrom profile (toBytes peer) = .ok entry.workerId := by
    rw [hbytes _ _ hparse]
    exact workerIdFrom_bytes profile entry.workerId
  have hadd : b.addWorker profile toBytes peer (statusFromFb entry.status) =
      .ok { b with
        lastPeerId := some peer
        workerEntries := b.workerEntries ++ [copiedPortalEntry entry] } := by
    rw [PortalAssignmentBuilder.addWorker, hnext, hslot]
    rfl
  refine ⟨{ b with
    lastPeerId := some peer
    workerEntries := b.workerEntries ++ [copiedPortalEntry entry] }, ?_, rfl⟩
  refine (Fallible.gives_lift.mpr hworker).bind_iff.mpr ?_
  refine (Fallible.gives_context.mpr hparse).bind_iff.mpr ?_
  exact Fallible.gives_lift.mpr hadd

/-- The workers of a convertible assignment are all copied. -/
theorem copyPortalWorkers_give {b : PortalAssignmentBuilder P} (h : legacy.Convertible fromBytes)
    (hnone : b.workerPart = ([], none)) :
    ∃ b', ((List.range legacy.workers.length).foldlM
        (copyPortalWorker profile toBytes fromBytes legacy) b).Gives b' ∧
      b'.workerEntries = legacy.workers.map copiedPortalEntry ∧ b'.allDatasets = b.allDatasets := by
  obtain ⟨hentries, hlast⟩ := Prod.mk.inj hnone
  have hb : b.copiedWorkers = ⟨[], none, b.allDatasets⟩ := by
    rw [PortalAssignmentBuilder.copiedWorkers, hentries, hlast]
  exact copyLoop_gives h (fun b i entry peer _ hparse hworker hnext =>
    copyPortalWorker_gives hbytes hparse hworker hnext) hb

variable (fb : FlatBuffers PortalAssignmentRoot) (hstored : legacy.Stored)
  (h : legacy.Convertible fromBytes)

include hstored h

/-- The portal blob is built exactly if every dataset is contiguous and its worker references can
be counted. -/
theorem exists_buildPortal_iff :
    (∃ buf, (buildPortal profile toBytes fromBytes fb legacy).Gives buf) ↔
      ∀ d ∈ legacy.datasets, d.Contiguous ∧ d.workerReferences < 2 ^ 32 := by
  have hnew : (PortalAssignmentBuilder.new.setCheckContinuity false :
      PortalAssignmentBuilder P).Converting := ⟨rfl, rfl, rfl⟩
  rw [← @convertPortalDatasets_give_iff _ profile _ _ hnew hstored h.datasets]
  constructor
  · rintro ⟨buf, hbuf⟩
    obtain ⟨b', hb', -⟩ := Fallible.gives_bind.mp hbuf
    exact ⟨b', hb'⟩
  · rintro ⟨b', hb'⟩
    obtain ⟨⟨-, hworkers⟩, -⟩ := of_convertPortalDatasets hnew hstored h.datasets rfl hb'
    obtain ⟨last, hlast, -⟩ :=
      @copyPortalWorkers_give _ profile _ _ _ _ _ hbytes b' h hworkers
    exact ⟨fb.finish last.finish,
      hb'.bind_iff.mpr (hlast.bind_iff.mpr (Fallible.gives_pure.mpr rfl))⟩

/-- A portal blob that is built holds what is converted. -/
theorem of_buildPortal {buf : fb.Buf}
    (hbuf : (buildPortal profile toBytes fromBytes fb legacy).Gives buf) :
    ∃ root, buf = fb.finish root ∧ PortalBlob legacy root := by
  have hnew : (PortalAssignmentBuilder.new.setCheckContinuity false :
      PortalAssignmentBuilder P).Converting := ⟨rfl, rfl, rfl⟩
  obtain ⟨b', hb', hrest⟩ := Fallible.gives_bind.mp hbuf
  obtain ⟨⟨-, hworkers⟩, hcopies⟩ := of_convertPortalDatasets hnew hstored h.datasets rfl hb'
  obtain ⟨last, hlast, hentries, hdatasets⟩ :=
    @copyPortalWorkers_give _ profile _ _ _ _ _ hbytes b' h hworkers
  have hfinish := hlast.bind_iff.mp hrest
  refine ⟨last.finish, (Fallible.gives_pure.mp hfinish).symm, ?_, hentries⟩
  rw [← hdatasets] at hcopies
  exact hcopies

end PortalBlobs

end SqdNetwork.Assignments
