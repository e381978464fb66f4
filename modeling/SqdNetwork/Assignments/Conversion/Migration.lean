import SqdNetwork.Assignments.Conversion.Verify

/-!
# Migration of a legacy assignment

The whole conversion: build both blobs, read them and compare them with the
source. Chunks may ascend with gaps, and with the check off a gap is appended all
the same; but it is still reported as an error, and that error ends the build.
-/

namespace SqdNetwork.Assignments

open SqdNetwork.Core

/-- A dataset of the blob is the copy of a source dataset. -/
theorem Copies.of_mem {D : Type} {copy : UInt32 → Dataset → D → Prop} {source : List Dataset}
    {out : List D} (h : Copies copy source out) {dataset : D} (hmem : dataset ∈ out) :
    ∃ i, ∃ d ∈ source, copy (ordinal i) d dataset := by
  obtain ⟨i, hi⟩ := List.mem_iff_getElem?.mp hmem
  have hlt : i < source.length := h.length ▸ (List.getElem?_eq_some_iff.mp hi).1
  obtain ⟨other, hother, hcopy⟩ := h.copied i _ (List.getElem?_eq_getElem hlt)
  rw [Option.some.inj (hother.symm.trans hi)] at hcopy
  exact ⟨i, _, List.getElem_mem hlt, hcopy⟩

/-- The worker blob is accepted by its reader. -/
theorem WorkerBlob.accepted {legacy : Assignment} {root : WorkerAssignmentRoot}
    (h : WorkerBlob legacy root) (hdatasets : ∀ d ∈ legacy.datasets, d.Convertible)
    (fb : FlatBuffers WorkerAssignmentRoot) :
    WorkerAssignment.fromOwned fb (fb.finish root) = .ok ⟨root⟩ := by
  refine WorkerAssignment.fromOwned_eq_ok.mpr ⟨fb.root_finish root, fun dataset hmem => ?_⟩
  obtain ⟨i, d, hd, columns, first, -, hrows, rfl⟩ := h.datasets.of_mem hmem
  exact hrows.check_toDataset (hdatasets d hd).rows_ne_nil

/-- The portal blob is accepted by its reader. -/
theorem PortalBlob.accepted {legacy : Assignment} {root : PortalAssignmentRoot}
    (h : PortalBlob legacy root) (hdatasets : ∀ d ∈ legacy.datasets, d.Convertible)
    (fb : FlatBuffers PortalAssignmentRoot) :
    PortalAssignment.fromOwned fb (fb.finish root) = .ok ⟨root⟩ := by
  refine PortalAssignment.fromOwned_eq_ok.mpr ⟨fb.root_finish root, fun dataset hmem => ?_⟩
  obtain ⟨i, d, hd, columns, last, -, hrows, rfl⟩ := h.datasets.of_mem hmem
  exact hrows.check_toDataset (hdatasets d hd).rows_ne_nil

/-- A conversion goes through: both blobs are built and accepted by their readers, and the
comparison with the source passes. -/
def Migrates {P Key Rng : Type} [LT P] [DecidableLT P] [DecidableEq P] (profile : Profile)
    (env : Sealing P Key Rng) (fromBytes : List UInt8 → Option P)
    (workerFb : FlatBuffers WorkerAssignmentRoot) (portalFb : FlatBuffers PortalAssignmentRoot)
    (rng : Rng) (legacy : Assignment) : Prop :=
  ∃ workerBuf portalBuf worker portal,
    (buildWorker profile env fromBytes workerFb rng legacy).Gives workerBuf ∧
    (buildPortal profile env.toBytes fromBytes portalFb legacy).Gives portalBuf ∧
    WorkerAssignment.fromOwned workerFb workerBuf = .ok worker ∧
    PortalAssignment.fromOwned portalFb portalBuf = .ok portal ∧
    (verify profile fromBytes legacy worker portal).Gives ()

/-- Peer ids are only read from their own bytes. Then a legacy assignment that is to be converted
goes through exactly if, in every dataset, each chunk starts right after the one before it, and
the worker references and the bytes of table bitmaps can be counted in 32 bits. -/
theorem migration_goes_through_iff {P Key Rng : Type} [LT P] [DecidableLT P] [DecidableEq P]
    (profile : Profile) (env : Sealing P Key Rng) (fromBytes : List UInt8 → Option P)
    (hbytes : ∀ bytes p, fromBytes bytes = some p → env.toBytes p = bytes)
    (workerFb : FlatBuffers WorkerAssignmentRoot) (portalFb : FlatBuffers PortalAssignmentRoot)
    (rng : Rng) (legacy : Assignment) (hstored : legacy.Stored)
    (hsource : legacy.Convertible fromBytes) :
    Migrates profile env fromBytes workerFb portalFb rng legacy ↔
      ∀ d ∈ legacy.datasets,
        d.Contiguous ∧ d.workerReferences < 2 ^ 32 ∧ d.bitmapBytes < 2 ^ 32 := by
  have hworkerBuilt := @exists_buildWorker_iff _ _ _ _ _ profile env fromBytes legacy hbytes
    workerFb rng hstored hsource
  have hportalBuilt := @exists_buildPortal_iff _ profile legacy _ _ env.toBytes fromBytes hbytes
    portalFb hstored hsource
  constructor
  · rintro ⟨workerBuf, portalBuf, worker, portal, hworker, hportal, hwread, hpread, hverify⟩ d hd
    obtain ⟨hcontiguous, hreferences⟩ := hworkerBuilt.mp ⟨workerBuf, hworker⟩ d hd
    obtain ⟨wroot, rfl, hwblob⟩ := of_buildWorker hbytes workerFb rng hstored hsource hworker
    obtain ⟨proot, rfl, hpblob⟩ := of_buildPortal hbytes portalFb hstored hsource hportal
    rw [hwblob.accepted hsource.datasets] at hwread
    rw [hpblob.accepted hsource.datasets] at hpread
    cases hwread
    cases hpread
    exact ⟨hcontiguous, hreferences,
      (verify_gives_iff hsource hwblob hpblob hstored).mp hverify d hd⟩
  · intro hall
    obtain ⟨workerBuf, hworker⟩ := hworkerBuilt.mpr fun d hd => ⟨(hall d hd).1, (hall d hd).2.1⟩
    obtain ⟨portalBuf, hportal⟩ := hportalBuilt.mpr fun d hd => ⟨(hall d hd).1, (hall d hd).2.1⟩
    obtain ⟨wroot, rfl, hwblob⟩ := of_buildWorker hbytes workerFb rng hstored hsource hworker
    obtain ⟨proot, rfl, hpblob⟩ := of_buildPortal hbytes portalFb hstored hsource hportal
    refine ⟨_, _, ⟨wroot⟩, ⟨proot⟩, hworker, hportal, hwblob.accepted hsource.datasets workerFb,
      hpblob.accepted hsource.datasets portalFb, ?_⟩
    exact (verify_gives_iff hsource hwblob hpblob hstored).mpr fun d hd => (hall d hd).2.2

/-- A chunk filed under dataset `a` with the given tables. -/
def sampleFiledChunk (id : DataChunk) (tables : List String) : Chunk where
  firstBlock := id.firstBlock
  id := id.toString
  datasetId := "a"
  size := 3
  lastBlockHash := some "0x"
  lastBlockTimestamp := some 7
  datasetBaseUrl := "s3://a"
  baseUrl := id.toString
  files := tables.map fun table => ⟨table ++ ".parquet", table⟩
  workerIndexes := [0]

/-- A worker and a dataset of two chunks: blocks 0 to 9, and then those of the given id, without
the second table. -/
def sampleFiled (second : DataChunk) : Assignment where
  reader :=
    { datasets := [⟨"a", [sampleFiledChunk sampleIds.1 ["blocks", "logs"],
        sampleFiledChunk second ["blocks"]], second.lastBlock⟩]
      workers := [⟨sampleParsedId, statusToFb .ok, some ⟨[1], [2], [3]⟩⟩] }

theorem sampleFiled_stored (second : DataChunk) : (sampleFiled second).Stored where
  datasets := by simp [sampleFiled, Assignment.datasets]
  chunks := by simp [sampleFiled, Assignment.datasets]
  tables := List.forall_mem_singleton.mpr (show 2 < 2 ^ 32 by decide)

/-- Any later chunk of at most 2 ^ 32 blocks can follow. -/
theorem sampleFiled_convertible {second : DataChunk} (hlater : 9 < second.firstBlock)
    (hspan : (second.lastBlock - second.firstBlock).toNat < 2 ^ 32) :
    (sampleFiled second).Convertible IdentityPeer.fromBytes where
  datasets := by
    refine List.forall_mem_singleton.mpr ⟨?_, ?_, ?_⟩
    · refine List.forall_mem_cons.mpr ⟨⟨sampleIds.1, rfl, rfl, rfl, by decide⟩, ?_⟩
      exact List.forall_mem_singleton.mpr ⟨second, rfl, rfl, rfl, hspan⟩
    · refine List.isChain_pair.mpr fun id hid => ?_
      obtain rfl := Option.some.inj ((DataChunk.fromStr_toString sampleIds.1).symm.trans hid)
      exact hlater
    · exact ⟨_, second, rfl, DataChunk.fromStr_toString second, rfl⟩
  workerCount := by simp [sampleFiled, Assignment.workers]
  ascending := ⟨[⟨List.replicate 36 7, by simp⟩], List.isChain_singleton _, rfl⟩
  headers := List.forall_mem_singleton.mpr ⟨_, rfl⟩

/-- The chunk of blocks 10 to 12, right after block 9. -/
def sampleNextId : DataChunk := (DataChunk.new 0 10 12 "Zz_09").get (by decide)

/-- The chunk of blocks 11 and 12, past block 10. -/
def sampleGapId : DataChunk := (DataChunk.new 0 11 12 "Zz_09").get (by decide)

theorem migration_goes_through_sample :
    (sampleFiled sampleNextId).Stored ∧
    (sampleFiled sampleNextId).Convertible IdentityPeer.fromBytes ∧
    Migrates .debug samplePeerSealing IdentityPeer.fromBytes (.plain _) (.plain _) ()
      (sampleFiled sampleNextId) := by
  have hstored := sampleFiled_stored sampleNextId
  have hsource := sampleFiled_convertible (show 9 < sampleNextId.firstBlock by decide) (by decide)
  refine ⟨hstored, hsource, ?_⟩
  refine (migration_goes_through_iff .debug samplePeerSealing IdentityPeer.fromBytes
    (fun _ _ => IdentityPeer.toBytes_of_fromBytes) (.plain _) (.plain _) () _ hstored
    hsource).mpr (List.forall_mem_singleton.mpr ⟨?_, by decide, by decide +kernel⟩)
  refine List.isChain_pair.mpr fun id hid => ?_
  obtain rfl := Option.some.inj ((DataChunk.fromStr_toString sampleIds.1).symm.trans hid)
  rfl

/-- Block 10 is missing between the two chunks of a legacy assignment that is to be converted: both
builds end with the report of the gap. -/
theorem migration_stops_at_gap :
    (sampleFiled sampleGapId).Stored ∧
    (sampleFiled sampleGapId).Convertible IdentityPeer.fromBytes ∧
    (buildWorker .release samplePeerSealing IdentityPeer.fromBytes (.plain _) ()
      (sampleFiled sampleGapId)).run = .ok (.error (.build (.discontiguous 9 11))) ∧
    (buildPortal .release samplePeerSealing.toBytes IdentityPeer.fromBytes (.plain _)
      (sampleFiled sampleGapId)).run = .ok (.error (.build (.discontiguous 9 11))) ∧
    ¬Migrates .release samplePeerSealing IdentityPeer.fromBytes (.plain _) (.plain _) ()
      (sampleFiled sampleGapId) := by
  have hsource := sampleFiled_convertible (show 9 < sampleGapId.firstBlock by decide) (by decide)
  refine ⟨sampleFiled_stored sampleGapId, hsource, rfl, rfl, ?_⟩
  rintro ⟨workerBuf, -, -, -, hworker, -⟩
  cases hworker

end SqdNetwork.Assignments
