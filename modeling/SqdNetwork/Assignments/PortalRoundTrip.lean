import SqdNetwork.Assignments.PortalStaging

/-!
# Portal assignments round trip

What a whole run of the portal-facing builder leaves in the finished table, and
how every chunk of it reads back.
-/

namespace SqdNetwork.Assignments

open SqdNetwork.Core

/-- A chunk reads back as the caller staged it. -/
structure PortalChunk.ReadsBack (calls : List PortalChunkCall) (chunk : PortalChunk) : Prop where
  blockRange : ∃ range, (PortalStaged.ofCalls calls).blockRange = some range ∧
    chunk.firstBlock = .ok range.start ∧ chunk.lastBlock = .ok range.stop
  lastBlockTimestamp :
    chunk.lastBlockTimestamp = .ok (PortalStaged.ofCalls calls).lastBlockTimestamp
  version : chunk.version = .ok (PortalStaged.ofCalls calls).version
  workerIndexes : chunk.workerIndexes = .ok (PortalStaged.ofCalls calls).workerIndexes
  id : ∃ id, (PortalStaged.ofCalls calls).id = some id ∧ chunk.top = .ok id.top ∧
    chunk.id = .ok (some (toString id))

section Emitted

variable {c : PortalDatasetColumns} {rows : List PortalRow} {id : String} {lastBlock : UInt64}
  {lastBlockHash : Option String} {readSchemaId : UInt32}

theorem PortalDatasetColumns.Encodes.chunkCount_toDataset (h : c.Encodes rows) :
    (c.toDataset id lastBlock lastBlockHash readSchemaId).chunkCount = rows.length :=
  h.base.length_firstBlocks.trans (List.length_map _)

/-- Emitted columns that hold rows pass the reader's check. -/
theorem PortalDatasetColumns.Encodes.check_toDataset (h : c.Encodes rows) (hne : rows ≠ []) :
    (c.toDataset id lastBlock lastBlockHash readSchemaId).check = .ok () := by
  refine PortalAssignmentDataset.check_eq_ok.mpr ⟨h.base.aligned_emit (by simpa using hne), ?_⟩
  rw [h.chunkCount_toDataset]
  simp [PortalDatasetColumns.toDataset, h.timestamps]

/-- Every row is read back by its own number. -/
theorem PortalDatasetColumns.Encodes.readsBack (h : c.Encodes rows) {index : UInt32}
    {row : PortalRow} (hrow : rows[index.toNat]? = some row) {calls : List PortalChunkCall}
    (hstaged : row.StagedBy calls) :
    PortalChunk.ReadsBack calls ⟨c.toDataset id lastBlock lastBlockHash readSchemaId, index⟩ := by
  have hbase : (rows.map PortalRow.toChunkRow)[index.toNat]? = some row.toChunkRow := by
    rw [List.getElem?_map, hrow, Option.map_some]
  constructor
  · exact ⟨_, hstaged.blockRange, h.base.firstBlock_emit hbase, h.base.lastBlock_emit hbase⟩
  · rw [hstaged.timestamp]
    apply Exec.index_eq_ok
    simp [PortalDatasetColumns.toDataset, h.timestamps, hrow]
  · rw [hstaged.version]
    exact h.base.version_emit hbase
  · rw [hstaged.workers]
    exact h.base.workersOf_emit hbase
  · exact ⟨_, hstaged.id, h.base.top_emit hbase, h.base.id_emit hbase⟩

/-- Rows that fit are enumerated in order, each read back. -/
theorem PortalDatasetColumns.Encodes.forall₂_chunks (h : c.Encodes rows)
    (hfits : c.toStagedColumns.Fits) {chunks : List (List PortalChunkCall)}
    (hrows : List.Forall₂ PortalRow.StagedBy chunks rows) :
    List.Forall₂ PortalChunk.ReadsBack chunks
      (c.toDataset id lastBlock lastBlockHash readSchemaId).chunks :=
  StagedColumns.forall₂_enumerate h.chunkCount_toDataset hfits.1 hrows
    fun _ _ _ hrow hstaged => h.readsBack hrow hstaged

end Emitted

/-- A successfully finished dataset: what it was opened and finished with, what happened on it
and the columns it was emitted from. -/
structure FinishedPortalDataset where
  id : String
  readSchemaId : UInt32
  lastBlockHash : Option String
  log : List (PortalDatasetOp × ChunkEnd)
  staged : PortalDatasetColumns

/-- The successfully finished datasets of a run, in order. -/
def finishedPortalDatasets {P : Type} (log : List (PortalOp P × PortalResult)) :
    List FinishedPortalDataset :=
  log.filterMap fun
    | (.dataset id readSchemaId _ (.finish lastBlockHash),
        .dataset dlog staged (.finished (.ok ()))) =>
      some ⟨id, readSchemaId, lastBlockHash, dlog, staged⟩
    | _ => none

theorem finishedPortalDatasets_snoc {P : Type} (log : List (PortalOp P × PortalResult))
    (entry : PortalOp P × PortalResult) : finishedPortalDatasets (log ++ [entry]) =
      finishedPortalDatasets log ++ finishedPortalDatasets [entry] :=
  List.filterMap_append

/-- An operation that finishes no dataset. -/
theorem finishedPortalDatasets_snoc_other {P : Type} {log : List (PortalOp P × PortalResult)}
    {entry : PortalOp P × PortalResult} (h : finishedPortalDatasets [entry] = []) :
    finishedPortalDatasets (log ++ [entry]) = finishedPortalDatasets log := by
  rw [finishedPortalDatasets_snoc, h, List.append_nil]

/-- A dataset of the finished table reads back as the one that was finished. -/
structure PortalAssignmentDataset.ReadsBack (checkContinuity : Bool) (d : FinishedPortalDataset)
    (dataset : PortalAssignmentDataset) : Prop where
  id : dataset.id = d.id
  readSchemaId : dataset.readSchemaId = d.readSchemaId
  lastBlockHash : dataset.lastBlockHash = d.lastBlockHash
  /-- The last block is the end of the last appended chunk. -/
  lastBlock : ∃ calls range, (appendedPortalCalls checkContinuity d.log).getLast? = some calls ∧
    (PortalStaged.ofCalls calls).blockRange = some range ∧ dataset.lastBlock = range.stop
  chunks : List.Forall₂ PortalChunk.ReadsBack (appendedPortalCalls checkContinuity d.log)
    dataset.chunks

/-- A dataset of the finished table was emitted from columns in step with its chunks. -/
def PortalEmittedFrom (checkContinuity : Bool) (d : FinishedPortalDataset)
    (dataset : PortalAssignmentDataset) : Prop :=
  ∃ lastBlock, dataset = d.staged.toDataset d.id lastBlock d.lastBlockHash d.readSchemaId ∧
    d.staged.firstBlocks ≠ [] ∧
    portalKind.InStep d.staged (some lastBlock) (appendedPortalCalls checkContinuity d.log)

namespace PortalAssignmentBuilder

variable {P : Type} {profile : Profile} {b b' : PortalAssignmentBuilder P} {id : String}
  {readSchemaId : UInt32} {lastBlockHash : Option String}

/-- The builder once its open dataset has been emitted. -/
def afterEmit (b : PortalAssignmentBuilder P) (id : String) (readSchemaId : UInt32)
    (lastBlockHash : Option String) (lastBlock : UInt64) : PortalAssignmentBuilder P :=
  { b.discardDataset with allDatasets := b.allDatasets ++
      [b.columns.toDataset id lastBlock lastBlockHash readSchemaId] }

/-- A finished dataset is emitted whole, or refused and discarded. -/
theorem finishDataset_cases {r : Outcome}
    (h : b.finishDataset id readSchemaId lastBlockHash = .ok (b', r)) :
    (r = .ok () ∧ ∃ lastBlock, b.lastBlock = some lastBlock ∧ b.columns.firstBlocks ≠ [] ∧
      b' = b.afterEmit id readSchemaId lastBlockHash lastBlock) ∨
    (r ≠ .ok () ∧ b' = b.discardDataset) := by
  obtain ⟨⟨mid, r'⟩, hemit, h⟩ := Exec.bind_eq_ok.mp h
  unfold emitDataset at hemit
  split at hemit
  · cases hemit
    cases h
    exact Or.inr ⟨by simp, rfl⟩
  · next hcount =>
    split at hemit
    · cases hemit
      cases h
      exact Or.inr ⟨by simp, rfl⟩
    · obtain ⟨lastBlock, hlast, hemit⟩ := Exec.bind_eq_ok.mp hemit
      cases hemit
      cases h
      refine Or.inl ⟨rfl, lastBlock, Exec.expect_eq_ok hlast, ?_, rfl⟩
      exact fun he => hcount (by simp [he])

/-- What a builder holds between operations: nothing open, and the datasets finished so far. -/
structure Between (check : Bool) (b : PortalAssignmentBuilder P)
    (log : List (PortalOp P × PortalResult)) : Prop where
  columns : b.columns = {}
  lastBlock : b.lastBlock = none
  checkContinuity : b.checkContinuity = check
  datasets : List.Forall₂ (PortalEmittedFrom check) (finishedPortalDatasets log) b.allDatasets

/-- A dataset handle's life ends with the staged chunks emitted as one more finished dataset, or
discarded without a trace in the finished ones. -/
theorem runDataset_cases {ops : List PortalDatasetOp} {close : PortalClose} {r : PortalResult}
    (hrun : b.runDataset profile id readSchemaId ops close = .ok (b', r))
    (log : List (PortalOp P × PortalResult)) :
    ∃ mid dlog e, runScript (runChunk profile) b ops = .ok (mid, dlog) ∧
      r = .dataset dlog mid.columns e ∧
      ((e = .finished (.ok ()) ∧ ∃ lastBlockHash lastBlock, mid.lastBlock = some lastBlock ∧
          mid.columns.firstBlocks ≠ [] ∧
          b' = mid.afterEmit id readSchemaId lastBlockHash lastBlock ∧
          finishedPortalDatasets (log ++ [(.dataset id readSchemaId ops close, r)]) =
            finishedPortalDatasets log ++
              [⟨id, readSchemaId, lastBlockHash, dlog, mid.columns⟩]) ∨
        (e ≠ .finished (.ok ()) ∧ b' = mid.discardDataset ∧
          finishedPortalDatasets (log ++ [(.dataset id readSchemaId ops close, r)]) =
            finishedPortalDatasets log)) := by
  obtain ⟨⟨mid, dlog⟩, hscript, hrun⟩ := Exec.bind_eq_ok.mp hrun
  cases close with
  | drop =>
    cases hrun
    exact ⟨mid, dlog, .dropped, hscript, rfl,
      Or.inr ⟨nofun, rfl, finishedPortalDatasets_snoc_other rfl⟩⟩
  | finish lastBlockHash =>
    obtain ⟨⟨last, out⟩, hfinish, hrun⟩ := Exec.bind_eq_ok.mp hrun
    cases hrun
    refine ⟨mid, dlog, .finished out, hscript, rfl, ?_⟩
    rcases finishDataset_cases hfinish with ⟨rfl, lastBlock, hlast, hne, rfl⟩ | ⟨hout, rfl⟩
    · exact Or.inl
        ⟨rfl, lastBlockHash, lastBlock, hlast, hne, rfl, finishedPortalDatasets_snoc _ _⟩
    · cases out with
      | ok u => exact absurd rfl hout
      | error e => exact Or.inr ⟨nofun, rfl, finishedPortalDatasets_snoc_other rfl⟩

/-- A dataset handle's life leaves the builder idle again, with one more dataset exactly when
it was finished successfully. -/
theorem Between.runDataset {check : Bool} {log : List (PortalOp P × PortalResult)}
    (h : Between check b log) {ops : List PortalDatasetOp} {close : PortalClose}
    {r : PortalResult} (hrun : b.runDataset profile id readSchemaId ops close = .ok (b', r)) :
    Between check b' (log ++ [(.dataset id readSchemaId ops close, r)]) := by
  obtain ⟨mid, dlog, e, hscript, -, hcases⟩ := runDataset_cases hrun log
  have hstaging := staging_of_runScript h.columns h.lastBlock hscript
  have hcheck : mid.checkContinuity = check := hstaging.checkContinuity.trans h.checkContinuity
  have hdatasets : mid.allDatasets = b.allDatasets :=
    congrArg (fun b => b.allDatasets) hstaging.frame
  have hkept : List.Forall₂ (PortalEmittedFrom check) (finishedPortalDatasets log)
      mid.allDatasets := by
    rw [hdatasets]
    exact h.datasets
  rcases hcases with ⟨-, lastBlockHash, lastBlock, hlast, hne, rfl, hfinished⟩ |
      ⟨-, rfl, hfinished⟩
  · refine ⟨rfl, rfl, hcheck, ?_⟩
    have hemitted : PortalEmittedFrom check ⟨id, readSchemaId, lastBlockHash, dlog, mid.columns⟩
        (mid.columns.toDataset id lastBlock lastBlockHash readSchemaId) := by
      refine ⟨lastBlock, rfl, hne, ?_⟩
      rw [← hlast, ← h.checkContinuity]
      exact hstaging.inStep
    rw [hfinished]
    exact List.rel_append hkept (List.Forall₂.cons hemitted List.Forall₂.nil)
  · refine ⟨rfl, rfl, hcheck, ?_⟩
    rw [hfinished]
    exact hkept

variable [LT P] [DecidableLT P] {toBytes : P → List UInt8}

/-- One operation leaves the builder between operations. -/
theorem Between.step {check : Bool} {log : List (PortalOp P × PortalResult)}
    (h : Between check b log) {op : PortalOp P} {r : PortalResult}
    (hstep : b.step profile toBytes op = .ok (b', r)) : Between check b' (log ++ [(op, r)]) := by
  cases op with
  | dataset id readSchemaId ops close => exact h.runDataset hstep
  | addWorker peer status =>
    obtain ⟨mid, hadd, hout⟩ := Exec.bind_eq_ok.mp hstep
    obtain ⟨-, -, hadd⟩ := Exec.bind_eq_ok.mp hadd
    obtain ⟨workerId, -, hadd⟩ := Exec.bind_eq_ok.mp hadd
    cases hadd
    cases hout
    refine ⟨h.columns, h.lastBlock, h.checkContinuity, ?_⟩
    rw [finishedPortalDatasets_snoc_other rfl]
    exact h.datasets

/-- Every completed run leaves the builder between operations. -/
theorem between_of_runScript {check : Bool} {ops : List (PortalOp P)}
    {log : List (PortalOp P × PortalResult)}
    (h : runScript (step profile toBytes) (new.setCheckContinuity check) ops = .ok (b, log)) :
    Between check b log := by
  have h0 : Between check (new.setCheckContinuity check : PortalAssignmentBuilder P) [] :=
    ⟨rfl, rfl, rfl, List.Forall₂.nil⟩
  exact runScript_invariant (fun s s' op r log hs hstep => hs.step hstep) h0 h

end PortalAssignmentBuilder

/-- A dataset emitted from columns that fit is accepted and reads back. -/
theorem PortalEmittedFrom.readsBack {check : Bool} {d : FinishedPortalDataset}
    {dataset : PortalAssignmentDataset} (h : PortalEmittedFrom check d dataset)
    (hfits : d.staged.toStagedColumns.Fits) :
    dataset.check = .ok () ∧ PortalAssignmentDataset.ReadsBack check d dataset := by
  obtain ⟨lastBlock, rfl, hne, hinstep⟩ := h
  obtain ⟨rows, henc, hrows, hlast⟩ := hinstep.encodes fun hover => hover.not_fits hfits
  have henc : d.staged.Encodes rows := henc
  have hrowsNe : rows ≠ [] := by
    rintro rfl
    exact hne henc.base.firstBlocks
  refine ⟨henc.check_toDataset hrowsNe, rfl, rfl, rfl, ?_, henc.forall₂_chunks hfits hrows⟩
  obtain ⟨row, hrow, hstop⟩ := Option.map_eq_some_iff.mp hlast.symm
  obtain ⟨calls, hcalls, hstaged⟩ := forall₂_getLast? hrows hrow
  exact ⟨calls, _, hcalls, hstaged.blockRange, hstop.symm⟩

open PortalAssignmentBuilder in
/-- The table finished after any completed run is accepted and holds exactly the successfully
finished datasets in order, each with its appended chunks as they were staged. -/
theorem portal_assignment_round_trip {P : Type} [LT P] [DecidableLT P] (profile : Profile)
    (toBytes : P → List UInt8) (fb : FlatBuffers PortalAssignmentRoot) (check : Bool)
    (ops : List (PortalOp P)) (b : PortalAssignmentBuilder P)
    (log : List (PortalOp P × PortalResult))
    (hrun : runScript (step profile toBytes) (new.setCheckContinuity check) ops = .ok (b, log))
    (hfits : ∀ d ∈ finishedPortalDatasets log, d.staged.toStagedColumns.Fits) :
    ∃ a, PortalAssignment.fromOwned fb (fb.finish b.finish) = .ok a ∧
      List.Forall₂ (PortalAssignmentDataset.ReadsBack check) (finishedPortalDatasets log)
        a.datasets := by
  have hbetween := between_of_runScript hrun
  have hboth : List.Forall₂ (fun d dataset => dataset.check = .ok () ∧
      PortalAssignmentDataset.ReadsBack check d dataset) (finishedPortalDatasets log)
      b.allDatasets :=
    (List.forall₂_and_left _ _ |>.mpr ⟨hfits, hbetween.datasets⟩).imp
      fun _ _ h => h.2.readsBack h.1
  refine ⟨⟨b.finish⟩, PortalAssignment.fromOwned_eq_ok.mpr ⟨fb.root_finish _, ?_⟩, ?_⟩
  · exact StagedColumns.forall_mem_of_forall₂ (fun _ _ h => h.1) hboth
  · exact hboth.imp fun _ _ h => h.2

/-- Two datasets, the second with a top that falls behind the first chunk's, a gap and a chunk
without workers or timestamp. -/
def samplePortalRun : List (PortalOp Nat) :=
  [.addWorker 3 .ok,
    .dataset "a" 1 [⟨[.id sampleIds.1, .blockRange ⟨0, 9⟩,
      .lastBlockTimestamp 77, .workerIndexes [0, 1]], true⟩] (.finish (some "0xff")),
    .dataset "b" 2
      [⟨[.id sampleIds.2.1, .blockRange ⟨5, 6⟩], true⟩,
        ⟨[.id sampleIds.2.2, .blockRange ⟨9, 9⟩, .version 2,
          .workerIndexes [1]], true⟩] (.finish none)]

open PortalAssignmentBuilder in
theorem portal_assignment_round_trip_sample :
    ∃ b log, runScript (step .release fun n => List.replicate 38 (UInt8.ofNat n))
        (new.setCheckContinuity false) samplePortalRun = .ok (b, log) ∧
      (finishedPortalDatasets log).length = 2 ∧
      ∃ a, PortalAssignment.fromOwned (.plain _) b.finish = .ok a ∧
        List.Forall₂ (PortalAssignmentDataset.ReadsBack false) (finishedPortalDatasets log)
          a.datasets := by
  have hrun : (runScript (step .release fun n => List.replicate 38 (UInt8.ofNat n))
      (new.setCheckContinuity false) samplePortalRun).passes
      (fun (_, log) => (finishedPortalDatasets log).length = 2 ∧
        ∀ d ∈ finishedPortalDatasets log, d.staged.toStagedColumns.Fits) = true := by decide
  obtain ⟨⟨b, log⟩, hok, htest⟩ := Exec.exists_of_passes hrun
  obtain ⟨hlen, hfits⟩ := of_decide_eq_true htest
  exact ⟨b, log, hok, hlen, portal_assignment_round_trip .release _ (.plain _) false
    samplePortalRun b log hok hfits⟩

end SqdNetwork.Assignments
