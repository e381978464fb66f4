import SqdNetwork.Assignments.WorkerStaging

/-!
# Worker assignments round trip

What a whole run of the worker-facing builder leaves in the finished table. Every
dataset that was finished successfully stands there in finishing order, the
reader accepts the table, and each chunk accessor returns what was staged.
-/

namespace SqdNetwork.Assignments

open SqdNetwork.Core

/-- A chunk reads back as the caller staged it. -/
structure WorkerChunk.ReadsBack (calls : List WorkerChunkCall) (chunk : WorkerChunk) : Prop where
  blockRange : ∃ range, (WorkerStaged.ofCalls calls).blockRange = some range ∧
    chunk.firstBlock = .ok range.start ∧ chunk.lastBlock = .ok range.stop
  size : ∃ size, (WorkerStaged.ofCalls calls).size = some size ∧ chunk.size = .ok size
  version : chunk.version = .ok (WorkerStaged.ofCalls calls).version
  writeSchemaId : ∃ writeSchemaId,
    (WorkerStaged.ofCalls calls).writeSchemaId = some writeSchemaId ∧
      chunk.writeSchemaId = .ok writeSchemaId
  workerIndexes : chunk.workerIndexes = .ok (WorkerStaged.ofCalls calls).workerIndexes
  id : ∃ id, (WorkerStaged.ofCalls calls).id = some id ∧ chunk.top = .ok id.top ∧
    chunk.id = .ok (some (toString id))

section Emitted

variable {c : WorkerDatasetColumns} {rows : List WorkerRow} {id baseUrl : String}
  {lastBlock : UInt64} {generations : Option (List GenerationEntry)}

theorem WorkerDatasetColumns.Encodes.chunkCount_toDataset (h : c.Encodes rows) :
    (c.toDataset id lastBlock baseUrl generations).chunkCount = rows.length :=
  h.base.length_firstBlocks.trans (List.length_map _)

/-- Emitted columns that hold rows pass the reader's check. -/
theorem WorkerDatasetColumns.Encodes.check_toDataset (h : c.Encodes rows) (hne : rows ≠ []) :
    (c.toDataset id lastBlock baseUrl generations).check = .ok () := by
  refine WorkerAssignmentDataset.check_eq_ok.mpr
    ⟨h.base.aligned_emit (by simpa using hne), ?_, ?_, ?_⟩
  · rw [h.chunkCount_toDataset]
    simp [WorkerDatasetColumns.toDataset, h.sizes]
  · rw [h.chunkCount_toDataset]
    simp [WorkerDatasetColumns.toDataset, h.writeSchemaIds]
  · intro column hcolumn
    simp only [WorkerDatasetColumns.toDataset, Option.ite_none_right_eq_some,
      Option.some.injEq] at hcolumn
    rw [h.chunkCount_toDataset, ← hcolumn.2, h.tablesPresentEnds]
    simp

/-- Every row is read back by its own number. -/
theorem WorkerDatasetColumns.Encodes.readsBack (h : c.Encodes rows) {index : UInt32}
    {row : WorkerRow} (hrow : rows[index.toNat]? = some row) {calls : List WorkerChunkCall}
    (hstaged : row.StagedBy calls) :
    WorkerChunk.ReadsBack calls ⟨c.toDataset id lastBlock baseUrl generations, index⟩ := by
  have hbase : (rows.map WorkerRow.toChunkRow)[index.toNat]? = some row.toChunkRow := by
    rw [List.getElem?_map, hrow, Option.map_some]
  constructor
  · exact ⟨_, hstaged.blockRange, h.base.firstBlock_emit hbase, h.base.lastBlock_emit hbase⟩
  · refine ⟨_, hstaged.size, Exec.index_eq_ok ?_⟩
    simp [WorkerDatasetColumns.toDataset, h.sizes, hrow]
  · rw [hstaged.version]
    exact h.base.version_emit hbase
  · refine ⟨_, hstaged.writeSchemaId, Exec.index_eq_ok ?_⟩
    simp [WorkerDatasetColumns.toDataset, h.writeSchemaIds, hrow]
  · rw [hstaged.workers]
    exact h.base.workersOf_emit hbase
  · exact ⟨_, hstaged.id, h.base.top_emit hbase, h.base.id_emit hbase⟩

/-- Rows that fit are enumerated in order, each read back. -/
theorem WorkerDatasetColumns.Encodes.forall₂_chunks (h : c.Encodes rows)
    (hfits : c.toStagedColumns.Fits) {chunks : List (List WorkerChunkCall)}
    (hrows : List.Forall₂ WorkerRow.StagedBy chunks rows) :
    List.Forall₂ WorkerChunk.ReadsBack chunks
      (c.toDataset id lastBlock baseUrl generations).chunks :=
  StagedColumns.forall₂_enumerate h.chunkCount_toDataset hfits.1 hrows
    fun _ _ _ hrow hstaged => h.readsBack hrow hstaged

end Emitted

/-- A successfully finished dataset: what it was opened with, what happened on it and the
columns it was emitted from. -/
structure FinishedWorkerDataset where
  id : String
  baseUrl : String
  log : List (WorkerDatasetOp × WorkerDatasetResult)
  staged : WorkerDatasetColumns

/-- The successfully finished datasets of a run, in order. -/
def finishedWorkerDatasets {P : Type} (log : List (WorkerOp P × WorkerResult)) :
    List FinishedWorkerDataset :=
  log.filterMap fun
    | (.dataset id baseUrl _ _, .dataset dlog staged (.finished (.ok ()))) =>
      some ⟨id, baseUrl, dlog, staged⟩
    | _ => none

theorem finishedWorkerDatasets_snoc {P : Type} (log : List (WorkerOp P × WorkerResult))
    (entry : WorkerOp P × WorkerResult) : finishedWorkerDatasets (log ++ [entry]) =
      finishedWorkerDatasets log ++ finishedWorkerDatasets [entry] :=
  List.filterMap_append

/-- An operation that finishes no dataset. -/
theorem finishedWorkerDatasets_snoc_other {P : Type} {log : List (WorkerOp P × WorkerResult)}
    {entry : WorkerOp P × WorkerResult} (h : finishedWorkerDatasets [entry] = []) :
    finishedWorkerDatasets (log ++ [entry]) = finishedWorkerDatasets log := by
  rw [finishedWorkerDatasets_snoc, h, List.append_nil]

/-- A dataset of the finished table reads back as the one that was finished. -/
structure WorkerAssignmentDataset.ReadsBack (checkContinuity : Bool) (d : FinishedWorkerDataset)
    (dataset : WorkerAssignmentDataset) : Prop where
  id : dataset.id = d.id
  baseUrl : dataset.baseUrl = d.baseUrl
  chunks : List.Forall₂ WorkerChunk.ReadsBack (appendedCalls checkContinuity d.log) dataset.chunks

/-- A dataset of the finished table was emitted from columns in step with its chunks. -/
def EmittedFrom (checkContinuity : Bool) (d : FinishedWorkerDataset)
    (dataset : WorkerAssignmentDataset) : Prop :=
  ∃ lastBlock generations, dataset = d.staged.toDataset d.id lastBlock d.baseUrl generations ∧
    d.staged.firstBlocks ≠ [] ∧
    workerKind.InStep d.staged (some lastBlock) (appendedCalls checkContinuity d.log)

namespace WorkerAssignmentBuilder

variable {P Key Rng : Type} {profile : Profile} {b b' : WorkerAssignmentBuilder P Key Rng}
  {id baseUrl : String}

/-- The builder once its open dataset has been emitted. -/
def afterEmit (b : WorkerAssignmentBuilder P Key Rng) (id baseUrl : String) (lastBlock : UInt64) :
    WorkerAssignmentBuilder P Key Rng :=
  { b.discardDataset with allDatasets := b.allDatasets ++
      [b.columns.toDataset id lastBlock baseUrl b.createGenerations] }

/-- A finished dataset is emitted whole, or refused and discarded. -/
theorem finishDataset_cases {r : Outcome} (h : b.finishDataset id baseUrl = .ok (b', r)) :
    (r = .ok () ∧ ∃ lastBlock, b.lastBlock = some lastBlock ∧ b.columns.firstBlocks ≠ [] ∧
      b' = b.afterEmit id baseUrl lastBlock) ∨
    (r ≠ .ok () ∧ b' = b.discardDataset) := by
  obtain ⟨⟨mid, r'⟩, hemit, h⟩ := Exec.bind_eq_ok.mp h
  unfold emitDataset at hemit
  split at hemit
  · cases hemit
    cases h
    exact Or.inr ⟨by simp, rfl⟩
  · next hcount =>
    split at hemit
    · cases hemit
      cases h
      exact Or.inr ⟨by simp, rfl⟩
    · obtain ⟨lastBlock, hlast, hemit⟩ := Exec.bind_eq_ok.mp hemit
      cases hemit
      cases h
      refine Or.inl ⟨rfl, lastBlock, Exec.expect_eq_ok hlast, ?_, rfl⟩
      exact fun he => hcount (by simp [he])

/-- With columns in step and short enough, finishing returns, and succeeds exactly when a
chunk was appended. -/
theorem finishDataset_iff {chunks : List (List WorkerChunkCall)}
    (h : workerKind.InStep b.columns b.lastBlock chunks) (hfits : b.columns.toStagedColumns.Fits) :
    ∃ b' r, b.finishDataset id baseUrl = .ok (b', r) ∧ (r = .ok () ↔ chunks ≠ []) := by
  rcases h.ready hfits with ⟨hchunks, hcount⟩ | ⟨hchunks, hcount, htops, lastBlock, hlast⟩
  · refine ⟨b.discardDataset, .error .noChunks, ?_, by simp [hchunks]⟩
    rw [workerKind_base] at hcount
    rw [finishDataset, emitDataset, if_pos hcount]
    rfl
  · refine ⟨b.afterEmit id baseUrl lastBlock, .ok (), ?_, by simp [hchunks]⟩
    rw [workerKind_base] at hcount htops
    rw [finishDataset, emitDataset, if_neg hcount, htops, hlast]
    rfl

/-- What a builder holds between operations: nothing open, and the datasets finished so far. -/
structure Between (check : Bool) (b : WorkerAssignmentBuilder P Key Rng)
    (log : List (WorkerOp P × WorkerResult)) : Prop where
  columns : b.columns = {}
  lastBlock : b.lastBlock = none
  generations : b.currentGenerations = .empty
  checkContinuity : b.checkContinuity = check
  datasets : List.Forall₂ (EmittedFrom check) (finishedWorkerDatasets log) b.allDatasets

/-- The fields an operation outside any dataset leaves alone. -/
def datasetPart (b : WorkerAssignmentBuilder P Key Rng) :=
  (b.columns, b.lastBlock, b.currentGenerations, b.checkContinuity, b.allDatasets)

theorem registerWriteSchema_frame (b : WorkerAssignmentBuilder P Key Rng) (writeSchemaId : UInt32)
    (tables : List String) :
    (b.registerWriteSchema writeSchemaId tables).1.datasetPart = b.datasetPart := by
  unfold registerWriteSchema
  split
  · split <;> rfl
  · rfl

/-- An operation that leaves those fields alone and finishes no dataset changes nothing here. -/
theorem Between.of_datasetPart {check : Bool} {log log' : List (WorkerOp P × WorkerResult)}
    (h : Between check b log) (hpart : b'.datasetPart = b.datasetPart)
    (hlog : finishedWorkerDatasets log' = finishedWorkerDatasets log) : Between check b' log' := by
  simp only [datasetPart, Prod.mk.injEq] at hpart
  obtain ⟨hcolumns, hlast, hgenerations, hcheck, hdatasets⟩ := hpart
  refine ⟨hcolumns.trans h.columns, hlast.trans h.lastBlock, hgenerations.trans h.generations,
    hcheck.trans h.checkContinuity, ?_⟩
  rw [hlog, hdatasets]
  exact h.datasets

/-- A dataset handle's life ends with the staged chunks emitted as one more finished dataset, or
discarded without a trace in the finished ones. -/
theorem runDataset_cases {ops : List WorkerDatasetOp} {finish : Bool} {r : WorkerResult}
    (hrun : b.runDataset profile id baseUrl ops finish = .ok (b', r))
    (log : List (WorkerOp P × WorkerResult)) :
    ∃ mid dlog e, runScript (datasetStep profile) b ops = .ok (mid, dlog) ∧
      r = .dataset dlog mid.columns e ∧
      ((e = .finished (.ok ()) ∧ ∃ lastBlock, mid.lastBlock = some lastBlock ∧
          mid.columns.firstBlocks ≠ [] ∧ b' = mid.afterEmit id baseUrl lastBlock ∧
          finishedWorkerDatasets (log ++ [(.dataset id baseUrl ops finish, r)]) =
            finishedWorkerDatasets log ++ [⟨id, baseUrl, dlog, mid.columns⟩]) ∨
        (e ≠ .finished (.ok ()) ∧ b' = mid.discardDataset ∧
          finishedWorkerDatasets (log ++ [(.dataset id baseUrl ops finish, r)]) =
            finishedWorkerDatasets log)) := by
  obtain ⟨⟨mid, dlog⟩, hscript, hrun⟩ := Exec.bind_eq_ok.mp hrun
  cases finish with
  | false =>
    cases hrun
    exact ⟨mid, dlog, .dropped, hscript, rfl,
      Or.inr ⟨nofun, rfl, finishedWorkerDatasets_snoc_other rfl⟩⟩
  | true =>
    obtain ⟨⟨last, out⟩, hfinish, hrun⟩ := Exec.bind_eq_ok.mp hrun
    cases hrun
    refine ⟨mid, dlog, .finished out, hscript, rfl, ?_⟩
    rcases finishDataset_cases hfinish with ⟨rfl, lastBlock, hlast, hne, rfl⟩ | ⟨hout, rfl⟩
    · exact Or.inl ⟨rfl, lastBlock, hlast, hne, rfl, finishedWorkerDatasets_snoc _ _⟩
    · cases out with
      | ok u => exact absurd rfl hout
      | error e => exact Or.inr ⟨nofun, rfl, finishedWorkerDatasets_snoc_other rfl⟩

/-- A dataset handle's life leaves the builder idle again, with one more dataset exactly when
it was finished successfully. -/
theorem Between.runDataset {check : Bool} {log : List (WorkerOp P × WorkerResult)}
    (h : Between check b log) {ops : List WorkerDatasetOp} {finish : Bool} {r : WorkerResult}
    (hrun : b.runDataset profile id baseUrl ops finish = .ok (b', r)) :
    Between check b' (log ++ [(.dataset id baseUrl ops finish, r)]) := by
  obtain ⟨mid, dlog, e, hscript, -, hcases⟩ := runDataset_cases hrun log
  have hstaging := staging_of_runScript h.columns h.lastBlock hscript
  have hcheck : mid.checkContinuity = check := hstaging.checkContinuity.trans h.checkContinuity
  have hdatasets : mid.allDatasets = b.allDatasets :=
    congrArg (fun b => b.allDatasets) hstaging.frame
  have hkept : List.Forall₂ (EmittedFrom check) (finishedWorkerDatasets log)
      mid.allDatasets := by
    rw [hdatasets]
    exact h.datasets
  rcases hcases with ⟨-, lastBlock, hlast, hne, rfl, hfinished⟩ | ⟨-, rfl, hfinished⟩
  · refine ⟨rfl, rfl, rfl, hcheck, ?_⟩
    have hemitted : EmittedFrom check ⟨id, baseUrl, dlog, mid.columns⟩
        (mid.columns.toDataset id lastBlock baseUrl mid.createGenerations) := by
      refine ⟨lastBlock, mid.createGenerations, rfl, hne, ?_⟩
      rw [← hlast, ← h.checkContinuity]
      exact hstaging.inStep
    rw [hfinished]
    exact List.rel_append hkept (List.Forall₂.cons hemitted List.Forall₂.nil)
  · refine ⟨rfl, rfl, rfl, hcheck, ?_⟩
    rw [hfinished]
    exact hkept

variable [LT P] [DecidableLT P] {env : Sealing P Key Rng}

/-- What adding a worker does: the id ascends past the last one, its entry is appended, and
nothing else that the builder keeps is touched. -/
structure AddedWorker (profile : Profile) (env : Sealing P Key Rng)
    (b b' : WorkerAssignmentBuilder P Key Rng) (peer : P) (status : WorkerStatus) : Prop where
  ascending : assertAscending b.lastPeerId peer = .ok ()
  lastPeerId : b'.lastPeerId = some peer
  entry : ∃ slot headers, workerIdFrom profile (env.toBytes peer) = .ok slot ∧
    b'.workerEntries = b.workerEntries ++ [⟨slot, statusToFb status, headers⟩]
  writeSchemas : b'.writeSchemas = b.writeSchemas
  datasetPart : b'.datasetPart = b.datasetPart

theorem addWorkerWithTimestamp_added {peer : P} {status : WorkerStatus} {timestamp : Nat}
    (h : b.addWorkerWithTimestamp profile env peer status timestamp = .ok b') :
    AddedWorker profile env b b' peer status := by
  obtain ⟨⟨⟩, hasc, h⟩ := Exec.bind_eq_ok.mp h
  obtain ⟨slot, hslot, h⟩ := Exec.bind_eq_ok.mp h
  obtain ⟨rng, identity, he⟩ :=
    generateEncryptedHeaders_frame env { b with lastPeerId := some peer } peer timestamp
  have hb : (generateEncryptedHeaders env { b with lastPeerId := some peer } peer
      timestamp).1.pushWorker slot status (generateEncryptedHeaders env
        { b with lastPeerId := some peer } peer timestamp).2 = b' := Except.ok.inj h
  rw [he] at hb
  subst hb
  exact ⟨hasc, rfl, ⟨slot, _, hslot, rfl⟩, rfl, rfl⟩

theorem addWorkerWithSealedHeaders_added {peer : P} {status : WorkerStatus}
    {identity nonce ciphertext : List UInt8}
    (h : b.addWorkerWithSealedHeaders profile env peer status identity nonce ciphertext = .ok b') :
    AddedWorker profile env b b' peer status := by
  obtain ⟨⟨⟩, hasc, h⟩ := Exec.bind_eq_ok.mp h
  obtain ⟨slot, hslot, h⟩ := Exec.bind_eq_ok.mp h
  cases h
  exact ⟨hasc, rfl, ⟨slot, _, hslot, rfl⟩, rfl, rfl⟩

/-- One operation leaves the builder between operations. -/
theorem Between.step {check : Bool} {log : List (WorkerOp P × WorkerResult)}
    (h : Between check b log) {op : WorkerOp P} {r : WorkerResult}
    (hstep : b.step profile env op = .ok (b', r)) : Between check b' (log ++ [(op, r)]) := by
  cases op with
  | registerWriteSchema writeSchemaId tables =>
    have hb : (b.registerWriteSchema writeSchemaId tables).1 = b' :=
      congrArg Prod.fst (Except.ok.inj hstep)
    have hr : WorkerResult.registered (b.registerWriteSchema writeSchemaId tables).2 = r :=
      congrArg Prod.snd (Except.ok.inj hstep)
    refine h.of_datasetPart ?_ (finishedWorkerDatasets_snoc_other (hr ▸ rfl))
    rw [← hb]
    exact registerWriteSchema_frame b writeSchemaId tables
  | dataset id baseUrl ops finish => exact h.runDataset hstep
  | addWorker peer status timestamp =>
    obtain ⟨mid, hadd, hout⟩ := Exec.bind_eq_ok.mp hstep
    cases hout
    exact h.of_datasetPart (addWorkerWithTimestamp_added hadd).datasetPart
      (finishedWorkerDatasets_snoc_other rfl)
  | addWorkerWithSealedHeaders peer status identity nonce ciphertext =>
    obtain ⟨mid, hadd, hout⟩ := Exec.bind_eq_ok.mp hstep
    cases hout
    exact h.of_datasetPart (addWorkerWithSealedHeaders_added hadd).datasetPart
      (finishedWorkerDatasets_snoc_other rfl)

/-- Every completed run leaves the builder between operations. -/
theorem between_of_runScript {secret : String} {rng : Rng} {check : Bool} {ops : List (WorkerOp P)}
    {log : List (WorkerOp P × WorkerResult)}
    (h : runScript (step profile env) ((newWithRng env secret rng).setCheckContinuity check) ops =
      .ok (b, log)) : Between check b log := by
  have h0 : Between check ((newWithRng env secret rng).setCheckContinuity check) [] :=
    ⟨rfl, rfl, rfl, rfl, List.Forall₂.nil⟩
  exact runScript_invariant (fun s s' op r log hs hstep => hs.step hstep) h0 h

end WorkerAssignmentBuilder

/-- A dataset emitted from columns that fit is accepted and reads back. -/
theorem EmittedFrom.readsBack {check : Bool} {d : FinishedWorkerDataset}
    {dataset : WorkerAssignmentDataset} (h : EmittedFrom check d dataset)
    (hfits : d.staged.toStagedColumns.Fits) :
    dataset.check = .ok () ∧ WorkerAssignmentDataset.ReadsBack check d dataset := by
  obtain ⟨lastBlock, generations, rfl, hne, hinstep⟩ := h
  obtain ⟨rows, henc, hrows, -⟩ := hinstep.encodes fun hover => hover.not_fits hfits
  have henc : d.staged.Encodes rows := henc
  have hrowsNe : rows ≠ [] := by
    rintro rfl
    exact hne henc.base.firstBlocks
  exact ⟨henc.check_toDataset hrowsNe, rfl, rfl, henc.forall₂_chunks hfits hrows⟩

open WorkerAssignmentBuilder in
/-- After any completed run: a dataset opened next is finished successfully exactly when a chunk
was appended to it, and the finished table is accepted and holds exactly the successfully
finished datasets in order, each with its appended chunks as they were staged. -/
theorem worker_assignment_round_trip {P Key Rng : Type} [LT P] [DecidableLT P]
    (profile : Profile) (env : Sealing P Key Rng) (fb : FlatBuffers WorkerAssignmentRoot)
    (secret : String) (rng : Rng) (check : Bool) (ops : List (WorkerOp P))
    (b : WorkerAssignmentBuilder P Key Rng) (log : List (WorkerOp P × WorkerResult))
    (hrun : runScript (step profile env) ((newWithRng env secret rng).setCheckContinuity check)
      ops = .ok (b, log)) :
    (∀ (id baseUrl : String) (dops : List WorkerDatasetOp) (d : WorkerAssignmentBuilder P Key Rng)
      (dlog : List (WorkerDatasetOp × WorkerDatasetResult)),
      runScript (datasetStep profile) b dops = .ok (d, dlog) → d.columns.toStagedColumns.Fits →
      ∃ d' r, d.finishDataset id baseUrl = .ok (d', r) ∧
        (r = .ok () ↔ appendedCalls check dlog ≠ [])) ∧
    ((∀ d ∈ finishedWorkerDatasets log, d.staged.toStagedColumns.Fits) →
      ∃ a, WorkerAssignment.fromOwned fb (fb.finish b.finish) = .ok a ∧
        List.Forall₂ (WorkerAssignmentDataset.ReadsBack check) (finishedWorkerDatasets log)
          a.datasets) := by
  have hbetween := between_of_runScript hrun
  constructor
  · intro id baseUrl dops d dlog hscript hfits
    have hstaging := staging_of_runScript hbetween.columns hbetween.lastBlock hscript
    have hinstep := hstaging.inStep
    rw [hbetween.checkContinuity] at hinstep
    exact finishDataset_iff hinstep hfits
  · intro hfits
    have hboth : List.Forall₂ (fun d dataset => dataset.check = .ok () ∧
        WorkerAssignmentDataset.ReadsBack check d dataset) (finishedWorkerDatasets log)
        b.allDatasets :=
      (List.forall₂_and_left _ _ |>.mpr ⟨hfits, hbetween.datasets⟩).imp
        fun _ _ h => h.2.readsBack h.1
    refine ⟨⟨b.finish⟩, WorkerAssignment.fromOwned_eq_ok.mpr ⟨fb.root_finish _, ?_⟩, ?_⟩
    · exact StagedColumns.forall_mem_of_forall₂ (fun _ _ h => h.1) hboth
    · exact hboth.imp fun _ _ h => h.2

/-- Two datasets, the second with a top that falls behind the first chunk's and a gap. -/
def sampleWorkerRun : List (WorkerOp Nat) :=
  [.registerWriteSchema 7 ["blocks", "logs"],
    .dataset "a" "s3://a" [.chunk [.id sampleIds.1,
      .blockRange ⟨0, 9⟩, .size 3, .writeSchemaId 7, .workerIndexes [0, 1]] true] true,
    .dataset "b" "s3://b" [.registerGeneration 2 "_bf/x",
      .chunk [.id sampleIds.2.1, .blockRange ⟨5, 6⟩,
        .size 4, .writeSchemaId 7] true,
      .chunk [.id sampleIds.2.2, .blockRange ⟨9, 9⟩,
        .size 5, .writeSchemaId 7, .version 2, .workerIndexes [1]] true] true]

/-- A codec for peers numbered by the naturals, without encryption. -/
def sampleSealing : Sealing Nat Unit Unit where
  toBytes n := List.replicate 38 (UInt8.ofNat n)
  toText n := n.repr
  generate _ := ((), ())
  publicKey _ := []
  timedHmac _ _ _ := ""
  encryptWithRng _ _ _ rng := (none, rng)

open WorkerAssignmentBuilder in
theorem worker_assignment_round_trip_sample :
    ∃ b log, runScript (step .release sampleSealing)
        ((newWithRng sampleSealing "" ()).setCheckContinuity false) sampleWorkerRun =
          .ok (b, log) ∧
      (finishedWorkerDatasets log).length = 2 ∧
      ∃ a, WorkerAssignment.fromOwned (.plain _) b.finish = .ok a ∧
        List.Forall₂ (WorkerAssignmentDataset.ReadsBack false) (finishedWorkerDatasets log)
          a.datasets := by
  have hrun : (runScript (step .release sampleSealing)
      ((newWithRng sampleSealing "" ()).setCheckContinuity false) sampleWorkerRun).passes
      (fun (_, log) => (finishedWorkerDatasets log).length = 2 ∧
        ∀ d ∈ finishedWorkerDatasets log, d.staged.toStagedColumns.Fits) = true := by decide
  obtain ⟨⟨b, log⟩, hok, htest⟩ := Exec.exists_of_passes hrun
  obtain ⟨hlen, hfits⟩ := of_decide_eq_true htest
  exact ⟨b, log, hok, hlen, (worker_assignment_round_trip .release sampleSealing (.plain _) "" ()
    false sampleWorkerRun b log hok).2 hfits⟩

end SqdNetwork.Assignments
