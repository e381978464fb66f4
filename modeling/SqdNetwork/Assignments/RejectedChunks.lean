import SqdNetwork.Assignments.WorkerRoundTrip
import SqdNetwork.Assignments.PortalRoundTrip

/-!
# Rejected chunks

A chunk that is refused leaves the open dataset alone, with one exception: a
worker column that outgrows 32 bits is noticed after the other columns have grown.
As long as every chunk finds room for its worker references, the exception never
comes up, and the per-chunk columns keep one length.
-/

namespace SqdNetwork.Assignments

open SqdNetwork.Core

/-- The per-chunk columns have one length. -/
structure StagedColumns.Level (c : StagedColumns) : Prop where
  blockDeltas : c.blockDeltas.length = c.firstBlocks.length
  hashes : c.hashes.length = c.firstBlocks.length
  versions : c.versions.length = c.firstBlocks.length
  workerEnds : c.workerEnds.length = c.firstBlocks.length

/-- The per-chunk columns of a worker dataset have one length. -/
structure WorkerDatasetColumns.Level (c : WorkerDatasetColumns) : Prop where
  base : c.toStagedColumns.Level
  sizes : c.sizes.length = c.firstBlocks.length
  writeSchemaIds : c.writeSchemaIds.length = c.firstBlocks.length
  tablesPresentEnds : c.tablesPresentEnds.length = c.firstBlocks.length

/-- The per-chunk columns of a portal dataset have one length. -/
structure PortalDatasetColumns.Level (c : PortalDatasetColumns) : Prop where
  base : c.toStagedColumns.Level
  timestamps : c.timestamps.length = c.firstBlocks.length

/-- Columns that hold rows have as many entries as rows. -/
theorem StagedColumns.Encodes.level {c : StagedColumns} {rows : List ChunkRow}
    (h : c.Encodes rows) : c.Level := by
  refine ⟨?_, by simp [h.firstBlocks, h.hashes], by simp [h.firstBlocks, h.versions], ?_⟩
  · simpa [h.firstBlocks] using congrArg List.length h.blockDeltas
  · simpa [h.firstBlocks] using congrArg List.length h.workerEnds

theorem WorkerDatasetColumns.Encodes.level {c : WorkerDatasetColumns} {rows : List WorkerRow}
    (h : c.Encodes rows) : c.Level := by
  refine ⟨h.base.level, ?_, ?_, ?_⟩ <;>
    simp [h.base.firstBlocks, h.sizes, h.writeSchemaIds, h.tablesPresentEnds]

theorem PortalDatasetColumns.Encodes.level {c : PortalDatasetColumns} {rows : List PortalRow}
    (h : c.Encodes rows) : c.Level := by
  refine ⟨h.base.level, ?_⟩
  simp [h.base.firstBlocks, h.timestamps]

/-- Worker references that 32 bits can count. -/
def StagedColumns.Roomy (c : StagedColumns) : Prop := c.workerIndexes.length < 2 ^ 32

theorem StagedColumns.Roomy.not_overflowed {c : StagedColumns} (h : c.Roomy) : ¬c.Overflowed :=
  fun hover => Nat.not_lt.mpr hover.1 h

theorem StagedColumns.roomy_nil : ({} : StagedColumns).Roomy := Nat.two_pow_pos 32

section Append

variable {C Row K : Type} {kind : DatasetKind C Row K} {profile : Profile} {check : Bool}
  {columns columns' : C} {lastBlock lastBlock' : Option UInt64} {row : Row} {r : Outcome}

/-- With room for its worker references, a row is appended or nothing changes, and what is
there afterwards can be counted still. -/
theorem append_with_room
    (hend : ∀ stop c, (kind.base (kind.pushEnd stop c)).workerIndexes = (kind.base c).workerIndexes)
    (hroom : (kind.base columns).workerIndexes.length + (kind.row row).workers.length < 2 ^ 32)
    (happend : appendChunk profile check kind.base (kind.push row) kind.pushEnd columns lastBlock
      ⟨(kind.row row).id.firstBlock, (kind.row row).id.lastBlock⟩ = .ok (columns', lastBlock', r)) :
    (appended check r = false → columns' = columns ∧ lastBlock' = lastBlock) ∧
      (kind.base columns').Roomy := by
  have hgrown : ∀ index delta, (kind.base (kind.push row index delta columns)).Roomy := by
    intro index delta
    rw [StagedColumns.Roomy, kind.base_push]
    simpa [StagedColumns.pushRow] using hroom
  rcases appendChunk_cases (kind.row row).id.first_le happend with ⟨rfl, rfl, -⟩ |
      ⟨index, delta, -, -, -, hfull⟩ | ⟨index, delta, stop, -, -, -, rfl, -, hr⟩
  · exact ⟨fun _ => ⟨rfl, rfl⟩, Nat.lt_of_le_of_lt (Nat.le_add_right _ _) hroom⟩
  · exact absurd (hgrown index delta) (Nat.not_lt.mpr hfull)
  · refine ⟨fun hnot => absurd hnot (by simp [hr]), ?_⟩
    rw [StagedColumns.Roomy, hend]
    exact hgrown index delta

/-- A chunk handle that finds room appends its row or changes nothing. -/
theorem handled_with_room {chunk : K} {e : ChunkEnd} {workers : List UInt16}
    (h : kind.Handled profile check columns lastBlock chunk columns' lastBlock' e)
    (hend : ∀ stop c, (kind.base (kind.pushEnd stop c)).workerIndexes = (kind.base c).workerIndexes)
    (hworkers : ∀ row, kind.StagedBy chunk row → workers = (kind.row row).workers)
    (hroom : (kind.base columns).workerIndexes.length + workers.length < 2 ^ 32) :
    (e.appended check = false → columns' = columns ∧ lastBlock' = lastBlock) ∧
      (kind.base columns').Roomy := by
  cases h with
  | kept _ => exact ⟨fun _ => ⟨rfl, rfl⟩, Nat.lt_of_le_of_lt (Nat.le_add_right _ _) hroom⟩
  | tried hrow happend =>
    rw [hworkers _ hrow] at hroom
    exact append_with_room hend hroom happend

end Append

namespace WorkerAssignmentBuilder

variable {P Key Rng : Type} {profile : Profile} {b b' : WorkerAssignmentBuilder P Key Rng}

/-- The worker references of the open dataset and of the next chunk can be counted. -/
def HasRoom (b : WorkerAssignmentBuilder P Key Rng) : WorkerDatasetOp → Prop
  | .chunk calls _ =>
    b.columns.workerIndexes.length + (WorkerStaged.ofCalls calls).workerIndexes.length < 2 ^ 32
  | .registerGeneration _ _ => True

/-- A chunk that finds room is appended or changes nothing. -/
theorem runChunk_with_room {cs : List WorkerChunkCall} {finish : Bool} {e : ChunkEnd}
    (hroom : b.HasRoom (.chunk cs finish)) (h : b.runChunk profile cs finish = .ok (b', e)) :
    (e.appended b.checkContinuity = false → b'.columns = b.columns ∧ b'.lastBlock = b.lastBlock) ∧
      b'.columns.Roomy := by
  obtain ⟨-, -, hhandled⟩ := handled_of_runChunk h
  exact handled_with_room hhandled (fun _ _ => rfl) (fun _ hrow => hrow.1.workers) hroom

/-- An operation that finds room leaves room. -/
theorem datasetStep_with_room {op : WorkerDatasetOp} {r : WorkerDatasetResult}
    (hcols : b.columns.Roomy) (hroom : b.HasRoom op)
    (h : b.datasetStep profile op = .ok (b', r)) : b'.columns.Roomy := by
  rcases datasetStep_cases h with ⟨cs, finish, e, rfl, rfl, hrun⟩ |
      ⟨version, baseUrl, out, rfl, rfl, hregister⟩
  · exact (runChunk_with_room hroom hrun).2
  · obtain ⟨generations, rfl⟩ := registerGeneration_frame hregister
    exact hcols

end WorkerAssignmentBuilder

namespace PortalAssignmentBuilder

variable {P : Type} {profile : Profile} {b b' : PortalAssignmentBuilder P}

/-- The worker references of the open dataset and of the next chunk can be counted. -/
def HasRoom (b : PortalAssignmentBuilder P) (op : PortalDatasetOp) : Prop :=
  b.columns.workerIndexes.length + (PortalStaged.ofCalls op.calls).workerIndexes.length < 2 ^ 32

/-- A chunk that finds room is appended or changes nothing. -/
theorem runChunk_with_room {op : PortalDatasetOp} {e : ChunkEnd} (hroom : b.HasRoom op)
    (h : b.runChunk profile op = .ok (b', e)) :
    (e.appended b.checkContinuity = false → b'.columns = b.columns ∧ b'.lastBlock = b.lastBlock) ∧
      b'.columns.Roomy := by
  obtain ⟨-, hhandled⟩ := handled_of_runChunk h
  exact handled_with_room hhandled (fun _ _ => rfl) (fun _ hrow => hrow.workers) hroom

end PortalAssignmentBuilder

/-- In every run of either builder whose chunks all find room for their worker references, the
per-chunk columns of the open dataset have one length in every state reached, and a chunk that
is not appended leaves all columns and the last block as they were. -/
theorem rejected_chunk_changes_nothing (P Key Rng : Type) [LT P] [DecidableLT P]
    (profile : Profile) (check : Bool) :
    (∀ (env : Sealing P Key Rng) (secret : String) (rng : Rng) (ops : List (WorkerOp P))
      (start : WorkerAssignmentBuilder P Key Rng) (log : List (WorkerOp P × WorkerResult))
      (dops : List WorkerDatasetOp) (b : WorkerAssignmentBuilder P Key Rng)
      (dlog : List (WorkerDatasetOp × WorkerDatasetResult)),
      runScript (WorkerAssignmentBuilder.step profile env)
        ((WorkerAssignmentBuilder.newWithRng env secret rng).setCheckContinuity check) ops =
          .ok (start, log) →
      runScript (WorkerAssignmentBuilder.datasetStep profile) start dops = .ok (b, dlog) →
      EveryOp (WorkerAssignmentBuilder.datasetStep profile) WorkerAssignmentBuilder.HasRoom start
        dops →
      b.columns.Level ∧
      ∀ (cs : List WorkerChunkCall) (finish : Bool) (b' : WorkerAssignmentBuilder P Key Rng)
        (e : ChunkEnd), b.HasRoom (.chunk cs finish) →
        b.runChunk profile cs finish = .ok (b', e) → e.appended check = false →
        b'.columns = b.columns ∧ b'.lastBlock = b.lastBlock) ∧
    ∀ (toBytes : P → List UInt8) (ops : List (PortalOp P)) (start : PortalAssignmentBuilder P)
      (log : List (PortalOp P × PortalResult)) (dops : List PortalDatasetOp)
      (b : PortalAssignmentBuilder P) (dlog : List (PortalDatasetOp × ChunkEnd)),
      runScript (PortalAssignmentBuilder.step profile toBytes)
        (PortalAssignmentBuilder.new.setCheckContinuity check) ops = .ok (start, log) →
      runScript (PortalAssignmentBuilder.runChunk profile) start dops = .ok (b, dlog) →
      EveryOp (PortalAssignmentBuilder.runChunk profile) PortalAssignmentBuilder.HasRoom start
        dops →
      b.columns.Level ∧
      ∀ (op : PortalDatasetOp) (b' : PortalAssignmentBuilder P) (e : ChunkEnd),
        b.HasRoom op → b.runChunk profile op = .ok (b', e) → e.appended check = false →
        b'.columns = b.columns ∧ b'.lastBlock = b.lastBlock := by
  constructor
  · intro env secret rng ops start log dops b dlog hrun hopen hroom
    have hbetween := WorkerAssignmentBuilder.between_of_runScript hrun
    have hstaging := WorkerAssignmentBuilder.staging_of_runScript hbetween.columns
      hbetween.lastBlock hopen
    have hroomy : b.columns.Roomy :=
      runScript_invariant_of_everyOp (I := fun b => b.columns.Roomy)
        (fun _ _ _ _ hcols => WorkerAssignmentBuilder.datasetStep_with_room hcols)
        (by rw [hbetween.columns]; exact StagedColumns.roomy_nil) hroom hopen
    obtain ⟨rows, henc, -, -⟩ := hstaging.inStep.encodes hroomy.not_overflowed
    refine ⟨WorkerDatasetColumns.Encodes.level henc, fun cs finish b' e hchunk hstep he => ?_⟩
    apply (WorkerAssignmentBuilder.runChunk_with_room hchunk hstep).1
    rwa [hstaging.checkContinuity, hbetween.checkContinuity]
  · intro toBytes ops start log dops b dlog hrun hopen hroom
    have hbetween := PortalAssignmentBuilder.between_of_runScript hrun
    have hstaging := PortalAssignmentBuilder.staging_of_runScript hbetween.columns
      hbetween.lastBlock hopen
    have hroomy : b.columns.Roomy :=
      runScript_invariant_of_everyOp (I := fun b => b.columns.Roomy)
        (fun _ _ _ _ _ hroom hstep =>
          (PortalAssignmentBuilder.runChunk_with_room hroom hstep).2)
        (by rw [hbetween.columns]; exact StagedColumns.roomy_nil) hroom hopen
    obtain ⟨rows, henc, -, -⟩ := hstaging.inStep.encodes hroomy.not_overflowed
    refine ⟨PortalDatasetColumns.Encodes.level henc, fun op b' e hchunk hstep he => ?_⟩
    apply (PortalAssignmentBuilder.runChunk_with_room hchunk hstep).1
    rwa [hstaging.checkContinuity, hbetween.checkContinuity]

/-- A worker builder with one schema. -/
def sampleWorkerOpen : WorkerAssignmentBuilder Nat Unit Unit :=
  (((WorkerAssignmentBuilder.newWithRng sampleSealing "" ()).setCheckContinuity
    true).registerWriteSchema 7 ["blocks"]).1

/-- A chunk that both sample builders append. -/
def samplePortalChunk : PortalDatasetOp :=
  ⟨[.id sampleIds.1, .blockRange ⟨0, 9⟩, .workerIndexes [0, 1]], true⟩

/-- The calls of the same chunk on the worker-facing builder. -/
def sampleWorkerCalls : List WorkerChunkCall :=
  [.id sampleIds.1, .blockRange ⟨0, 9⟩, .size 3, .writeSchemaId 7, .workerIndexes [0, 1]]

theorem rejected_chunk_changes_nothing_sample :
    (∃ b dlog b', runScript (WorkerAssignmentBuilder.datasetStep .release) sampleWorkerOpen
        [.chunk sampleWorkerCalls true] = .ok (b, dlog) ∧ b.columns.Level ∧
      b.runChunk .release sampleWorkerCalls true =
        .ok (b', .finished (.error (.discontiguous 9 0))) ∧
      b'.columns = b.columns ∧ b'.lastBlock = b.lastBlock) ∧
    ∃ (b : PortalAssignmentBuilder Nat) (dlog : List (PortalDatasetOp × ChunkEnd))
      (b' : PortalAssignmentBuilder Nat),
      runScript (PortalAssignmentBuilder.runChunk .release) .new [samplePortalChunk] =
        .ok (b, dlog) ∧ b.columns.Level ∧
      b.runChunk .release samplePortalChunk = .ok (b', .finished (.error (.discontiguous 9 0))) ∧
      b'.columns = b.columns ∧ b'.lastBlock = b.lastBlock := by
  have h := rejected_chunk_changes_nothing Nat Unit Unit .release true
  have hw := h.1 sampleSealing "" () [.registerWriteSchema 7 ["blocks"]] sampleWorkerOpen _
    [.chunk sampleWorkerCalls true] _ _ rfl rfl ⟨Nat.lt_of_sub_eq_succ rfl, fun _ _ _ => trivial⟩
  have hp := h.2 (fun _ => []) [] .new _ [samplePortalChunk] _ _ rfl rfl
    ⟨Nat.lt_of_sub_eq_succ rfl, fun _ _ _ => trivial⟩
  exact ⟨⟨_, _, _, rfl, hw.1, rfl, hw.2 sampleWorkerCalls true _
      (.finished (.error (.discontiguous 9 0))) (Nat.lt_of_sub_eq_succ rfl) rfl rfl⟩,
    ⟨_, _, _, rfl, hp.1, rfl, hp.2 samplePortalChunk _
      (.finished (.error (.discontiguous 9 0))) (Nat.lt_of_sub_eq_succ rfl) rfl rfl⟩⟩

/-- On an empty dataset, a row that brings the worker column past 32 bits stays behind without
the end of its slice. -/
theorem appendChunk_too_many {C : Type} {base : C → StagedColumns}
    {push : UInt32 → UInt32 → C → C} {pushEnd : UInt32 → C → C} {columns : C}
    (hempty : (base columns).firstBlocks = [])
    (hfull : 2 ^ 32 ≤ (base (push 0 9 columns)).workerIndexes.length) :
    appendChunk .release true base push pushEnd columns none ⟨0, 9⟩ =
      .ok (push 0 9 columns, none, .error .tooManyWorkerReferences) := by
  have hindex : Exec.tryIntoU32 (base columns).firstBlocks.length = some 0 := by
    rw [hempty]
    rfl
  have hspan : Exec.subU64 .release 9 0 = .ok 9 := rfl
  have hdelta : Exec.tryIntoU32 (9 : UInt64).toNat = some 9 := rfl
  have hnone : Exec.tryIntoU32 (base (push 0 9 columns)).workerIndexes.length = none :=
    if_neg (Nat.not_lt.mpr hfull)
  simp only [appendChunk, continuityOf, Exec.ok_bind, ne_eq, not_true_eq_false, false_and,
    if_false, hindex, hspan, hdelta, hnone]

/-- A portal builder with the worker references of a chunk that is about to be pushed. -/
def samplePortalFull (workers : List UInt16) : PortalAssignmentBuilder Nat :=
  { PortalAssignmentBuilder.new with stagedWorkerIndexes := workers }

/-- The row of the first sample chunk. -/
def sampleFullPush : PushChunk where
  top := 0
  blockRange := ⟨0, 9⟩
  hash := chunkHash sampleIds.1
  size := 3
  writeSchemaId := 7
  version := 0

/-- The same builder with the worker references of a chunk that is about to be pushed. -/
def sampleWorkerFull (workers : List UInt16) : WorkerAssignmentBuilder Nat Unit Unit :=
  { sampleWorkerOpen with stagedWorkerIndexes := workers }

theorem worker_pushChunk_too_many {workers : List UInt16} (h : 2 ^ 32 ≤ workers.length) :
    (sampleWorkerFull workers).pushChunk .release sampleFullPush =
      .ok ({ sampleWorkerFull workers with
        columns := ({} : WorkerDatasetColumns).pushRow 0 9 sampleFullPush [] workers },
        .error .tooManyWorkerReferences) := by
  unfold WorkerAssignmentBuilder.pushChunk
  erw [appendChunk_too_many rfl h]
  rfl

theorem portal_pushChunk_too_many {workers : List UInt16} (h : 2 ^ 32 ≤ workers.length) :
    (samplePortalFull workers).pushChunk .release 0 ⟨0, 9⟩ (chunkHash sampleIds.1) 0 0 =
      .ok ({ samplePortalFull workers with
        columns := ({} : PortalDatasetColumns).pushRow 0 9 0 ⟨0, 9⟩ (chunkHash sampleIds.1) 0 0
          workers }, .error .tooManyWorkerReferences) := by
  unfold PortalAssignmentBuilder.pushChunk
  erw [appendChunk_too_many rfl h]
  rfl

/-- A first chunk with more worker references than 32 bits count is refused by both builders, and
leaves a block behind that has no worker slice. -/
theorem rejected_chunk_left {workers : List UInt16} (h : 2 ^ 32 ≤ workers.length) :
    (∃ b : WorkerAssignmentBuilder Nat Unit Unit,
      sampleWorkerOpen.runChunk .release [.id sampleIds.1, .blockRange ⟨0, 9⟩, .size 3,
        .writeSchemaId 7, .workerIndexes workers] true =
          .ok (b, .finished (.error .tooManyWorkerReferences)) ∧
      b.columns.firstBlocks = [0] ∧ b.columns.workerEnds = []) ∧
    ∃ b : PortalAssignmentBuilder Nat,
      PortalAssignmentBuilder.new.runChunk .release
        ⟨[.id sampleIds.1, .blockRange ⟨0, 9⟩, .workerIndexes workers], true⟩ =
          .ok (b, .finished (.error .tooManyWorkerReferences)) ∧
      b.columns.firstBlocks = [0] ∧ b.columns.workerEnds = [] := by
  have hworker : sampleWorkerOpen.runChunk .release [.id sampleIds.1, .blockRange ⟨0, 9⟩, .size 3,
      .writeSchemaId 7, .workerIndexes workers] true =
      (sampleWorkerFull workers).pushChunk .release sampleFullPush >>= fun out =>
        .ok (out.1, .finished out.2) := rfl
  have hportal : (PortalAssignmentBuilder.new : PortalAssignmentBuilder Nat).runChunk .release
      ⟨[.id sampleIds.1, .blockRange ⟨0, 9⟩, .workerIndexes workers], true⟩ =
      (samplePortalFull workers).pushChunk .release 0 ⟨0, 9⟩ (chunkHash sampleIds.1) 0 0 >>=
        fun out => .ok (out.1, .finished out.2) := rfl
  rw [hworker, hportal, worker_pushChunk_too_many h, portal_pushChunk_too_many h]
  exact ⟨⟨_, rfl, rfl, rfl⟩, ⟨_, rfl, rfl, rfl⟩⟩

/-- With 2^32 worker references on its first chunk, a fresh builder's columns change although the
chunk is refused. -/
theorem rejected_chunk_changes_columns :
    (∃ (log : List (WorkerOp Nat × WorkerResult)) (b : WorkerAssignmentBuilder Nat Unit Unit),
      runScript (WorkerAssignmentBuilder.step .release sampleSealing)
        ((WorkerAssignmentBuilder.newWithRng sampleSealing "" ()).setCheckContinuity true)
        [.registerWriteSchema 7 ["blocks"]] = .ok (sampleWorkerOpen, log) ∧
      sampleWorkerOpen.columns.firstBlocks = [] ∧
      sampleWorkerOpen.runChunk .release [.id sampleIds.1, .blockRange ⟨0, 9⟩, .size 3,
        .writeSchemaId 7, .workerIndexes (List.replicate (2 ^ 32) 0)] true =
          .ok (b, .finished (.error .tooManyWorkerReferences)) ∧
      b.columns.firstBlocks = [0] ∧ b.columns.workerEnds = []) ∧
    ∃ b : PortalAssignmentBuilder Nat,
      PortalAssignmentBuilder.new.runChunk .release ⟨[.id sampleIds.1, .blockRange ⟨0, 9⟩,
        .workerIndexes (List.replicate (2 ^ 32) 0)], true⟩ =
          .ok (b, .finished (.error .tooManyWorkerReferences)) ∧
      b.columns.firstBlocks = [0] ∧ b.columns.workerEnds = [] := by
  have hlong : 2 ^ 32 ≤ (List.replicate (2 ^ 32) (0 : UInt16)).length := by
    rw [List.length_replicate]
  obtain ⟨⟨b, hworker⟩, hportal⟩ := rejected_chunk_left hlong
  exact ⟨⟨_, b, rfl, rfl, hworker⟩, hportal⟩

end SqdNetwork.Assignments
