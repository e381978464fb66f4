import SqdNetwork.Assignments.PortalRoundTrip
import SqdNetwork.Assignments.WorkerRoundTrip

/-!
# Datasets abandoned by their caller

A dataset that is dropped, or whose `finish` fails, is discarded. What is left of
it on the builder is at most the content of the buffers that opening a chunk
clears, and no later operation reads those before clearing them.
-/

namespace SqdNetwork.Assignments

open SqdNetwork.Core

namespace WorkerAssignmentBuilder

variable {P Key Rng : Type} {profile : Profile} {env : Sealing P Key Rng}
  {b b' s t : WorkerAssignmentBuilder P Key Rng}

/-- The builders differ at most in the buffers that opening a chunk clears. -/
def Interchangeable (s t : WorkerAssignmentBuilder P Key Rng) : Prop :=
  s.forgetStaged = t.forgetStaged

theorem Interchangeable.refl (s : WorkerAssignmentBuilder P Key Rng) : Interchangeable s s := rfl

/-- An interchangeable builder is the same one with other buffers. -/
theorem Interchangeable.exists_buffers (h : Interchangeable s t) :
    ∃ workers bits, t = { s with stagedWorkerIndexes := workers, stagedTablesPresent := bits } := by
  refine ⟨t.stagedWorkerIndexes, t.stagedTablesPresent, ?_⟩
  cases s
  cases t
  simpa [Interchangeable, forgetStaged] using h.symm

/-- Operations on an open dataset do not read the buffers left by earlier chunks. -/
theorem datasetStep_alike (h : Interchangeable s t) (op : WorkerDatasetOp) :
    Alike Interchangeable (s.datasetStep profile op) (t.datasetStep profile op) := by
  obtain ⟨workers, bits, rfl⟩ := h.exists_buffers
  cases op with
  | registerGeneration version baseUrl =>
    simp only [datasetStep, registerGeneration]
    split
    · exact ⟨h, rfl⟩
    · split <;> exact ⟨rfl, rfl⟩
  | chunk cs finish => exact Alike.refl Interchangeable.refl _

/-- Neither does finishing the dataset. -/
theorem finishDataset_alike (h : Interchangeable s t) (id baseUrl : String) :
    Alike Interchangeable (s.finishDataset id baseUrl) (t.finishDataset id baseUrl) := by
  obtain ⟨workers, bits, rfl⟩ := h.exists_buffers
  unfold finishDataset emitDataset
  dsimp only
  split
  · exact ⟨rfl, rfl⟩
  · split
    · exact ⟨rfl, rfl⟩
    · cases s.lastBlock with
      | none => exact rfl
      | some last => exact ⟨rfl, rfl⟩

/-- The whole life of a dataset is the same on interchangeable builders. -/
theorem runDataset_alike (h : Interchangeable s t) (id baseUrl : String)
    (ops : List WorkerDatasetOp) (finish : Bool) :
    Alike Interchangeable (s.runDataset profile id baseUrl ops finish)
      (t.runDataset profile id baseUrl ops finish) := by
  refine (runScript_alike (fun _ _ op hst => datasetStep_alike hst op) ops h).bind
    fun s' t' log hmid => ?_
  have hcolumns : s'.columns = t'.columns := congrArg (fun b => b.columns) hmid
  cases finish with
  | false => exact ⟨congrArg discardDataset hmid, by rw [hcolumns]⟩
  | true =>
    refine (finishDataset_alike hmid id baseUrl).bind fun s'' t'' r hend => ?_
    exact ⟨hend, by rw [hcolumns]⟩

/-- A builder left by an abandoned dataset is interchangeable with the one it was opened on. -/
theorem runDataset_abandoned {check : Bool} {log : List (WorkerOp P × WorkerResult)}
    (hbetween : Between check b log) {id baseUrl : String} {ops : List WorkerDatasetOp}
    {finish : Bool} {dlog : List (WorkerDatasetOp × WorkerDatasetResult)}
    {staged : WorkerDatasetColumns} {e : DatasetEnd}
    (hrun : b.runDataset profile id baseUrl ops finish = .ok (b', .dataset dlog staged e))
    (he : e ≠ .finished (.ok ())) : Interchangeable b' b := by
  obtain ⟨mid, dlog', e', hscript, hr, hcases⟩ := runDataset_cases hrun []
  cases hr
  have hstaging := staging_of_runScript hbetween.columns hbetween.lastBlock hscript
  have hidle : b.forgetStaged.discardDataset = b.forgetStaged := by
    cases b
    simp only [discardDataset, forgetStaged, ← hbetween.columns, ← hbetween.lastBlock,
      ← hbetween.generations]
  have hdiscard : Interchangeable mid.discardDataset b := hstaging.frame.trans hidle
  rcases hcases with ⟨rfl, -⟩ | ⟨-, rfl, -⟩
  · exact absurd rfl he
  · exact hdiscard

/-- Interchangeable builders finish as the same table. -/
theorem Interchangeable.finish_eq (h : Interchangeable s t) : s.finish = t.finish := by
  have he : s.forgetStaged.finish = t.forgetStaged.finish := congrArg finish h
  exact he

variable [LT P] [DecidableLT P]

/-- No operation tells interchangeable builders apart. -/
theorem step_alike (h : Interchangeable s t) (op : WorkerOp P) :
    Alike Interchangeable (s.step profile env op) (t.step profile env op) := by
  cases op with
  | dataset id baseUrl ops finish => exact runDataset_alike h id baseUrl ops finish
  | registerWriteSchema writeSchemaId tables =>
    obtain ⟨workers, bits, rfl⟩ := h.exists_buffers
    simp only [step, registerWriteSchema]
    split
    · split <;> exact ⟨rfl, rfl⟩
    · exact ⟨h, rfl⟩
  | addWorker peer status timestamp =>
    obtain ⟨workers, bits, rfl⟩ := h.exists_buffers
    simp only [step, addWorkerWithTimestamp, generateEncryptedHeaders]
    cases assertAscending s.lastPeerId peer with
    | error p => exact rfl
    | ok _ =>
      cases workerIdFrom profile (env.toBytes peer) with
      | error p => exact rfl
      | ok workerId =>
        simp only [Exec.ok_bind]
        split <;> exact ⟨rfl, rfl⟩
  | addWorkerWithSealedHeaders peer status identity nonce ciphertext =>
    obtain ⟨workers, bits, rfl⟩ := h.exists_buffers
    simp only [step, addWorkerWithSealedHeaders]
    cases assertAscending s.lastPeerId peer with
    | error p => exact rfl
    | ok _ =>
      cases workerIdFrom profile (env.toBytes peer) with
      | error p => exact rfl
      | ok workerId => exact ⟨rfl, rfl⟩

end WorkerAssignmentBuilder

namespace PortalAssignmentBuilder

variable {P : Type} {profile : Profile} {toBytes : P → List UInt8}
  {b b' s t : PortalAssignmentBuilder P}

/-- The builders differ at most in the buffer that opening a chunk clears. -/
def Interchangeable (s t : PortalAssignmentBuilder P) : Prop := s.forgetStaged = t.forgetStaged

theorem Interchangeable.refl (s : PortalAssignmentBuilder P) : Interchangeable s s := rfl

/-- An interchangeable builder is the same one with another buffer. -/
theorem Interchangeable.exists_buffer (h : Interchangeable s t) :
    ∃ workers, t = { s with stagedWorkerIndexes := workers } := by
  refine ⟨t.stagedWorkerIndexes, ?_⟩
  cases s
  cases t
  simpa [Interchangeable, forgetStaged] using h.symm

/-- A chunk does not read the buffer left by earlier chunks. -/
theorem runChunk_alike (h : Interchangeable s t) (op : PortalDatasetOp) :
    Alike Interchangeable (s.runChunk profile op) (t.runChunk profile op) := by
  obtain ⟨workers, rfl⟩ := h.exists_buffer
  exact Alike.refl Interchangeable.refl _

/-- Neither does finishing the dataset. -/
theorem finishDataset_alike (h : Interchangeable s t) (id : String) (readSchemaId : UInt32)
    (lastBlockHash : Option String) :
    Alike Interchangeable (s.finishDataset id readSchemaId lastBlockHash)
      (t.finishDataset id readSchemaId lastBlockHash) := by
  obtain ⟨workers, rfl⟩ := h.exists_buffer
  unfold finishDataset emitDataset
  dsimp only
  split
  · exact ⟨rfl, rfl⟩
  · split
    · exact ⟨rfl, rfl⟩
    · cases s.lastBlock with
      | none => exact rfl
      | some last => exact ⟨rfl, rfl⟩

/-- The whole life of a dataset is the same on interchangeable builders. -/
theorem runDataset_alike (h : Interchangeable s t) (id : String) (readSchemaId : UInt32)
    (ops : List PortalDatasetOp) (close : PortalClose) :
    Alike Interchangeable (s.runDataset profile id readSchemaId ops close)
      (t.runDataset profile id readSchemaId ops close) := by
  refine (runScript_alike (fun _ _ op hst => runChunk_alike hst op) ops h).bind
    fun s' t' log hmid => ?_
  have hcolumns : s'.columns = t'.columns := congrArg (fun b => b.columns) hmid
  cases close with
  | drop => exact ⟨congrArg discardDataset hmid, by rw [hcolumns]⟩
  | finish lastBlockHash =>
    refine (finishDataset_alike hmid id readSchemaId lastBlockHash).bind fun s'' t'' r hend => ?_
    exact ⟨hend, by rw [hcolumns]⟩

/-- A builder left by an abandoned dataset is interchangeable with the one it was opened on. -/
theorem runDataset_abandoned {check : Bool} {log : List (PortalOp P × PortalResult)}
    (hbetween : Between check b log) {id : String} {readSchemaId : UInt32}
    {ops : List PortalDatasetOp} {close : PortalClose}
    {dlog : List (PortalDatasetOp × ChunkEnd)} {staged : PortalDatasetColumns} {e : DatasetEnd}
    (hrun : b.runDataset profile id readSchemaId ops close = .ok (b', .dataset dlog staged e))
    (he : e ≠ .finished (.ok ())) : Interchangeable b' b := by
  obtain ⟨mid, dlog', e', hscript, hr, hcases⟩ := runDataset_cases hrun []
  cases hr
  have hstaging := staging_of_runScript hbetween.columns hbetween.lastBlock hscript
  have hidle : b.forgetStaged.discardDataset = b.forgetStaged := by
    cases b
    simp only [discardDataset, forgetStaged, ← hbetween.columns, ← hbetween.lastBlock]
  have hdiscard : Interchangeable mid.discardDataset b := hstaging.frame.trans hidle
  rcases hcases with ⟨rfl, -⟩ | ⟨-, rfl, -⟩
  · exact absurd rfl he
  · exact hdiscard

/-- Interchangeable builders finish as the same table. -/
theorem Interchangeable.finish_eq (h : Interchangeable s t) : s.finish = t.finish := by
  have he : s.forgetStaged.finish = t.forgetStaged.finish := congrArg finish h
  exact he

variable [LT P] [DecidableLT P]

/-- No operation tells interchangeable builders apart. -/
theorem step_alike (h : Interchangeable s t) (op : PortalOp P) :
    Alike Interchangeable (s.step profile toBytes op) (t.step profile toBytes op) := by
  cases op with
  | dataset id readSchemaId ops close => exact runDataset_alike h id readSchemaId ops close
  | addWorker peer status =>
    obtain ⟨workers, rfl⟩ := h.exists_buffer
    simp only [step, addWorker]
    cases assertAscending s.lastPeerId peer with
    | error p => exact rfl
    | ok _ =>
      cases workerIdFrom profile (toBytes peer) with
      | error p => exact rfl
      | ok workerId => exact ⟨rfl, rfl⟩

end PortalAssignmentBuilder

/-- In a run of either builder, a dataset that was dropped or refused can be left out: every
other operation reports the same and the table finished at the end, from which everything is
read back, is the same. -/
theorem abandoned_dataset_leaves_no_trace :
    (∀ {P Key Rng : Type} [LT P] [DecidableLT P] (profile : Profile) (env : Sealing P Key Rng)
      (secret : String) (rng : Rng) (check : Bool) (pre post : List (WorkerOp P))
      (b b' : WorkerAssignmentBuilder P Key Rng) (before : List (WorkerOp P × WorkerResult))
      (id baseUrl : String) (ops : List WorkerDatasetOp) (finish : Bool)
      (dlog : List (WorkerDatasetOp × WorkerDatasetResult)) (staged : WorkerDatasetColumns)
      (e : DatasetEnd),
      let start := (WorkerAssignmentBuilder.newWithRng env secret rng).setCheckContinuity check
      let step := WorkerAssignmentBuilder.step profile env
      let op : WorkerOp P := .dataset id baseUrl ops finish
      runScript step start pre = .ok (b, before) →
      step b op = .ok (b', .dataset dlog staged e) → e ≠ .finished (.ok ()) →
      Erased (fun s t => s.finish = t.finish) before (op, .dataset dlog staged e)
        (runScript step start (pre ++ op :: post)) (runScript step start (pre ++ post))) ∧
    (∀ {P : Type} [LT P] [DecidableLT P] (profile : Profile) (toBytes : P → List UInt8)
      (check : Bool) (pre post : List (PortalOp P)) (b b' : PortalAssignmentBuilder P)
      (before : List (PortalOp P × PortalResult)) (id : String) (readSchemaId : UInt32)
      (ops : List PortalDatasetOp) (close : PortalClose)
      (dlog : List (PortalDatasetOp × ChunkEnd)) (staged : PortalDatasetColumns) (e : DatasetEnd),
      let start :=
        (PortalAssignmentBuilder.new : PortalAssignmentBuilder P).setCheckContinuity check
      let step := PortalAssignmentBuilder.step profile toBytes
      let op : PortalOp P := .dataset id readSchemaId ops close
      runScript step start pre = .ok (b, before) →
      step b op = .ok (b', .dataset dlog staged e) → e ≠ .finished (.ok ()) →
      Erased (fun s t => s.finish = t.finish) before (op, .dataset dlog staged e)
        (runScript step start (pre ++ op :: post)) (runScript step start (pre ++ post))) := by
  constructor
  · intro P Key Rng _ _ profile env secret rng check pre post b b' before id baseUrl ops finish
      dlog staged e start step op hpre hop he
    have hbetween := WorkerAssignmentBuilder.between_of_runScript hpre
    have hleft := WorkerAssignmentBuilder.runDataset_abandoned hbetween hop he
    have hsteps : ∀ s t op, WorkerAssignmentBuilder.Interchangeable s t →
        Alike WorkerAssignmentBuilder.Interchangeable (step s op) (step t op) :=
      fun _ _ op hst => WorkerAssignmentBuilder.step_alike hst op
    exact (runScript_erased hsteps hpre hop hleft).imp fun _ _ hst => hst.finish_eq
  · intro P _ _ profile toBytes check pre post b b' before id readSchemaId ops close dlog staged e
      start step op hpre hop he
    have hbetween := PortalAssignmentBuilder.between_of_runScript hpre
    have hleft := PortalAssignmentBuilder.runDataset_abandoned hbetween hop he
    have hsteps : ∀ s t op, PortalAssignmentBuilder.Interchangeable s t →
        Alike PortalAssignmentBuilder.Interchangeable (step s op) (step t op) :=
      fun _ _ op hst => PortalAssignmentBuilder.step_alike hst op
    exact (runScript_erased hsteps hpre hop hleft).imp fun _ _ hst => hst.finish_eq

/-- How the handle of a dataset ended. -/
def WorkerResult.ended : WorkerResult → Option DatasetEnd
  | .dataset _ _ e => some e
  | _ => none

@[inherit_doc WorkerResult.ended]
def PortalResult.ended : PortalResult → Option DatasetEnd
  | .dataset _ _ e => some e
  | .added => none

/-- A dataset with a chunk, a generation and staged workers, given up by its caller. -/
def sampleDropped : WorkerOp Nat :=
  .dataset "x" "s3://x" [.registerGeneration 4 "_bf/y",
    .chunk [.id sampleIds.1, .blockRange ⟨0, 9⟩, .size 3,
      .writeSchemaId 7, .workerIndexes [5]] true] false

/-- A dataset without a finished chunk, refused when finished. -/
def sampleRefused : PortalOp Nat :=
  .dataset "x" 3 [⟨[.workerIndexes [5]], false⟩] (.finish none)

theorem abandoned_dataset_leaves_no_trace_sample :
    (∃ before dlog staged,
      Erased (fun s t => s.finish = t.finish) before
        (sampleDropped, .dataset dlog staged .dropped)
        (runScript (WorkerAssignmentBuilder.step .release sampleSealing)
          ((WorkerAssignmentBuilder.newWithRng sampleSealing "" ()).setCheckContinuity false)
          (sampleWorkerRun.take 2 ++ sampleDropped :: sampleWorkerRun.drop 2))
        (runScript (WorkerAssignmentBuilder.step .release sampleSealing)
          ((WorkerAssignmentBuilder.newWithRng sampleSealing "" ()).setCheckContinuity false)
          (sampleWorkerRun.take 2 ++ sampleWorkerRun.drop 2))) ∧
    (∃ before dlog staged,
      Erased (fun s t => s.finish = t.finish) before
        (sampleRefused, .dataset dlog staged (.finished (.error .noChunks)))
        (runScript
          (PortalAssignmentBuilder.step .release fun n => List.replicate 38 (UInt8.ofNat n))
          (PortalAssignmentBuilder.new.setCheckContinuity false)
          (samplePortalRun.take 2 ++ sampleRefused :: samplePortalRun.drop 2))
        (runScript
          (PortalAssignmentBuilder.step .release fun n => List.replicate 38 (UInt8.ofNat n))
          (PortalAssignmentBuilder.new.setCheckContinuity false)
          (samplePortalRun.take 2 ++ samplePortalRun.drop 2))) := by
  constructor
  · have hrun : (runScript (WorkerAssignmentBuilder.step .release sampleSealing)
        ((WorkerAssignmentBuilder.newWithRng sampleSealing "" ()).setCheckContinuity false)
        (sampleWorkerRun.take 2)).passes (fun out =>
          (out.1.step .release sampleSealing sampleDropped).passes fun out =>
            out.2.ended = some .dropped) = true := by decide
    obtain ⟨⟨b, before⟩, hpre, hop⟩ := Exec.exists_of_passes hrun
    obtain ⟨⟨b', r⟩, hop, he⟩ := Exec.exists_of_passes hop
    cases r with
    | registered _ => exact absurd (of_decide_eq_true he) (by simp [WorkerResult.ended])
    | added => exact absurd (of_decide_eq_true he) (by simp [WorkerResult.ended])
    | dataset dlog staged e =>
      obtain rfl := Option.some.inj (of_decide_eq_true he)
      exact ⟨before, dlog, staged, abandoned_dataset_leaves_no_trace.1 .release sampleSealing "" ()
        false _ (sampleWorkerRun.drop 2) b b' before _ _ _ _ dlog staged .dropped hpre hop
        (by decide)⟩
  · have hrun : (runScript (PortalAssignmentBuilder.step .release fun n =>
        List.replicate 38 (UInt8.ofNat n)) (PortalAssignmentBuilder.new.setCheckContinuity false)
        (samplePortalRun.take 2)).passes (fun out =>
          (out.1.step .release (fun n => List.replicate 38 (UInt8.ofNat n)) sampleRefused).passes
            fun out => out.2.ended = some (.finished (.error .noChunks))) = true := by decide
    obtain ⟨⟨b, before⟩, hpre, hop⟩ := Exec.exists_of_passes hrun
    obtain ⟨⟨b', r⟩, hop, he⟩ := Exec.exists_of_passes hop
    cases r with
    | added => exact absurd (of_decide_eq_true he) (by simp [PortalResult.ended])
    | dataset dlog staged e =>
      obtain rfl := Option.some.inj (of_decide_eq_true he)
      exact ⟨before, dlog, staged, abandoned_dataset_leaves_no_trace.2 .release _ false _
        (samplePortalRun.drop 2) b b' before _ _ _ _ dlog staged _ hpre hop (by decide)⟩

end SqdNetwork.Assignments
