import SqdNetwork.Assignments.WorkerRoundTrip

/-!
# Schemas and generations behind the rows

Every row of a worker dataset was appended with its schema registered on the
builder and its version registered on the dataset. Registrations are only added,
so both still hold in the finished table: the rosters are those of the whole run,
the generations those of the dataset alone.
-/

namespace SqdNetwork.Assignments

open SqdNetwork.Core

section Grow

variable {schemas schemas' : SortedMap UInt32 (List String)}
  {generations generations' : SortedMap UInt32 String}

/-- Further registrations keep a row registered. -/
theorem WorkerRow.RegisteredIn.mono {calls : List WorkerChunkCall} {row : WorkerRow}
    (h : row.RegisteredIn schemas generations calls) (hs : schemas.SubmapOf schemas')
    (hg : generations.SubmapOf generations') : row.RegisteredIn schemas' generations' calls := by
  obtain ⟨⟨roster, hroster, hbitmap⟩, hversion⟩ := h
  exact ⟨⟨roster, hs _ _ hroster, hbitmap⟩,
    hversion.imp_right fun ⟨url, hurl⟩ => ⟨url, hg _ _ hurl⟩⟩

/-- Further registrations keep a dataset in step. -/
theorem registeredKind_mono {columns : WorkerDatasetColumns} {lastBlock : Option UInt64}
    {chunks : List (List WorkerChunkCall)} (hs : schemas.SubmapOf schemas')
    (hg : generations.SubmapOf generations')
    (h : (registeredKind schemas generations).InStep columns lastBlock chunks) :
    (registeredKind schemas' generations').InStep columns lastBlock chunks := by
  refine h.imp_left fun ⟨rows, henc, hrows, hlast⟩ => ⟨rows, henc, ?_, hlast⟩
  exact hrows.imp fun _ _ hrow => ⟨hrow.1, hrow.2.mono hs hg⟩

end Grow

namespace WorkerAssignmentBuilder

variable {P Key Rng : Type} {profile : Profile} {b b' start : WorkerAssignmentBuilder P Key Rng}
  {log : List (WorkerDatasetOp × WorkerDatasetResult)}

/-- Registering a generation adds it, or reports what stands in its way. -/
theorem registerGeneration_spec (b : WorkerAssignmentBuilder P Key Rng) (version : UInt32)
    (url : String) :
    (∃ e, b.registerGeneration version url = (b, .error e)) ∨
    (b.currentGenerations.get? version = some url ∧
      b.registerGeneration version url = (b, .ok ())) ∨
    (b.currentGenerations.get? version = none ∧ b.registerGeneration version url =
      ({ b with currentGenerations := b.currentGenerations.insert version url }, .ok ())) := by
  unfold registerGeneration
  split
  · exact Or.inl ⟨_, rfl⟩
  · split
    · next existing hexisting =>
      by_cases he : existing = url
      · exact Or.inr (Or.inl ⟨he ▸ hexisting, by rw [if_pos he]⟩)
      · exact Or.inl ⟨_, by rw [if_neg he]⟩
    · next hnone => exact Or.inr (Or.inr ⟨hnone, rfl⟩)

/-- An open dataset whose rows are registered: the schemas are those it was opened with, the
generations those its own log reports. -/
structure RegisteredStaging (start b : WorkerAssignmentBuilder P Key Rng)
    (log : List (WorkerDatasetOp × WorkerDatasetResult)) : Prop where
  schemas : b.writeSchemas = start.writeSchemas
  generations : ∀ version url, b.currentGenerations.get? version = some url ↔
    (.registerGeneration version url, .generation (.ok ())) ∈ log
  inStep : (registeredKind b.writeSchemas b.currentGenerations).InStep b.columns b.lastBlock
    (appendedCalls start.checkContinuity log)

/-- One chunk handle keeps the rows registered. -/
theorem RegisteredStaging.runChunk (h : RegisteredStaging start b log)
    (hcheck : b.checkContinuity = start.checkContinuity) {cs : List WorkerChunkCall}
    {finish : Bool} {e : ChunkEnd} (hrun : b.runChunk profile cs finish = .ok (b', e)) :
    RegisteredStaging start b' (log ++ [(.chunk cs finish, .chunk e)]) := by
  obtain ⟨hframe, hcurrent, hhandled⟩ := handled_of_runChunk hrun
  have hschemas : b'.writeSchemas = b.writeSchemas := congrArg (fun b => b.writeSchemas) hframe
  rw [hcheck] at hhandled
  refine ⟨hschemas.trans h.schemas, ?_, ?_⟩
  · rw [hcurrent]
    simpa using h.generations
  · rw [hschemas, hcurrent, appendedCalls_snoc_chunk]
    exact h.inStep.handled hhandled

/-- One operation keeps the rows registered. -/
theorem RegisteredStaging.step (h : RegisteredStaging start b log)
    (hcheck : b.checkContinuity = start.checkContinuity) {op : WorkerDatasetOp}
    {r : WorkerDatasetResult} (hstep : b.datasetStep profile op = .ok (b', r)) :
    RegisteredStaging start b' (log ++ [(op, r)]) := by
  rcases datasetStep_cases hstep with ⟨cs, finish, e, rfl, rfl, hrun⟩ |
      ⟨version, url, out, rfl, rfl, hregister⟩
  · exact h.runChunk hcheck hrun
  · rcases registerGeneration_spec b version url with ⟨e, he⟩ | ⟨hknown, he⟩ | ⟨hnew, he⟩ <;>
      (rw [he, Prod.mk.injEq] at hregister; obtain ⟨rfl, rfl⟩ := hregister)
    · exact ⟨h.schemas, by simpa using h.generations, by simpa using h.inStep⟩
    · refine ⟨h.schemas, fun v u => ?_, by simpa using h.inStep⟩
      rw [h.generations, List.mem_append]
      refine ⟨Or.inl, fun hmem => hmem.elim id fun hlast => ?_⟩
      simp only [List.mem_singleton, Prod.mk.injEq, WorkerDatasetOp.registerGeneration.injEq,
        and_true] at hlast
      obtain ⟨rfl, rfl⟩ := hlast
      exact (h.generations v u).mp hknown
    · refine ⟨h.schemas, fun v u => ?_, ?_⟩
      · rw [SortedMap.get?_insert, List.mem_append, ← h.generations]
        by_cases hv : v = version
        · subst hv
          simp [hnew, eq_comm]
        · simp [hv]
      · rw [appendedCalls_snoc_generation]
        exact registeredKind_mono (SortedMap.SubmapOf.refl _)
          (SortedMap.submapOf_insert url hnew) h.inStep

/-- Whatever happens on a dataset opened with nothing staged keeps its rows registered. -/
theorem registeredStaging_of_runScript {ops : List WorkerDatasetOp} (hcolumns : start.columns = {})
    (hlast : start.lastBlock = none) (hgenerations : start.currentGenerations = .empty)
    (h : runScript (datasetStep profile) start ops = .ok (b, log)) :
    RegisteredStaging start b log := by
  have h0 : Staging start start [] ∧ RegisteredStaging start start [] := by
    refine ⟨⟨rfl, ?_⟩, rfl, ?_, ?_⟩
    · rw [hcolumns, hlast]
      exact workerKind_inStep_nil
    · simp [hgenerations, SortedMap.get?, SortedMap.empty]
    · rw [hcolumns, hlast]
      exact Or.inl ⟨[], WorkerDatasetColumns.encodes_nil, List.Forall₂.nil, rfl⟩
  exact (runScript_invariant (I := fun s log => Staging start s log ∧ RegisteredStaging start s log)
    (fun s s' op r log hs hstep =>
      ⟨hs.1.step hstep, hs.2.step hs.1.checkContinuity hstep⟩) h0 h).2

end WorkerAssignmentBuilder

/-- The generations a dataset is emitted with. -/
def generationEntries (generations : SortedMap UInt32 String) : Option (List GenerationEntry) :=
  if generations.entries.isEmpty then none
  else some (generations.entries.map fun entry => ⟨entry.1, entry.2⟩)

/-- A dataset of the finished table was emitted with its own generations, from rows that are
registered there and in the given schemas. -/
def RegisteredFrom (check : Bool) (schemas : SortedMap UInt32 (List String))
    (d : FinishedWorkerDataset) (dataset : WorkerAssignmentDataset) : Prop :=
  ∃ lastBlock generations,
    dataset = d.staged.toDataset d.id lastBlock d.baseUrl (generationEntries generations) ∧
    d.staged.firstBlocks ≠ [] ∧
    (registeredKind schemas generations).InStep d.staged (some lastBlock)
      (appendedCalls check d.log) ∧
    ∀ version url, generations.get? version = some url ↔
      (.registerGeneration version url, .generation (.ok ())) ∈ d.log

/-- Further schemas keep an emitted dataset registered. -/
theorem RegisteredFrom.mono {check : Bool} {schemas schemas' : SortedMap UInt32 (List String)}
    {d : FinishedWorkerDataset} {dataset : WorkerAssignmentDataset}
    (hs : schemas.SubmapOf schemas') (h : RegisteredFrom check schemas d dataset) :
    RegisteredFrom check schemas' d dataset := by
  obtain ⟨lastBlock, generations, he, hne, hinstep, hlog⟩ := h
  exact ⟨lastBlock, generations, he, hne,
    registeredKind_mono hs (SortedMap.SubmapOf.refl _) hinstep, hlog⟩

namespace WorkerAssignmentBuilder

variable {P Key Rng : Type} {profile : Profile} {b b' : WorkerAssignmentBuilder P Key Rng}
  {check : Bool} {log : List (WorkerOp P × WorkerResult)}

/-- What is registered between operations: the rosters the log reports, each strictly ascending,
and every finished dataset with them. -/
structure RegisteredBetween (check : Bool) (b : WorkerAssignmentBuilder P Key Rng)
    (log : List (WorkerOp P × WorkerResult)) : Prop where
  rosters : ∀ writeSchemaId roster, b.writeSchemas.get? writeSchemaId = some roster ↔
    (.registerWriteSchema writeSchemaId roster, .registered (.ok ())) ∈ log
  sorted : ∀ writeSchemaId roster, b.writeSchemas.get? writeSchemaId = some roster →
    roster.Pairwise (· < ·)
  datasets : List.Forall₂ (RegisteredFrom check b.writeSchemas) (finishedWorkerDatasets log)
    b.allDatasets

/-- Registering a schema adds its roster, or reports what stands in its way. -/
theorem registerWriteSchema_spec (b : WorkerAssignmentBuilder P Key Rng) (writeSchemaId : UInt32)
    (tables : List String) :
    (∃ e, b.registerWriteSchema writeSchemaId tables = (b, .error e)) ∨
    (b.writeSchemas.get? writeSchemaId = some tables ∧
      b.registerWriteSchema writeSchemaId tables = (b, .ok ())) ∨
    (tables.Pairwise (· < ·) ∧ b.writeSchemas.get? writeSchemaId = none ∧
      b.registerWriteSchema writeSchemaId tables =
        ({ b with writeSchemas := b.writeSchemas.insert writeSchemaId tables }, .ok ())) := by
  unfold registerWriteSchema
  split
  · next hsorted =>
    split
    · next existing hexisting =>
      by_cases he : existing = tables
      · exact Or.inr (Or.inl ⟨he ▸ hexisting, by rw [if_pos he]⟩)
      · exact Or.inl ⟨_, by rw [if_neg he]⟩
    · next hnone => exact Or.inr (Or.inr ⟨isSortedBy_lt_iff.mp hsorted, hnone, rfl⟩)
  · exact Or.inl ⟨_, rfl⟩

/-- Registering a schema keeps what is registered. -/
theorem RegisteredBetween.registerWriteSchema (h : RegisteredBetween check b log)
    (writeSchemaId : UInt32) (tables : List String) :
    RegisteredBetween check (b.registerWriteSchema writeSchemaId tables).1
      (log ++ [(.registerWriteSchema writeSchemaId tables,
        .registered (b.registerWriteSchema writeSchemaId tables).2)]) := by
  have hfinished : ∀ r : Outcome, finishedWorkerDatasets (log ++
      [(.registerWriteSchema writeSchemaId tables, .registered r)]) = finishedWorkerDatasets log :=
    fun r => finishedWorkerDatasets_snoc_other rfl
  have hdatasets : ∀ r : Outcome, List.Forall₂ (RegisteredFrom check b.writeSchemas)
      (finishedWorkerDatasets (log ++
        [(.registerWriteSchema writeSchemaId tables, .registered r)])) b.allDatasets := by
    intro r
    rw [hfinished]
    exact h.datasets
  rcases registerWriteSchema_spec b writeSchemaId tables with
    ⟨e, he⟩ | ⟨hknown, he⟩ | ⟨hasc, hnew, he⟩ <;> rw [he]
  · exact ⟨by simpa using h.rosters, h.sorted, hdatasets _⟩
  · refine ⟨fun id roster => ?_, h.sorted, hdatasets _⟩
    rw [h.rosters, List.mem_append]
    refine ⟨Or.inl, fun hmem => hmem.elim (fun hold => hold) fun hlast => ?_⟩
    simp only [List.mem_singleton, Prod.mk.injEq, WorkerOp.registerWriteSchema.injEq,
      and_true] at hlast
    obtain ⟨rfl, rfl⟩ := hlast
    exact (h.rosters _ _).mp hknown
  · refine ⟨fun id roster => ?_, fun id roster hget => ?_, ?_⟩
    · rw [SortedMap.get?_insert, List.mem_append, ← h.rosters]
      by_cases hid : id = writeSchemaId
      · subst hid
        simp [hnew, eq_comm]
      · simp [hid]
    · rw [SortedMap.get?_insert] at hget
      split at hget
      · exact Option.some.inj hget ▸ hasc
      · exact h.sorted id roster hget
    · rw [hfinished]
      exact h.datasets.imp fun _ _ => RegisteredFrom.mono (SortedMap.submapOf_insert tables hnew)

/-- An operation that registers no schema and keeps the schemas keeps the rosters; the datasets
are left to show. -/
theorem RegisteredBetween.of_schemas (h : RegisteredBetween check b log) {op : WorkerOp P}
    {r : WorkerResult} (hschemas : b'.writeSchemas = b.writeSchemas)
    (hop : ∀ writeSchemaId roster, op ≠ .registerWriteSchema writeSchemaId roster)
    (hdatasets : List.Forall₂ (RegisteredFrom check b.writeSchemas)
      (finishedWorkerDatasets (log ++ [(op, r)])) b'.allDatasets) :
    RegisteredBetween check b' (log ++ [(op, r)]) := by
  refine ⟨fun id roster => ?_, fun id roster hget => ?_, ?_⟩
  · rw [hschemas, h.rosters, List.mem_append]
    refine ⟨Or.inl, fun hmem => hmem.elim (fun hold => hold) fun hlast => ?_⟩
    exact absurd (congrArg Prod.fst (List.mem_singleton.mp hlast)).symm (hop id roster)
  · exact h.sorted id roster (hschemas ▸ hget)
  · rw [hschemas]
    exact hdatasets

/-- A dataset handle's life keeps what is registered. -/
theorem RegisteredBetween.runDataset (h : RegisteredBetween check b log)
    (hbetween : Between check b log) {id baseUrl : String} {ops : List WorkerDatasetOp}
    {finish : Bool} {r : WorkerResult}
    (hrun : b.runDataset profile id baseUrl ops finish = .ok (b', r)) :
    RegisteredBetween check b' (log ++ [(.dataset id baseUrl ops finish, r)]) := by
  obtain ⟨mid, dlog, e, hscript, -, hcases⟩ := runDataset_cases hrun log
  have hstaging := staging_of_runScript hbetween.columns hbetween.lastBlock hscript
  have hregistered := registeredStaging_of_runScript hbetween.columns hbetween.lastBlock
    hbetween.generations hscript
  have hdatasets : mid.allDatasets = b.allDatasets :=
    congrArg (fun b => b.allDatasets) hstaging.frame
  have hkept : List.Forall₂ (RegisteredFrom check b.writeSchemas) (finishedWorkerDatasets log)
      mid.allDatasets := by
    rw [hdatasets]
    exact h.datasets
  rcases hcases with ⟨-, lastBlock, hlast, hne, rfl, hfinished⟩ | ⟨-, rfl, hfinished⟩
  · refine h.of_schemas hregistered.schemas nofun ?_
    have hemitted : RegisteredFrom check b.writeSchemas ⟨id, baseUrl, dlog, mid.columns⟩
        (mid.columns.toDataset id lastBlock baseUrl mid.createGenerations) := by
      refine ⟨lastBlock, mid.currentGenerations, rfl, hne, ?_, hregistered.generations⟩
      rw [← hlast, ← hbetween.checkContinuity, ← hregistered.schemas]
      exact hregistered.inStep
    rw [hfinished]
    exact List.rel_append hkept (List.Forall₂.cons hemitted List.Forall₂.nil)
  · refine h.of_schemas hregistered.schemas nofun ?_
    rw [hfinished]
    exact hkept

variable [LT P] [DecidableLT P] {env : Sealing P Key Rng}

/-- Adding a worker keeps what is registered. -/
theorem RegisteredBetween.added (h : RegisteredBetween check b log) {peer : P}
    {status : WorkerStatus} (hadded : AddedWorker profile env b b' peer status) {op : WorkerOp P}
    {r : WorkerResult}
    (hop : ∀ writeSchemaId roster, op ≠ .registerWriteSchema writeSchemaId roster)
    (hlog : finishedWorkerDatasets (log ++ [(op, r)]) = finishedWorkerDatasets log) :
    RegisteredBetween check b' (log ++ [(op, r)]) := by
  have hdatasets : b'.allDatasets = b.allDatasets :=
    congrArg (fun part => part.2.2.2.2) hadded.datasetPart
  refine h.of_schemas hadded.writeSchemas hop ?_
  rw [hlog, hdatasets]
  exact h.datasets

/-- One operation keeps what is registered. -/
theorem RegisteredBetween.step (h : RegisteredBetween check b log) (hbetween : Between check b log)
    {op : WorkerOp P} {r : WorkerResult} (hstep : b.step profile env op = .ok (b', r)) :
    RegisteredBetween check b' (log ++ [(op, r)]) := by
  cases op with
  | registerWriteSchema writeSchemaId tables =>
    cases hstep
    exact h.registerWriteSchema writeSchemaId tables
  | dataset id baseUrl ops finish => exact h.runDataset hbetween hstep
  | addWorker peer status timestamp =>
    obtain ⟨mid, hadd, hout⟩ := Exec.bind_eq_ok.mp hstep
    cases hout
    exact h.added (addWorkerWithTimestamp_added hadd) nofun (finishedWorkerDatasets_snoc_other rfl)
  | addWorkerWithSealedHeaders peer status identity nonce ciphertext =>
    obtain ⟨mid, hadd, hout⟩ := Exec.bind_eq_ok.mp hstep
    cases hout
    exact h.added (addWorkerWithSealedHeaders_added hadd) nofun
      (finishedWorkerDatasets_snoc_other rfl)

/-- Every completed run leaves its rows registered. -/
theorem registeredBetween_of_runScript {secret : String} {rng : Rng} {ops : List (WorkerOp P)}
    (h : runScript (step profile env) ((newWithRng env secret rng).setCheckContinuity check) ops =
      .ok (b, log)) : RegisteredBetween check b log := by
  have h0 : Between check ((newWithRng env secret rng).setCheckContinuity check) [] ∧
      RegisteredBetween check ((newWithRng env secret rng).setCheckContinuity check) [] := by
    refine ⟨⟨rfl, rfl, rfl, rfl, List.Forall₂.nil⟩, ?_, ?_, List.Forall₂.nil⟩
    · simp [newWithRng, setCheckContinuity, SortedMap.get?, SortedMap.empty]
    · simp [newWithRng, setCheckContinuity, SortedMap.get?, SortedMap.empty]
  exact (runScript_invariant
    (I := fun s log => Between check s log ∧ RegisteredBetween check s log)
    (fun s s' op r log hs hstep => ⟨hs.1.step hstep, hs.2.step hs.1 hstep⟩) h0 h).2

end WorkerAssignmentBuilder

/-- The rows behind a dataset that passed the reader's check. -/
theorem RegisteredFrom.rows {check : Bool} {schemas : SortedMap UInt32 (List String)}
    {d : FinishedWorkerDataset} {dataset : WorkerAssignmentDataset}
    (h : RegisteredFrom check schemas d dataset) (hcheck : dataset.check = .ok ()) :
    ∃ lastBlock generations rows,
      dataset = d.staged.toDataset d.id lastBlock d.baseUrl (generationEntries generations) ∧
      d.staged.Encodes rows ∧
      List.Forall₂ (fun calls row => WorkerRow.StagedBy calls row ∧
        row.RegisteredIn schemas generations calls) (appendedCalls check d.log) rows ∧
      ∀ version url, generations.get? version = some url ↔
        (.registerGeneration version url, .generation (.ok ())) ∈ d.log := by
  obtain ⟨lastBlock, generations, rfl, -, hinstep, hlog⟩ := h
  have hnot : ¬d.staged.toStagedColumns.Overflowed := fun hover =>
    hover.not_aligned (WorkerAssignmentDataset.check_eq_ok.mp hcheck).1
  obtain ⟨rows, henc, hrows, -⟩ := hinstep.encodes hnot
  exact ⟨lastBlock, generations, rows, rfl, henc, hrows, hlog⟩

open WorkerAssignmentBuilder in
/-- An accepted blob of a run is the finished table, with every dataset past its checks. -/
theorem accepted_eq_finish {P Key Rng : Type} {fb : FlatBuffers WorkerAssignmentRoot}
    {b : WorkerAssignmentBuilder P Key Rng} {a : WorkerAssignment}
    (haccept : WorkerAssignment.fromOwned fb (fb.finish b.finish) = .ok a) :
    a.reader = b.finish ∧ ∀ dataset ∈ a.datasets, dataset.check = .ok () := by
  obtain ⟨hroot, hchecks⟩ := WorkerAssignment.fromOwned_eq_ok.mp haccept
  rw [fb.root_finish, Except.ok.injEq] at hroot
  exact ⟨hroot.symm, hchecks⟩

open WorkerAssignmentBuilder in
/-- The datasets of an accepted blob are the finished ones, with their rows registered. -/
theorem WorkerAssignmentBuilder.RegisteredBetween.accepted {P Key Rng : Type} {check : Bool}
    {fb : FlatBuffers WorkerAssignmentRoot} {b : WorkerAssignmentBuilder P Key Rng}
    {log : List (WorkerOp P × WorkerResult)} {a : WorkerAssignment}
    (h : RegisteredBetween check b log)
    (haccept : WorkerAssignment.fromOwned fb (fb.finish b.finish) = .ok a) :
    List.Forall₂ (fun d dataset =>
      RegisteredFrom check b.writeSchemas d dataset ∧ dataset.check = .ok ())
      (finishedWorkerDatasets log) a.datasets := by
  obtain ⟨hreader, hchecks⟩ := accepted_eq_finish haccept
  have hdatasets : List.Forall₂ (RegisteredFrom check b.writeSchemas) (finishedWorkerDatasets log)
      a.datasets := by
    rw [WorkerAssignment.datasets, hreader]
    exact h.datasets
  rw [List.forall₂_iff_get] at hdatasets ⊢
  refine ⟨hdatasets.1, fun i hd hdataset => ⟨hdatasets.2 i hd hdataset, ?_⟩⟩
  exact hchecks _ (List.getElem_mem hdataset)

end SqdNetwork.Assignments
