import SqdNetwork.Assignments.Lookup
import SqdNetwork.Assignments.Registered

/-!
# Download urls

A chunk's url extends its dataset's base url by the chunk id, for a rewritten
chunk with the storage prefix of its version in between. A finished chunk's
version is registered on its own dataset, so in an accepted blob every url
resolves, and only the dataset's own registrations enter it.
-/

namespace SqdNetwork.Assignments

open SqdNetwork.Core

/-- Two parts of a url with one separator added unless the first part ends in it. -/
def joinSlash (url rest : String) : String :=
  if url.toList.getLast? = some '/' then url ++ rest else url ++ "/" ++ rest

theorem pushSlash_append (url rest : String) : pushSlash url ++ rest = joinSlash url rest := by
  unfold pushSlash endsWithSlash joinSlash
  by_cases h : url.toList.getLast? = some '/'
  · simp [h]
  · simp [h]

/-- A prefix without its leading separators. -/
def withoutLeadingSlashes (segment : String) : String :=
  String.ofList (segment.toList.dropWhile (· == '/'))

theorem pushSegment_eq (url segment : String) :
    pushSegment url segment = joinSlash url (withoutLeadingSlashes segment) := by
  rw [← pushSlash_append]
  rfl

/-- The url of a chunk staged by the given calls: from the base url alone for the ingested
version, else through the prefix that the dataset's own log registers for the version. -/
structure UrlResolves (d : FinishedWorkerDataset) (calls : List WorkerChunkCall)
    (chunk : WorkerChunk) : Prop where
  ingested : (WorkerStaged.ofCalls calls).version = 0 →
    ∃ id, (WorkerStaged.ofCalls calls).id = some id ∧
      chunk.url = .ok (some (joinSlash d.baseUrl (toString id)))
  rewritten : (WorkerStaged.ofCalls calls).version ≠ 0 →
    ∃ id segment, (WorkerStaged.ofCalls calls).id = some id ∧
      (.registerGeneration (WorkerStaged.ofCalls calls).version segment,
        .generation (.ok ())) ∈ d.log ∧
      (∀ other, (.registerGeneration (WorkerStaged.ofCalls calls).version other,
        .generation (.ok ())) ∈ d.log → other = segment) ∧
      chunk.url = .ok (some (joinSlash
        (joinSlash d.baseUrl (withoutLeadingSlashes segment)) (toString id)))

/-- Emitted generations are found by their version. -/
theorem getGeneration_of_entries {generations : SortedMap UInt32 String}
    {d : WorkerAssignmentDataset} (hd : d.generations = generationEntries generations)
    (version : UInt32) :
    d.getGeneration version =
      .ok ((generations.get? version).map fun segment => ⟨version, segment⟩) := by
  rw [WorkerAssignmentDataset.getGeneration, hd, generationEntries]
  by_cases hempty : generations.entries = []
  · rw [if_pos (by simpa using hempty)]
    simp [SortedMap.get?, hempty]
  · rw [if_neg (by simpa using hempty)]
    exact lookupByKey_entries generations GenerationEntry.version
      (fun entry => ⟨entry.1, entry.2⟩) (fun _ => rfl) version

section Emitted

variable {c : WorkerDatasetColumns} {rows : List WorkerRow} {id baseUrl : String}
  {lastBlock : UInt64} {generations : SortedMap UInt32 String} {index : UInt32} {row : WorkerRow}

/-- Once the part before the id is settled, the url is read off the row's columns. -/
theorem WorkerDatasetColumns.Encodes.url_toDataset (h : c.Encodes rows)
    (hrow : rows[index.toNat]? = some row) {url : String}
    (hurl : (row.version = 0 ∧ url = baseUrl) ∨ (row.version ≠ 0 ∧ ∃ segment,
      generations.get? row.version = some segment ∧ url = pushSegment baseUrl segment)) :
    WorkerChunk.url ⟨c.toDataset id lastBlock baseUrl (generationEntries generations), index⟩ =
      .ok (some (joinSlash url (toString row.id))) := by
  have hbase : (rows.map WorkerRow.toChunkRow)[index.toNat]? = some row.toChunkRow := by
    rw [List.getElem?_map, hrow, Option.map_some]
  have hhash := h.base.hash_emit hbase
  have hversion := h.base.version_emit hbase
  have htop := h.base.top_emit hbase
  have hfirst := h.base.firstBlock_emit hbase
  have hlast := h.base.lastBlock_emit hbase
  unfold WorkerChunk.url WorkerChunk.hash WorkerChunk.version WorkerChunk.top
    WorkerChunk.firstBlock WorkerChunk.lastBlock
  simp only [WorkerDatasetColumns.toDataset, hhash, hversion, htop, hfirst, hlast, Exec.ok_bind]
  rcases hurl with ⟨hzero, rfl⟩ | ⟨hne, segment, hsegment, rfl⟩
  · rw [if_neg (not_not.mpr hzero)]
    simp only [Exec.ok_bind, pushChunkId_eq, Exec.ok_map, pushSlash_append]
    rfl
  · rw [if_pos hne, getGeneration_of_entries rfl, hsegment]
    simp only [Option.map_some, Exec.ok_bind, pushChunkId_eq, Exec.ok_map, pushSlash_append]
    rfl

end Emitted

/-- Every chunk of a dataset that passed the reader's check has its url. -/
theorem RegisteredFrom.urlResolves {check : Bool} {schemas : SortedMap UInt32 (List String)}
    {d : FinishedWorkerDataset} {dataset : WorkerAssignmentDataset}
    (h : RegisteredFrom check schemas d dataset) (hcheck : dataset.check = .ok ())
    {index : UInt32} {chunk : WorkerChunk} (hchunk : dataset.chunk index = some chunk) :
    ∃ calls, (appendedCalls check d.log)[index.toNat]? = some calls ∧
      UrlResolves d calls chunk := by
  obtain ⟨lastBlock, generations, rows, rfl, henc, hrows, hlog⟩ := h.rows hcheck
  unfold WorkerAssignmentDataset.chunk at hchunk
  split at hchunk
  · next hindex =>
    cases hchunk
    rw [henc.chunkCount_toDataset] at hindex
    obtain ⟨calls, row, hcalls, hrow, hstaged, hregistered⟩ :=
      StagedColumns.exists_pair_of_forall₂ hrows hindex
    refine ⟨calls, hcalls, ?_, ?_⟩
    · intro hzero
      refine ⟨row.id, hstaged.id, henc.url_toDataset hrow (Or.inl ⟨?_, rfl⟩)⟩
      rw [← hstaged.version, hzero]
    · intro hne
      rw [hstaged.version] at hne ⊢
      obtain ⟨segment, hsegment⟩ := hregistered.generation.resolve_left hne
      refine ⟨row.id, segment, hstaged.id, (hlog _ _).mp hsegment, fun other hother => ?_, ?_⟩
      · exact Option.some.inj (((hlog _ _).mpr hother).symm.trans hsegment)
      · rw [← pushSegment_eq]
        exact henc.url_toDataset hrow (Or.inr ⟨hne, segment, hsegment, rfl⟩)
  · cases hchunk

open WorkerAssignmentBuilder in
/-- In the accepted blob of any run every chunk has a url: its dataset's base url joined with the
chunk id, through the prefix registered on the same dataset for a version above zero. -/
theorem chunk_urls_resolve {P Key Rng : Type} [LT P] [DecidableLT P] (profile : Profile)
    (env : Sealing P Key Rng) (fb : FlatBuffers WorkerAssignmentRoot) (secret : String)
    (rng : Rng) (check : Bool) (ops : List (WorkerOp P)) (b : WorkerAssignmentBuilder P Key Rng)
    (log : List (WorkerOp P × WorkerResult)) (a : WorkerAssignment)
    (hrun : runScript (step profile env) ((newWithRng env secret rng).setCheckContinuity check)
      ops = .ok (b, log))
    (haccept : WorkerAssignment.fromOwned fb (fb.finish b.finish) = .ok a) :
    List.Forall₂ (fun d dataset => ∀ (index : UInt32) (chunk : WorkerChunk),
      dataset.chunk index = some chunk →
      ∃ calls, (appendedCalls check d.log)[index.toNat]? = some calls ∧ UrlResolves d calls chunk)
      (finishedWorkerDatasets log) a.datasets := by
  refine ((registeredBetween_of_runScript hrun).accepted haccept).imp ?_
  rintro d dataset ⟨hregistered, hcheck⟩ index chunk hchunk
  exact hregistered.urlResolves hcheck hchunk

open WorkerAssignmentBuilder in
theorem chunk_urls_resolve_sample :
    ∃ b log a, runScript (step .release sampleSealing)
        ((newWithRng sampleSealing "" ()).setCheckContinuity false) sampleWorkerRun =
          .ok (b, log) ∧
      WorkerAssignment.fromOwned (.plain _) b.finish = .ok a ∧
      (finishedWorkerDatasets log).length = 2 ∧
      List.Forall₂ (fun d dataset => ∀ (index : UInt32) (chunk : WorkerChunk),
        dataset.chunk index = some chunk →
        ∃ calls, (appendedCalls false d.log)[index.toNat]? = some calls ∧
          UrlResolves d calls chunk) (finishedWorkerDatasets log) a.datasets := by
  have hrun : (runScript (step .release sampleSealing)
      ((newWithRng sampleSealing "" ()).setCheckContinuity false) sampleWorkerRun).passes
      (fun out => (WorkerAssignment.fromOwned (.plain _) out.1.finish).toOption.isSome ∧
        (finishedWorkerDatasets out.2).length = 2) = true := by decide
  obtain ⟨⟨b, log⟩, hok, htest⟩ := Exec.exists_of_passes hrun
  obtain ⟨haccept, hlen⟩ := of_decide_eq_true htest
  obtain ⟨a, haccept⟩ := Exec.exists_of_isSome haccept
  exact ⟨b, log, a, hok, haccept, hlen, chunk_urls_resolve .release sampleSealing (.plain _) "" ()
    false sampleWorkerRun b log a hok haccept⟩

end SqdNetwork.Assignments
