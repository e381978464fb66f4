import Mathlib.Order.Compare
import SqdNetwork.Assignments.Accepted
import SqdNetwork.Assignments.Registered
import SqdNetwork.Assignments.WorkerIds

/-!
# A worker's chunks

A worker's chunks are found by one scan over the routing columns, with its own
clamping of malformed offsets. On every accepted buffer the scan agrees with
reading the workers of each chunk; on a buffer from the builder these are the
workers the chunk was staged with, and the worker's position is where its peer id
was added.
-/

namespace SqdNetwork.Assignments

open SqdNetwork.Core

/-- The chunks of a dataset whose workers name a position. -/
def WorkerAssignmentDataset.chunksOf (d : WorkerAssignmentDataset) (index : UInt16) :
    List WorkerChunk :=
  d.chunks.filter fun chunk => chunk.workerIndexes.passes (·.contains index)

/-- What buffers guarantee for every assignment read from one: vectors count their elements in
32 bits. -/
structure WorkerAssignment.Counted (a : WorkerAssignment) : Prop where
  datasets : a.datasets.length < 2 ^ 32
  chunks : ∀ d ∈ a.datasets, d.chunkCount < 2 ^ 32

/-- Fewer than 2^32 chunks are all enumerated. -/
theorem WorkerAssignmentDataset.chunks_eq {d : WorkerAssignmentDataset}
    (hcount : d.chunkCount < 2 ^ 32) :
    d.chunks = (List.range d.chunkCount).map fun i => ⟨d, UInt32.ofNat i⟩ := by
  rw [WorkerAssignmentDataset.chunks, UInt32.toNat_ofNat_of_lt' hcount]

namespace AssignedWorker

variable {w : AssignedWorker} {d : WorkerAssignmentDataset}

/-- The scan's test of a chunk is a search in the chunk's workers. -/
theorem holds_eq (hcount : d.chunkCount < 2 ^ 32) {i : Nat} (hi : i < d.chunkCount)
    {workers : List UInt16}
    (hworkers : WorkerChunk.workerIndexes ⟨d, UInt32.ofNat i⟩ = .ok workers) :
    w.holds d i = .ok (workers.contains w.index) := by
  have hnat : (UInt32.ofNat i).toNat = i :=
    UInt32.toNat_ofNat_of_lt (Nat.lt_trans hi hcount)
  obtain ⟨start, hstart, hworkers⟩ := Exec.bind_eq_ok.mp hworkers
  obtain ⟨stop, hstop, hworkers⟩ := Exec.bind_eq_ok.mp hworkers
  rw [hnat] at hstart hstop
  rw [holds, hstart, Exec.ok_bind, hstop, Exec.ok_bind, List.contains_eq_any_beq]
  simp only [BEq.comm (a := w.index)]
  exact Exec.anyM_of_mapM hworkers

/-- On a checked dataset the scan finds exactly the chunks that name the worker. -/
theorem holdings_eq (hcheck : d.check = .ok ()) (hcount : d.chunkCount < 2 ^ 32) :
    w.holdings d = .ok (d.chunksOf w.index) := by
  have hscan : ∀ i ∈ List.range d.chunkCount, w.holds d i =
      .ok ((WorkerChunk.workerIndexes ⟨d, UInt32.ofNat i⟩).passes (·.contains w.index)) := by
    intro i hi
    have hi := List.mem_range.mp hi
    have hnat : (UInt32.ofNat i).toNat = i :=
      UInt32.toNat_ofNat_of_lt (Nat.lt_trans hi hcount)
    obtain ⟨workers, hworkers⟩ := (WorkerChunk.readable hcheck (by rwa [hnat])).workerIndexes
    rw [holds_eq hcount hi hworkers, hworkers]
    rfl
  rw [holdings, Exec.filterM_eq_ok hscan, Exec.ok_bind, WorkerAssignmentDataset.chunksOf,
    WorkerAssignmentDataset.chunks_eq hcount, List.filter_map]
  rfl

end AssignedWorker

namespace WorkerAssignment

/-- The chunks that name a position, dataset by dataset, with where each one sits. -/
def refsOf (a : WorkerAssignment) (index : UInt16) : List (ChunkRef × WorkerChunk) :=
  a.datasets.zipIdx.flatMap fun entry =>
    (entry.1.chunksOf index).map fun chunk => (⟨UInt32.ofNat entry.2, chunk.index⟩, chunk)

variable {a : WorkerAssignment} {w : AssignedWorker} {index : UInt16}

/-- A reference leads back to the chunk it stands beside, and to the chunk's dataset. -/
theorem resolve_of_mem_refsOf (hcounted : a.Counted) {entry : ChunkRef × WorkerChunk}
    (h : entry ∈ a.refsOf index) :
    a.getDatasetByRef entry.1 = some entry.2.dataset ∧ a.getChunk entry.1 = some entry.2 := by
  obtain ⟨⟨d, i⟩, hd, h⟩ := List.mem_flatMap.mp h
  obtain ⟨chunk, hchunk, rfl⟩ := List.mem_map.mp h
  have hget : a.datasets[i]? = some d := List.mem_zipIdx_iff_getElem?.mp hd
  obtain ⟨hi, hd⟩ := List.getElem?_eq_some_iff.mp hget
  have hcount := hcounted.chunks d (hd ▸ List.getElem_mem hi)
  have hmem := (List.mem_filter.mp hchunk).1
  rw [WorkerAssignmentDataset.chunks_eq hcount] at hmem
  obtain ⟨j, hj, rfl⟩ := List.mem_map.mp hmem
  have hi32 : (UInt32.ofNat i).toNat = i :=
    UInt32.toNat_ofNat_of_lt' (Nat.lt_trans hi hcounted.datasets)
  have hj32 : (UInt32.ofNat j).toNat = j :=
    UInt32.toNat_ofNat_of_lt' (Nat.lt_trans (List.mem_range.mp hj) hcount)
  have hdataset : a.getDatasetByRef ⟨UInt32.ofNat i, UInt32.ofNat j⟩ = some d := by
    rw [getDatasetByRef, hi32, hget]
  refine ⟨hdataset, ?_⟩
  rw [getChunk, hdataset]
  exact if_pos (by rw [hj32]; exact List.mem_range.mp hj)

/-- Without the references, the chunks of every dataset remain. -/
theorem map_refsOf {β : Type} (f : WorkerChunk → β) :
    (a.refsOf index).map (fun entry => f entry.2) =
      a.datasets.flatMap fun d => (d.chunksOf index).map f := by
  have hzip : a.datasets = a.datasets.zipIdx.map Prod.fst := (List.zipIdx_map_fst 0 _).symm
  conv_rhs => rw [hzip, List.flatMap_map]
  simp only [refsOf, List.map_flatMap, List.map_map]
  rfl

end WorkerAssignment

namespace AssignedWorker

variable {a : WorkerAssignment} {w : AssignedWorker} (hw : w.assignment = a.reader)
  (hchecks : ∀ d ∈ a.datasets, d.check = .ok ()) (hcounted : a.Counted)

include hw hchecks hcounted

theorem iterChunksWithDataset_eq : w.iterChunksWithDataset =
    .ok (a.datasets.flatMap fun d => (d.chunksOf w.index).map fun chunk => (d, chunk)) := by
  have hscan : ∀ d ∈ a.datasets, (w.holdings d >>= fun held =>
      (.ok (held.map fun chunk => (d, chunk)) :
        Exec (List (WorkerAssignmentDataset × WorkerChunk)))) =
      .ok ((d.chunksOf w.index).map fun chunk => (d, chunk)) := by
    intro d hd
    rw [holdings_eq (hchecks d hd) (hcounted.chunks d hd), Exec.ok_bind]
  rw [iterChunksWithDataset, hw]
  exact (congrArg (· >>= _) (Exec.mapM_eq_ok hscan)).trans rfl

theorem iterChunks_eq :
    w.iterChunks = .ok (a.datasets.flatMap fun d => d.chunksOf w.index) := by
  rw [iterChunks, iterChunksWithDataset_eq hw hchecks hcounted, Exec.ok_map]
  simp [List.map_flatMap, Function.comp_def]

theorem iterChunksWithRef_eq : w.iterChunksWithRef = .ok (a.refsOf w.index) := by
  have hscan : ∀ entry ∈ a.datasets.zipIdx, (w.holdings entry.1 >>= fun held =>
      (.ok (held.map fun chunk => (⟨UInt32.ofNat entry.2, chunk.index⟩, chunk)) :
        Exec (List (ChunkRef × WorkerChunk)))) =
      .ok ((entry.1.chunksOf w.index).map fun chunk =>
        (⟨UInt32.ofNat entry.2, chunk.index⟩, chunk)) := by
    intro entry hentry
    have hd : entry.1 ∈ a.datasets := (List.mem_zipIdx' hentry).2 ▸ List.getElem_mem _
    rw [holdings_eq (hchecks _ hd) (hcounted.chunks _ hd), Exec.ok_bind]
  rw [iterChunksWithRef, hw]
  exact (congrArg (· >>= _) (Exec.mapM_eq_ok hscan)).trans rfl

end AssignedWorker

/-- Whether a chunk was staged with a worker position. -/
def stagedWith (position : Nat) (calls : List WorkerChunkCall) : Bool :=
  (WorkerStaged.ofCalls calls).workerIndexes.any fun index => index.toNat == position

theorem stagedWith_toNat (index : UInt16) (calls : List WorkerChunkCall) :
    stagedWith index.toNat calls = (WorkerStaged.ofCalls calls).workerIndexes.contains index := by
  rw [stagedWith, List.contains_eq_any_beq]
  congr 1
  funext other
  rw [Bool.eq_iff_iff, beq_iff_eq, beq_iff_eq, UInt16.toNat_inj, eq_comm]

/-- Where the chunks staged with a worker position sit: the dataset among the finished ones, the
chunk among those appended to it. -/
def stagedPlaces (check : Bool) (position : Nat) (datasets : List FinishedWorkerDataset) :
    List (Nat × Nat) :=
  datasets.zipIdx.flatMap fun entry =>
    ((appendedCalls check entry.1.log).zipIdx.filter fun chunk =>
      stagedWith position chunk.1).map fun chunk => (entry.2, chunk.2)

/-- The positions of a numbered list are all different. -/
theorem pairwise_snd_zipIdx {α : Type} (xs : List α) :
    xs.zipIdx.Pairwise fun x y => x.2 ≠ y.2 := by
  have h : (xs.zipIdx.map Prod.snd).Nodup := by
    rw [List.zipIdx_map_snd]
    exact List.nodup_range'
  exact List.pairwise_map.mp h

/-- No place is listed twice. -/
theorem stagedPlaces_nodup (check : Bool) (position : Nat)
    (datasets : List FinishedWorkerDataset) : (stagedPlaces check position datasets).Nodup := by
  refine List.pairwise_flatMap.mpr ⟨fun entry _ => ?_, ?_⟩
  · rw [List.pairwise_map]
    refine ((pairwise_snd_zipIdx _).sublist List.filter_sublist).imp fun hne he => hne ?_
    exact (Prod.mk.inj he).2
  · refine (pairwise_snd_zipIdx datasets).imp fun hne x hx y hy he => hne ?_
    obtain ⟨_, -, rfl⟩ := List.mem_map.mp hx
    obtain ⟨_, -, rfl⟩ := List.mem_map.mp hy
    exact (Prod.mk.inj he).1

/-- Selecting the positions of a numbered list by their elements is selecting numbers. -/
theorem map_snd_filter_zipIdx {α : Type} (xs : List α) (p : α → Bool) :
    (xs.zipIdx.filter fun x => p x.1).map Prod.snd =
      (List.range xs.length).filter fun i => xs[i]?.any p := by
  have hpred : ∀ x ∈ xs.zipIdx, p x.1 = (xs[x.2]?.any p) := by
    intro x hx
    rw [List.mem_zipIdx_iff_getElem?.mp hx, Option.any_some]
  rw [List.filter_congr hpred, List.range_eq_range', ← List.zipIdx_map_snd 0 xs, List.filter_map]
  rfl

/-- In a dataset that passed the reader's check, the chunks that name a position are those staged
with it. -/
theorem RegisteredFrom.chunksOf {check : Bool} {schemas : SortedMap UInt32 (List String)}
    {d : FinishedWorkerDataset} {dataset : WorkerAssignmentDataset}
    (h : RegisteredFrom check schemas d dataset) (hcheck : dataset.check = .ok ())
    (hcount : dataset.chunkCount < 2 ^ 32) (index : UInt16) :
    (dataset.chunksOf index).map (fun chunk => chunk.index.toNat) =
      ((appendedCalls check d.log).zipIdx.filter fun chunk =>
        stagedWith index.toNat chunk.1).map Prod.snd := by
  obtain ⟨lastBlock, generations, rows, rfl, henc, hrows, -⟩ := h.rows hcheck
  rw [henc.chunkCount_toDataset] at hcount
  rw [map_snd_filter_zipIdx _ (stagedWith index.toNat), hrows.length_eq,
    WorkerAssignmentDataset.chunksOf, WorkerAssignmentDataset.chunks_eq
      (by rwa [henc.chunkCount_toDataset]), henc.chunkCount_toDataset, List.filter_map,
    List.map_map]
  have hnat : ∀ i ∈ List.range rows.length, (UInt32.ofNat i).toNat = i := fun i hi =>
    UInt32.toNat_ofNat_of_lt' (Nat.lt_trans (List.mem_range.mp hi) hcount)
  have hnamed : ∀ i ∈ List.range rows.length,
      (WorkerChunk.workerIndexes ⟨d.staged.toDataset d.id lastBlock d.baseUrl
        (generationEntries generations), UInt32.ofNat i⟩).passes (·.contains index) =
      (appendedCalls check d.log)[i]?.any (stagedWith index.toNat) := by
    intro i hi
    obtain ⟨calls, row, hcalls, hrow, hstaged, -⟩ :=
      StagedColumns.exists_pair_of_forall₂ hrows (List.mem_range.mp hi)
    have hbase : (rows.map WorkerRow.toChunkRow)[(UInt32.ofNat i).toNat]? =
        some row.toChunkRow := by
      rw [hnat i hi, List.getElem?_map, hrow, Option.map_some]
    have hread : WorkerChunk.workerIndexes ⟨d.staged.toDataset d.id lastBlock d.baseUrl
        (generationEntries generations), UInt32.ofNat i⟩ = .ok row.workers :=
      henc.base.workersOf_emit hbase
    rw [hread, hcalls, Option.any_some, stagedWith_toNat, hstaged.workers]
    rfl
  rw [← List.filter_congr hnamed]
  refine (List.map_congr_left fun i hi => ?_).trans (List.map_id _)
  exact hnat i (List.mem_filter.mp hi).1

/-- Numbered lists whose elements correspond give the same list position by position. -/
theorem flatMap_zipIdx_congr {α β γ : Type} {f : α × Nat → List γ} {g : β × Nat → List γ}
    {xs : List α} {ys : List β} (start : Nat)
    (h : List.Forall₂ (fun x y => ∀ i < start + ys.length, f (x, i) = g (y, i)) xs ys) :
    (xs.zipIdx start).flatMap f = (ys.zipIdx start).flatMap g := by
  have hstep : ∀ (xs : List α) (ys : List β) (start : Nat) (bound : Nat),
      start + ys.length ≤ bound →
      List.Forall₂ (fun x y => ∀ i < bound, f (x, i) = g (y, i)) xs ys →
      (xs.zipIdx start).flatMap f = (ys.zipIdx start).flatMap g := by
    intro xs ys start bound hbound h
    induction h generalizing start with
    | nil => rfl
    | cons hxy _ ih =>
      rw [List.length_cons] at hbound
      rw [List.zipIdx_cons, List.zipIdx_cons, List.flatMap_cons, List.flatMap_cons,
        hxy start (by omega), ih (start + 1) (by omega)]
  exact hstep xs ys start _ (Nat.le_refl _) h

/-- The references of the chunks that name a position are the places staged with it. -/
theorem WorkerAssignment.places_refsOf {check : Bool} {schemas : SortedMap UInt32 (List String)}
    {datasets : List FinishedWorkerDataset} {a : WorkerAssignment}
    (h : List.Forall₂ (RegisteredFrom check schemas) datasets a.datasets)
    (hchecks : ∀ d ∈ a.datasets, d.check = .ok ()) (hcounted : a.Counted) (index : UInt16) :
    (a.refsOf index).map (fun entry =>
      (entry.1.datasetIndex.toNat, entry.1.chunkIndex.toNat)) =
      stagedPlaces check index.toNat datasets := by
  rw [refsOf, List.map_flatMap, stagedPlaces]
  symm
  refine flatMap_zipIdx_congr 0 ?_
  rw [List.forall₂_iff_get] at h ⊢
  refine ⟨h.1, fun k hd hdataset i hi => ?_⟩
  have hmem : a.datasets[k] ∈ a.datasets := List.getElem_mem hdataset
  have hchunks := (h.2 k hd hdataset).chunksOf (hchecks _ hmem) (hcounted.chunks _ hmem) index
  have hi32 : (UInt32.ofNat i).toNat = i :=
    UInt32.toNat_ofNat_of_lt' (Nat.lt_trans (by omega) hcounted.datasets)
  rw [List.map_map]
  have hpair := congrArg (List.map fun j => (i, j)) hchunks
  rw [List.map_map, List.map_map] at hpair
  refine hpair.symm.trans (List.map_congr_left fun chunk _ => ?_)
  simp [hi32]

section Workers

variable {P Key Rng : Type}

/-- The workers added in a run, with the status each was added with. -/
def addedWorkers (log : List (WorkerOp P × WorkerResult)) : List (P × WorkerStatus) :=
  log.filterMap fun entry =>
    match entry.1 with
    | .addWorker id status _ => some (id, status)
    | .addWorkerWithSealedHeaders id status _ _ _ => some (id, status)
    | _ => none

variable {profile : Profile} {check : Bool} {b b' : WorkerAssignmentBuilder P Key Rng}
  {log : List (WorkerOp P × WorkerResult)}

open WorkerAssignmentBuilder

/-- A dataset handle's life leaves the workers alone. -/
theorem runDataset_workers (hbetween : Between check b log) {id baseUrl : String}
    {ops : List WorkerDatasetOp} {finish : Bool} {r : WorkerResult}
    (hrun : b.runDataset profile id baseUrl ops finish = .ok (b', r)) :
    b'.workerEntries = b.workerEntries ∧ b'.lastPeerId = b.lastPeerId := by
  obtain ⟨mid, dlog, e, hscript, -, hcases⟩ := runDataset_cases hrun log
  have hframe := (staging_of_runScript hbetween.columns hbetween.lastBlock hscript).frame
  have hmid : mid.workerEntries = b.workerEntries ∧ mid.lastPeerId = b.lastPeerId :=
    ⟨congrArg (fun b => b.workerEntries) hframe, congrArg (fun b => b.lastPeerId) hframe⟩
  rcases hcases with ⟨-, lastBlock, -, -, rfl, -⟩ | ⟨-, rfl, -⟩
  · exact hmid
  · exact hmid

variable [LinearOrder P] {env : Sealing P Key Rng}

/-- The entries are those of the added workers, in ascending order of their ids. -/
structure WorkersAdded (profile : Profile) (env : Sealing P Key Rng)
    (b : WorkerAssignmentBuilder P Key Rng) (log : List (WorkerOp P × WorkerResult)) : Prop where
  entries : List.Forall₂ (fun added entry =>
    workerIdFrom profile (env.toBytes added.1) = .ok entry.workerId ∧
      entry.status = statusToFb added.2) (addedWorkers log) b.workerEntries
  ascending : (addedWorkers log).Pairwise fun x y => x.1 < y.1
  last : b.lastPeerId = (addedWorkers log).getLast?.map Prod.fst

/-- An operation that adds no worker keeps the entries. -/
theorem WorkersAdded.unchanged (h : WorkersAdded profile env b log)
    (hentries : b'.workerEntries = b.workerEntries) (hlast : b'.lastPeerId = b.lastPeerId)
    {op : WorkerOp P} {r : WorkerResult}
    (hlog : addedWorkers (log ++ [(op, r)]) = addedWorkers log) :
    WorkersAdded profile env b' (log ++ [(op, r)]) := by
  constructor
  · rw [hlog, hentries]
    exact h.entries
  · rw [hlog]
    exact h.ascending
  · rw [hlog, hlast]
    exact h.last

/-- An id that ascends past the last one ascends past all. -/
theorem WorkersAdded.lt_of_ascending (h : WorkersAdded profile env b log) {peer : P}
    (hasc : assertAscending b.lastPeerId peer = .ok ()) : ∀ x ∈ addedWorkers log, x.1 < peer := by
  intro x hx
  have hne := List.ne_nil_of_mem hx
  have hlast : b.lastPeerId = some ((addedWorkers log).getLast hne).1 := by
    rw [h.last, List.getLast?_eq_some_getLast hne, Option.map_some]
  have hlt : ((addedWorkers log).getLast hne).1 < peer := by
    rw [hlast] at hasc
    by_contra hnot
    simp [assertAscending, Exec.assert, hnot] at hasc
  have hsplit := List.dropLast_append_getLast hne
  have hsorted := h.ascending
  rw [← hsplit] at hx hsorted
  rcases List.mem_append.mp hx with hx | hx
  · exact ((List.pairwise_append.mp hsorted).2.2 x hx _ (List.mem_singleton_self _)).trans hlt
  · exact List.mem_singleton.mp hx ▸ hlt

/-- Adding a worker appends its entry, past all ids before it. -/
theorem WorkersAdded.added (h : WorkersAdded profile env b log) {peer : P}
    {status : WorkerStatus} (hadded : AddedWorker profile env b b' peer status)
    {op : WorkerOp P} {r : WorkerResult}
    (hlog : addedWorkers (log ++ [(op, r)]) = addedWorkers log ++ [(peer, status)]) :
    WorkersAdded profile env b' (log ++ [(op, r)]) := by
  obtain ⟨slot, headers, hslot, hentries⟩ := hadded.entry
  refine ⟨?_, ?_, ?_⟩
  · rw [hlog, hentries]
    exact List.rel_append h.entries (List.Forall₂.cons ⟨hslot, rfl⟩ List.Forall₂.nil)
  · rw [hlog, List.pairwise_append]
    refine ⟨h.ascending, List.pairwise_singleton _ _, fun x hx y hy => ?_⟩
    obtain rfl := List.mem_singleton.mp hy
    exact h.lt_of_ascending hadded.ascending x hx
  · rw [hlog, hadded.lastPeerId]
    simp

/-- One operation keeps the entries those of the added workers. -/
theorem WorkersAdded.step (h : WorkersAdded profile env b log) (hbetween : Between check b log)
    {op : WorkerOp P} {r : WorkerResult} (hstep : b.step profile env op = .ok (b', r)) :
    WorkersAdded profile env b' (log ++ [(op, r)]) := by
  cases op with
  | registerWriteSchema writeSchemaId tables =>
    have hb : (b.registerWriteSchema writeSchemaId tables).1 = b' :=
      congrArg Prod.fst (Except.ok.inj hstep)
    have hsame : b'.workerEntries = b.workerEntries ∧ b'.lastPeerId = b.lastPeerId := by
      rcases registerWriteSchema_spec b writeSchemaId tables with
        ⟨e, he⟩ | ⟨-, he⟩ | ⟨-, -, he⟩ <;>
      · rw [← hb, he]
        exact ⟨rfl, rfl⟩
    exact h.unchanged hsame.1 hsame.2 (by simp [addedWorkers])
  | dataset id baseUrl ops finish =>
    have hsame := runDataset_workers hbetween hstep
    exact h.unchanged hsame.1 hsame.2 (by simp [addedWorkers])
  | addWorker peer status timestamp =>
    obtain ⟨mid, hadd, hout⟩ := Exec.bind_eq_ok.mp hstep
    cases hout
    exact h.added (addWorkerWithTimestamp_added hadd) (by simp [addedWorkers])
  | addWorkerWithSealedHeaders peer status identity nonce ciphertext =>
    obtain ⟨mid, hadd, hout⟩ := Exec.bind_eq_ok.mp hstep
    cases hout
    exact h.added (addWorkerWithSealedHeaders_added hadd) (by simp [addedWorkers])

/-- Every completed run leaves the entries those of the added workers. -/
theorem workersAdded_of_runScript {secret : String} {rng : Rng} {ops : List (WorkerOp P)}
    (h : runScript (step profile env) ((newWithRng env secret rng).setCheckContinuity check) ops =
      .ok (b, log)) : WorkersAdded profile env b log := by
  have h0 : Between check ((newWithRng env secret rng).setCheckContinuity check) [] ∧
      WorkersAdded profile env ((newWithRng env secret rng).setCheckContinuity check) [] :=
    ⟨⟨rfl, rfl, rfl, rfl, List.Forall₂.nil⟩, List.Forall₂.nil, List.Pairwise.nil, rfl⟩
  exact (runScript_invariant
    (I := fun s log => Between check s log ∧ WorkersAdded profile env s log)
    (fun s s' op r log hs hstep => ⟨hs.1.step hstep, hs.2.step hs.1 hstep⟩) h0 h).2

/-- A slot of 38 bytes is stored whole. -/
theorem workerIdFrom_whole {buf : List UInt8} (hlen : buf.length = 38) {slot : WorkerId}
    (h : workerIdFrom profile buf = .ok slot) : slot.bytes = buf := by
  rw [workerIdFrom, dif_pos (by omega)] at h
  obtain ⟨-, -, h⟩ := Exec.bind_eq_ok.mp h
  cases h
  exact List.take_of_length_le (by omega)

variable {fromBytes : List UInt8 → Option P} {a : WorkerAssignment}

/-- Ids of 38 bytes are read back from the entries. -/
theorem WorkersAdded.parsed (h : WorkersAdded profile env b log)
    (hread : ∀ p, fromBytes (env.toBytes p) = some p)
    (hsize : ∀ added ∈ addedWorkers log, (env.toBytes added.1).length = 38) :
    List.Forall₂ (fun added entry => entry.workerId.tryInto fromBytes = some added.1 ∧
      statusFromFb entry.status = added.2) (addedWorkers log) b.workerEntries := by
  have hentries := h.entries
  rw [List.forall₂_iff_get] at hentries ⊢
  refine ⟨hentries.1, fun i hi hentry => ?_⟩
  obtain ⟨hslot, hstatus⟩ := hentries.2 i hi hentry
  refine ⟨?_, by rw [hstatus, statusFromFb_statusToFb]⟩
  rw [WorkerId.tryInto, workerIdFrom_whole (hsize _ (List.getElem_mem hi)) hslot]
  exact hread _

theorem assignment_of_getWorkerByIndex {w : AssignedWorker} {index : UInt16}
    (h : a.getWorkerByIndex index = .ok w) : w.assignment = a.reader := by
  obtain ⟨worker, -, h⟩ := Exec.bind_eq_ok.mp h
  cases h
  rfl

theorem assignment_of_getWorker {w : AssignedWorker} {id : P}
    (h : a.getWorker fromBytes id = .ok (some w)) : w.assignment = a.reader := by
  obtain ⟨r, -, h⟩ := Exec.bind_eq_ok.mp h
  cases r with
  | none => cases h
  | some i =>
    obtain ⟨worker, -, h⟩ := Exec.bind_eq_ok.mp h
    cases h
    rfl

/-- The search for an id comes to the entry added with it, or the id was never added. -/
theorem getWorker_of_parsed {added : List (P × WorkerStatus)}
    (hparsed : List.Forall₂ (fun added entry => entry.workerId.tryInto fromBytes = some added.1 ∧
      statusFromFb entry.status = added.2) added a.workers)
    (hasc : added.Pairwise fun x y => x.1 < y.1) (id : P) :
    (∃ position status entry, added[position]? = some (id, status) ∧
      statusFromFb entry.status = status ∧ a.getWorker fromBytes id =
        .ok (some ⟨a.reader, entry, UInt16.ofNat position⟩)) ∨
    (id ∉ added.map Prod.fst ∧ a.getWorker fromBytes id = .ok none) := by
  let key : WorkerEntry → P := fun entry => (entry.workerId.tryInto fromBytes).getD id
  have hkeys : a.workers.map key = added.map Prod.fst := by
    refine (StagedColumns.map_eq_map_of_forall₂ (fun added entry h => ?_) hparsed).symm
    simp only [key, h.1, Option.getD_some]
  have hcompare : ∀ entry ∈ a.workers,
      WorkerEntry.compareId fromBytes id entry = .ok (compare (key entry) id) := by
    refine StagedColumns.forall_mem_of_forall₂ (fun added entry h => ?_) hparsed
    rw [WorkerEntry.compareId, h.1]
    simp only [key, h.1, Option.getD_some, Exec.expect_some, Exec.ok_bind]
  have hsorted : a.workers.Pairwise fun x y => compare (key x) (key y) = .lt :=
    ascending_of_keys hkeys (List.pairwise_map.mpr hasc)
  rw [WorkerAssignment.getWorker, lookupIndexByKey_congr hcompare]
  rcases lookupIndexByKey_of_ascending hsorted id with
    ⟨i, entry, hentry, hkey, hlookup⟩ | ⟨hnone, hlookup⟩
  · obtain ⟨hi, rfl⟩ := List.getElem?_eq_some_iff.mp hentry
    obtain ⟨⟨peer, status⟩, worker, hadded, hworker, hparse, hstatus⟩ :=
      StagedColumns.exists_pair_of_forall₂ hparsed hi
    obtain rfl := Option.some.inj (hentry.symm.trans hworker)
    have hpeer : peer = id := by
      rw [← hkey]
      simp only [key, hparse, Option.getD_some]
    subst hpeer
    refine Or.inl ⟨i, status, _, hadded, hstatus, ?_⟩
    rw [hlookup, Exec.ok_bind]
    dsimp only
    rw [Exec.index_of_lt hi, Exec.ok_bind]
  · refine Or.inr ⟨fun hmem => ?_, by rw [hlookup, Exec.ok_bind]⟩
    rw [← hkeys] at hmem
    obtain ⟨entry, hentry, hkey⟩ := List.mem_map.mp hmem
    exact hnone entry hentry hkey

end Workers

/-- A worker's enumerations list the same chunks, each once, sitting at the given places, and the
references lead back to the chunks and to their datasets. -/
def Enumerates (a : WorkerAssignment) (w : AssignedWorker) (places : List (Nat × Nat)) : Prop :=
  ∃ held, w.iterChunksWithRef = .ok held ∧ w.iterChunks = .ok (held.map Prod.snd) ∧
    w.iterChunksWithDataset = .ok (held.map fun entry => (entry.2.dataset, entry.2)) ∧
    held.map (fun entry => (entry.1.datasetIndex.toNat, entry.1.chunkIndex.toNat)) = places ∧
    (held.map Prod.fst).Nodup ∧
    ∀ entry ∈ held, a.getDatasetByRef entry.1 = some entry.2.dataset ∧
      a.getChunk entry.1 = some entry.2

/-- A dataset enumerates its own chunks. -/
theorem dataset_of_mem_chunksOf {d : WorkerAssignmentDataset} {index : UInt16}
    {chunk : WorkerChunk} (h : chunk ∈ d.chunksOf index) : chunk.dataset = d := by
  obtain ⟨i, -, rfl⟩ := List.mem_map.mp (List.mem_filter.mp h).1
  rfl

/-- On the blob of a run, a worker's enumerations list the places staged with its position. -/
theorem enumerates_of_registered {check : Bool} {schemas : SortedMap UInt32 (List String)}
    {datasets : List FinishedWorkerDataset} {a : WorkerAssignment} {w : AssignedWorker}
    (h : List.Forall₂ (RegisteredFrom check schemas) datasets a.datasets)
    (hchecks : ∀ d ∈ a.datasets, d.check = .ok ()) (hcounted : a.Counted)
    (hw : w.assignment = a.reader) :
    Enumerates a w (stagedPlaces check w.index.toNat datasets) := by
  have hplaces := WorkerAssignment.places_refsOf h hchecks hcounted w.index
  refine ⟨a.refsOf w.index, AssignedWorker.iterChunksWithRef_eq hw hchecks hcounted, ?_, ?_,
    hplaces, ?_, fun entry hentry => WorkerAssignment.resolve_of_mem_refsOf hcounted hentry⟩
  · rw [AssignedWorker.iterChunks_eq hw hchecks hcounted]
    exact congrArg Except.ok ((WorkerAssignment.map_refsOf id).trans (by simp)).symm
  · rw [AssignedWorker.iterChunksWithDataset_eq hw hchecks hcounted,
      WorkerAssignment.map_refsOf fun chunk => (chunk.dataset, chunk)]
    refine congrArg Except.ok (List.flatMap_congr fun d _ => List.map_congr_left ?_)
    intro chunk hchunk
    rw [dataset_of_mem_chunksOf hchunk]
  · refine List.Nodup.of_map (fun ref => (ref.datasetIndex.toNat, ref.chunkIndex.toNat)) ?_
    rw [List.map_map]
    exact hplaces ▸ stagedPlaces_nodup check w.index.toNat datasets

/-- Strictly ascending ids have one position each. -/
theorem position_unique {P : Type} [LinearOrder P] {added : List (P × WorkerStatus)}
    (hasc : added.Pairwise fun x y => x.1 < y.1) {i j : Nat} {x y : P × WorkerStatus}
    (hi : added[i]? = some x) (hj : added[j]? = some y) (hid : x.1 = y.1) : i = j := by
  obtain ⟨hilt, rfl⟩ := List.getElem?_eq_some_iff.mp hi
  obtain ⟨hjlt, rfl⟩ := List.getElem?_eq_some_iff.mp hj
  have hget := List.pairwise_iff_getElem.mp hasc
  rcases Nat.lt_trichotomy i j with hlt | rfl | hgt
  · exact absurd hid (hget i j hilt hjlt hlt).ne
  · rfl
  · exact absurd hid.symm (hget j i hjlt hilt hgt).ne

open WorkerAssignmentBuilder in
/-- On the blob of any run whose ids have 38 bytes, an id is found exactly if it was added, and the
worker is served under its narrowed position. -/
theorem lookup_of_runScript {P Key Rng : Type} [LinearOrder P] {profile : Profile}
    {env : Sealing P Key Rng} {fb : FlatBuffers WorkerAssignmentRoot}
    {fromBytes : List UInt8 → Option P} {secret : String} {rng : Rng} {check : Bool}
    {ops : List (WorkerOp P)} {b : WorkerAssignmentBuilder P Key Rng}
    {log : List (WorkerOp P × WorkerResult)} {a : WorkerAssignment}
    (hread : ∀ p, fromBytes (env.toBytes p) = some p)
    (hrun : runScript (step profile env) ((newWithRng env secret rng).setCheckContinuity check)
      ops = .ok (b, log))
    (haccept : WorkerAssignment.fromOwned fb (fb.finish b.finish) = .ok a) (hcounted : a.Counted)
    (hsize : ∀ added ∈ addedWorkers log, (env.toBytes added.1).length = 38) (id : P) :
    (id ∉ (addedWorkers log).map Prod.fst → a.getWorker fromBytes id = .ok none) ∧
    ∀ position status, (addedWorkers log)[position]? = some (id, status) →
      ∃ w, a.getWorker fromBytes id = .ok (some w) ∧ w.index = UInt16.ofNat position ∧
        w.status = status ∧ Enumerates a w (stagedPlaces check (UInt16.ofNat position).toNat
          (finishedWorkerDatasets log)) := by
  obtain ⟨hreader, hchecks⟩ := accepted_eq_finish haccept
  have hworkers := workersAdded_of_runScript hrun
  have hparsed : List.Forall₂ (fun added entry =>
      entry.workerId.tryInto fromBytes = some added.1 ∧ statusFromFb entry.status = added.2)
      (addedWorkers log) a.workers := by
    rw [WorkerAssignment.workers, hreader]
    exact hworkers.parsed hread hsize
  have hdatasets : List.Forall₂ (RegisteredFrom check b.writeSchemas)
      (finishedWorkerDatasets log) a.datasets :=
    ((registeredBetween_of_runScript hrun).accepted haccept).imp fun _ _ h => h.1
  rcases getWorker_of_parsed hparsed hworkers.ascending id with
    ⟨i, status, entry, hadded, hstatus, hget⟩ | ⟨hnot, hget⟩
  · refine ⟨fun hnot => absurd (List.mem_map_of_mem (List.mem_of_getElem? hadded)) hnot,
      fun position status' hposition => ?_⟩
    obtain rfl := position_unique hworkers.ascending hadded hposition rfl
    rw [hadded, Option.some.injEq, Prod.mk.injEq] at hposition
    exact ⟨_, hget, rfl, hstatus.trans hposition.2,
      enumerates_of_registered hdatasets hchecks hcounted rfl⟩
  · refine ⟨fun _ => hget, fun position status hposition => absurd ?_ hnot⟩
    exact List.mem_map_of_mem (List.mem_of_getElem? hposition)

open WorkerAssignmentBuilder in
/-- Worker holdings are exact. On the blob of any run with at most 65536 workers, all with ids of
38 bytes, an id is found exactly if it was added, with its status, and the enumerations list
exactly the chunks staged with its position. On every accepted buffer the enumerations are the
chunks of each dataset filtered by their workers. -/
theorem worker_holdings_exact {P Key Rng : Type} [LinearOrder P] (profile : Profile)
    (env : Sealing P Key Rng) (fb : FlatBuffers WorkerAssignmentRoot)
    (fromBytes : List UInt8 → Option P) (hread : ∀ p, fromBytes (env.toBytes p) = some p) :
    (∀ (secret : String) (rng : Rng) (check : Bool) (ops : List (WorkerOp P))
      (b : WorkerAssignmentBuilder P Key Rng) (log : List (WorkerOp P × WorkerResult))
      (a : WorkerAssignment),
      runScript (step profile env) ((newWithRng env secret rng).setCheckContinuity check) ops =
        .ok (b, log) →
      WorkerAssignment.fromOwned fb (fb.finish b.finish) = .ok a → a.Counted →
      (addedWorkers log).length ≤ 65536 →
      (∀ added ∈ addedWorkers log, (env.toBytes added.1).length = 38) →
      ∀ id, (id ∉ (addedWorkers log).map Prod.fst → a.getWorker fromBytes id = .ok none) ∧
        ∀ position status, (addedWorkers log)[position]? = some (id, status) →
          ∃ w, a.getWorker fromBytes id = .ok (some w) ∧ w.status = status ∧
            Enumerates a w (stagedPlaces check position (finishedWorkerDatasets log))) ∧
    ∀ (buf : fb.Buf) (a : WorkerAssignment), WorkerAssignment.fromOwned fb buf = .ok a →
      a.Counted → ∀ w, ((∃ index, a.getWorkerByIndex index = .ok w) ∨
        ∃ id, a.getWorker fromBytes id = .ok (some w)) →
      (∀ d ∈ a.datasets, ∀ chunk ∈ d.chunks, chunk.workerIndexes.Returns) ∧
      w.iterChunks = .ok (a.datasets.flatMap fun d => d.chunksOf w.index) ∧
      w.iterChunksWithDataset = .ok (a.datasets.flatMap fun d =>
        (d.chunksOf w.index).map fun chunk => (d, chunk)) ∧
      w.iterChunksWithRef = .ok (a.datasets.zipIdx.flatMap fun entry =>
        (entry.1.chunksOf w.index).map fun chunk =>
          (⟨UInt32.ofNat entry.2, chunk.index⟩, chunk)) := by
  constructor
  · intro secret rng check ops b log a hrun haccept hcounted hcount hsize id
    obtain ⟨habsent, hserved⟩ := lookup_of_runScript hread hrun haccept hcounted hsize id
    refine ⟨habsent, fun position status hposition => ?_⟩
    obtain ⟨w, hget, -, hstatus, henum⟩ := hserved position status hposition
    have hlt : position < 65536 :=
      Nat.lt_of_lt_of_le (List.getElem?_eq_some_iff.mp hposition).1 hcount
    rw [UInt16.toNat_ofNat_of_lt' hlt] at henum
    exact ⟨w, hget, hstatus, henum⟩
  · intro buf a haccept hcounted w hfound
    have hchecks : ∀ d ∈ a.datasets, d.check = .ok () :=
      (WorkerAssignment.fromOwned_eq_ok.mp haccept).2
    have hw : w.assignment = a.reader := by
      rcases hfound with ⟨index, hget⟩ | ⟨id, hget⟩
      · exact assignment_of_getWorkerByIndex hget
      · exact assignment_of_getWorker hget
    refine ⟨fun d hd chunk hchunk => ?_, AssignedWorker.iterChunks_eq hw hchecks hcounted,
      AssignedWorker.iterChunksWithDataset_eq hw hchecks hcounted,
      AssignedWorker.iterChunksWithRef_eq hw hchecks hcounted⟩
    have hcount := hcounted.chunks d hd
    rw [WorkerAssignmentDataset.chunks_eq hcount] at hchunk
    obtain ⟨i, hi, rfl⟩ := List.mem_map.mp hchunk
    have hi := List.mem_range.mp hi
    refine (WorkerChunk.readable (hchecks d hd) ?_).workerIndexes
    rwa [UInt32.toNat_ofNat_of_lt' (Nat.lt_trans hi hcount)]

/-- A peer id of 38 bytes past `sampleShortPeer`. -/
def sampleLaterPeer : IdentityPeer := ⟨List.replicate 36 8, by simp⟩

/-- Two workers, the second on one chunk of each of two datasets. -/
def sampleHoldingsRun : List (WorkerOp IdentityPeer) :=
  [.registerWriteSchema 7 ["blocks"],
    .addWorker sampleShortPeer .ok 0,
    .dataset "a" "s3://a" [.chunk [.id sampleIds.1, .blockRange ⟨0, 9⟩, .size 3,
      .writeSchemaId 7, .workerIndexes [0, 1]] true] true,
    .addWorkerWithSealedHeaders sampleLaterPeer .unreliable [] [] [],
    .dataset "b" "s3://b" [
      .chunk [.id sampleIds.2.1, .blockRange ⟨5, 6⟩, .size 4, .writeSchemaId 7] true,
      .chunk [.id sampleIds.2.2, .blockRange ⟨9, 9⟩, .size 5, .writeSchemaId 7,
        .workerIndexes [1]] true] true]

/-- The malformed columns with five workers, of which the last is named. -/
def sampleMalformedWorkers : WorkerAssignmentRoot :=
  { sampleMalformedWorker with
    workers := List.replicate 5 ⟨sampleParsedId, statusToFb .ok, none⟩ }

open WorkerAssignmentBuilder in
theorem worker_holdings_exact_sample :
    (∃ b log a w, runScript (step .release samplePeerSealing)
        ((newWithRng samplePeerSealing "" ()).setCheckContinuity false) sampleHoldingsRun =
          .ok (b, log) ∧
      WorkerAssignment.fromOwned (.plain _) b.finish = .ok a ∧
      a.getWorker IdentityPeer.fromBytes sampleLaterPeer = .ok (some w) ∧
      w.status = .unreliable ∧ Enumerates a w [(0, 0), (1, 1)]) ∧
    ∃ a w, WorkerAssignment.fromOwned (.plain _) sampleMalformedWorkers = .ok a ∧
      a.getWorkerByIndex 4 = .ok w ∧
      w.iterChunks = .ok (a.datasets.flatMap fun d => d.chunksOf 4) := by
  have h := worker_holdings_exact .release samplePeerSealing (.plain _) IdentityPeer.fromBytes
    IdentityPeer.fromBytes_toBytes
  constructor
  · have hrun : (runScript (step .release samplePeerSealing)
        ((newWithRng samplePeerSealing "" ()).setCheckContinuity false)
          sampleHoldingsRun).passes (fun out =>
        (WorkerAssignment.fromOwned (.plain _) out.1.finish).toOption.any (fun a =>
          a.datasets.length < 2 ^ 32 ∧ ∀ d ∈ a.datasets, d.chunkCount < 2 ^ 32) ∧
        (addedWorkers out.2).length ≤ 65536 ∧
        (∀ added ∈ addedWorkers out.2, (IdentityPeer.toBytes added.1).length = 38) ∧
        (addedWorkers out.2)[1]? = some (sampleLaterPeer, .unreliable) ∧
        stagedPlaces false 1 (finishedWorkerDatasets out.2) = [(0, 0), (1, 1)]) = true := by
      decide +kernel
    obtain ⟨⟨b, log⟩, hok, htest⟩ := Exec.exists_of_passes hrun
    obtain ⟨haccept, hcount, hsize, hadded, hplaces⟩ := of_decide_eq_true htest
    obtain ⟨a, haccept, hcounted⟩ := Exec.exists_of_any haccept
    obtain ⟨hdatasets, hchunks⟩ := of_decide_eq_true hcounted
    obtain ⟨w, hget, hstatus, henum⟩ := (h.1 "" () false sampleHoldingsRun b log a hok haccept
      ⟨hdatasets, hchunks⟩ hcount hsize sampleLaterPeer).2 1 .unreliable hadded
    exact ⟨b, log, a, w, hok, haccept, hget, hstatus, hplaces ▸ henum⟩
  · exact ⟨⟨sampleMalformedWorkers⟩, _, rfl, rfl, (h.2 sampleMalformedWorkers _ rfl
      ⟨by decide, by decide⟩ _ (Or.inl ⟨4, rfl⟩)).2.1⟩

end SqdNetwork.Assignments
