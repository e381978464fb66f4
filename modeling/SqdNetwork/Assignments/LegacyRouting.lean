import SqdNetwork.Assignments.Legacy
import SqdNetwork.Assignments.Routing
import SqdNetwork.Assignments.WorkerRoundTrip

/-!
# Block lookups before and after the split

The legacy reader and the portal reader bisect the same first blocks, one by a
three-way search, one by a predicate, and guard the answer by the same last block.
On datasets staged with the same ascending ranges they come to the same chunk; the
portal alone knows where that chunk ends and refuses a block in the gap behind it.
-/

namespace SqdNetwork.Assignments

open SqdNetwork.Core

/-- The chunks appended on the legacy builder, as the calls that staged them: dataset by dataset,
and those not yet closed. -/
structure LegacyStaged where
  finished : List (List (List ChunkCall)) := []
  current : List (List ChunkCall) := []

/-- What one operation and its report add. -/
def LegacyStaged.apply {P : Type} (check : Bool) (s : LegacyStaged) :
    AssignmentOp P × AssignmentResult → LegacyStaged
  | (.chunk calls _, .chunk e) =>
    if e.appended check then { s with current := s.current ++ [calls] } else s
  | (.finishDataset, .finished) => ⟨s.finished ++ [s.current], []⟩
  | _ => s

/-- Everything staged in a run. -/
def legacyStaged {P : Type} (check : Bool) (log : List (AssignmentOp P × AssignmentResult)) :
    LegacyStaged :=
  log.foldl (LegacyStaged.apply check) {}

theorem legacyStaged_snoc {P : Type} (check : Bool)
    (log : List (AssignmentOp P × AssignmentResult)) (entry : AssignmentOp P × AssignmentResult) :
    legacyStaged check (log ++ [entry]) = (legacyStaged check log).apply check entry := by
  simp [legacyStaged]

/-- The block ranges staged for the chunks of a dataset. -/
def legacyRanges (chunks : List (List ChunkCall)) : List BlockRange :=
  chunks.filterMap fun calls => (ChunkBuilder.ofCalls calls).blockRange

/-- The id a dataset is closed under: the one staged for its last chunk. -/
def legacyId (chunks : List (List ChunkCall)) : Option String :=
  chunks.getLast?.bind fun calls => (ChunkBuilder.ofCalls calls).datasetId

/-- A chunk table holds what the calls staged. -/
structure Chunk.StagedBy (calls : List ChunkCall) (chunk : Chunk) : Prop where
  blockRange : (ChunkBuilder.ofCalls calls).blockRange.map BlockRange.start =
    some chunk.firstBlock
  id : (ChunkBuilder.ofCalls calls).id = some chunk.id
  datasetId : (ChunkBuilder.ofCalls calls).datasetId = some chunk.datasetId
  size : (ChunkBuilder.ofCalls calls).size = some chunk.size
  lastBlockHash : (ChunkBuilder.ofCalls calls).lastBlockHash = chunk.lastBlockHash
  lastBlockTimestamp : (ChunkBuilder.ofCalls calls).lastBlockTimestamp = chunk.lastBlockTimestamp
  datasetBaseUrl : (ChunkBuilder.ofCalls calls).datasetBaseUrl = some chunk.datasetBaseUrl
  baseUrl : (ChunkBuilder.ofCalls calls).id = some chunk.baseUrl
  files : (ChunkBuilder.ofCalls calls).files = some chunk.files
  workerIndexes : (ChunkBuilder.ofCalls calls).workerIndexes = some chunk.workerIndexes

/-- A dataset table holds the chunks of its calls. -/
structure Dataset.EmittedFrom (staged : List (List ChunkCall)) (d : Dataset) : Prop where
  id : legacyId staged = some d.id
  chunks : List.Forall₂ Chunk.StagedBy staged d.chunks
  lastBlock : (legacyRanges staged).getLast?.map BlockRange.stop = some d.lastBlock

/-- Chunk tables start where their ranges were staged to start. -/
theorem firstBlocks_of_staged {chunks : List (List ChunkCall)} {tables : List Chunk}
    (h : List.Forall₂ Chunk.StagedBy chunks tables) :
    tables.map Chunk.firstBlock = (legacyRanges chunks).map BlockRange.start := by
  induction h with
  | nil => rfl
  | cons hchunk _ ih =>
    obtain ⟨range, hrange, hfirst⟩ := Option.map_eq_some_iff.mp hchunk.blockRange
    rw [legacyRanges, List.filterMap_cons, hrange, List.map_cons, List.map_cons, ih, hfirst]
    rfl

namespace AssignmentBuilder

variable {P Key Rng : Type} {profile : Profile} {b b' : AssignmentBuilder P Key Rng}
  {check : Bool} {s : LegacyStaged}

/-- The builder holds what was staged. -/
structure InStep (check : Bool) (b : AssignmentBuilder P Key Rng) (s : LegacyStaged) : Prop where
  checkContinuity : b.checkContinuity = check
  current : List.Forall₂ Chunk.StagedBy s.current b.currentChunks
  lastBlock : b.lastBlock = (legacyRanges s.current).getLast?.map BlockRange.stop
  datasetId : b.currentDatasetId = legacyId s.current
  datasets : List.Forall₂ Dataset.EmittedFrom s.finished b.allDatasets

/-- A continuity report means that the chunk was appended exactly if the builder says so. -/
theorem appended_of_continuity {start : UInt64} {r : Outcome} {last : Option UInt64}
    (h : continuityOf profile last start = .ok r) (check : Bool) :
    appended check r = true ↔ r = .ok () ∨ ¬ check := by
  rcases continuityOf_cases h with rfl | ⟨last, rfl⟩
  · simp [appended]
  · simp [appended]

/-- A finished handle hands the table of its calls to the builder. -/
theorem finish_adds {calls : List ChunkCall} {out : AssignmentBuilder P Key Rng × Outcome}
    (h : (ChunkBuilder.ofCalls calls).finish profile b = .ok out) :
    ∃ chunk dataset range, Chunk.StagedBy calls chunk ∧
      (ChunkBuilder.ofCalls calls).blockRange = some range ∧
      (ChunkBuilder.ofCalls calls).datasetId = some dataset ∧
      b.addChunk profile chunk dataset range = .ok out := by
  obtain ⟨range, hrange, h⟩ := Exec.bind_eq_ok.mp h
  obtain ⟨size, hsize, h⟩ := Exec.bind_eq_ok.mp h
  obtain ⟨id, hid, h⟩ := Exec.bind_eq_ok.mp h
  obtain ⟨datasetId, hdatasetId, h⟩ := Exec.bind_eq_ok.mp h
  obtain ⟨url, hurl, h⟩ := Exec.bind_eq_ok.mp h
  obtain ⟨baseUrl, hbaseUrl, h⟩ := Exec.bind_eq_ok.mp h
  obtain ⟨files, hfiles, h⟩ := Exec.bind_eq_ok.mp h
  obtain ⟨workers, hworkers, h⟩ := Exec.bind_eq_ok.mp h
  refine ⟨_, datasetId, range, ?_, Exec.expect_eq_ok hrange, Exec.expect_eq_ok hdatasetId, h⟩
  exact {
    blockRange := by rw [Exec.expect_eq_ok hrange, Option.map_some]
    id := Exec.expect_eq_ok hid
    datasetId := Exec.expect_eq_ok hdatasetId
    size := Exec.expect_eq_ok hsize
    lastBlockHash := rfl
    lastBlockTimestamp := rfl
    datasetBaseUrl := Exec.expect_eq_ok hurl
    baseUrl := Exec.expect_eq_ok hbaseUrl
    files := Exec.expect_eq_ok hfiles
    workerIndexes := Exec.expect_eq_ok hworkers }

/-- A chunk handle's life keeps the builder in step. -/
theorem InStep.runChunk (h : InStep check b s) {calls : List ChunkCall} {finish : Bool}
    {e : ChunkEnd} (hrun : b.runChunk profile calls finish = .ok (b', e)) :
    InStep check b'
      (if e.appended check then { s with current := s.current ++ [calls] } else s) := by
  cases finish with
  | false =>
    cases hrun
    exact h
  | true =>
    obtain ⟨⟨mid, r⟩, hfinish, hrun⟩ := Exec.bind_eq_ok.mp hrun
    cases hrun
    obtain ⟨chunk, dataset, range, hchunk, hrange, hdataset, hadd⟩ := finish_adds hfinish
    obtain ⟨result, hcontinuity, hadd⟩ := Exec.bind_eq_ok.mp hadd
    have happended : (ChunkEnd.finished result).appended check = true ↔ result = .ok () ∨ ¬ check :=
      appended_of_continuity hcontinuity check
    rw [h.checkContinuity] at hadd
    split at hadd
    · next happend =>
      cases hadd
      rw [if_pos (happended.mpr happend)]
      refine ⟨rfl, ?_, ?_, ?_, h.datasets⟩
      · exact List.rel_append h.current (List.Forall₂.cons hchunk List.Forall₂.nil)
      · simp [legacyRanges, hrange]
      · simp [legacyId, hdataset]
    · next happend =>
      cases hadd
      rw [if_neg fun ha => happend (happended.mp ha)]
      exact h

/-- Closing a dataset keeps the builder in step. -/
theorem InStep.finishDataset (h : InStep check b s) (hrun : b.finishDataset = .ok b') :
    InStep check b' ⟨s.finished ++ [s.current], []⟩ := by
  obtain ⟨lastBlock, hlast, hrun⟩ := Exec.bind_eq_ok.mp hrun
  obtain ⟨id, hid, hrun⟩ := Exec.bind_eq_ok.mp hrun
  cases hrun
  have hemitted : Dataset.EmittedFrom s.current ⟨id, b.currentChunks, lastBlock⟩ :=
    ⟨h.datasetId.symm.trans (Exec.expect_eq_ok hid), h.current,
      h.lastBlock.symm.trans (Exec.expect_eq_ok hlast)⟩
  exact ⟨h.checkContinuity, List.Forall₂.nil, rfl, rfl,
    List.rel_append h.datasets (List.Forall₂.cons hemitted List.Forall₂.nil)⟩

variable [LT P] [DecidableLT P] {env : Sealing P Key Rng}
  {log : List (AssignmentOp P × AssignmentResult)}

/-- Adding a worker touches the workers and the random source only. -/
theorem addWorker_frame {peer : P} {status : WorkerStatus} {timestamp : Nat}
    (h : b.addWorkerWithTimestamp profile env peer status timestamp = .ok b') :
    ∃ rng workers,
      b' = { b with lastPeerId := some peer, rng := rng, workerAssignments := workers } := by
  obtain ⟨⟨⟩, -, h⟩ := Exec.bind_eq_ok.mp h
  obtain ⟨slot, -, h⟩ := Exec.bind_eq_ok.mp h
  have hseal : ∃ rng, (generateEncryptedHeaders env { b with lastPeerId := some peer } peer
      timestamp).1 = { b with lastPeerId := some peer, rng := rng } := by
    unfold generateEncryptedHeaders
    dsimp only
    split <;> exact ⟨_, rfl⟩
  obtain ⟨rng, hrng⟩ := hseal
  have hb : { (generateEncryptedHeaders env { b with lastPeerId := some peer } peer timestamp).1
      with workerAssignments := (generateEncryptedHeaders env { b with lastPeerId := some peer }
        peer timestamp).1.workerAssignments ++ [⟨slot, statusToFb status,
          (generateEncryptedHeaders env { b with lastPeerId := some peer } peer
            timestamp).2⟩] } = b' := Except.ok.inj h
  rw [hrng] at hb
  exact ⟨rng, _, hb.symm⟩

/-- Adding a worker leaves the datasets alone. -/
theorem InStep.addWorker (h : InStep check b s) {peer : P} {status : WorkerStatus}
    {timestamp : Nat}
    (hadd : b.addWorkerWithTimestamp profile env peer status timestamp = .ok b') :
    InStep check b' s := by
  obtain ⟨rng, workers, rfl⟩ := addWorker_frame hadd
  exact ⟨h.checkContinuity, h.current, h.lastBlock, h.datasetId, h.datasets⟩

/-- One operation keeps the builder in step. -/
theorem InStep.step (h : InStep check b (legacyStaged check log)) {op : AssignmentOp P}
    {r : AssignmentResult} (hstep : b.step profile env op = .ok (b', r)) :
    InStep check b' (legacyStaged check (log ++ [(op, r)])) := by
  rw [legacyStaged_snoc]
  cases op with
  | chunk calls finish =>
    obtain ⟨⟨mid, e⟩, hrun, hout⟩ := Exec.bind_eq_ok.mp hstep
    cases hout
    exact h.runChunk hrun
  | finishDataset =>
    obtain ⟨mid, hrun, hout⟩ := Exec.bind_eq_ok.mp hstep
    cases hout
    exact h.finishDataset hrun
  | addWorker peer status timestamp =>
    obtain ⟨mid, hadd, hout⟩ := Exec.bind_eq_ok.mp hstep
    cases hout
    exact h.addWorker hadd

/-- Every completed run leaves the builder in step. -/
theorem inStep_of_runScript {secret : String} {rng : Rng} {ops : List (AssignmentOp P)}
    (h : runScript (step profile env) ((newWithRng env secret rng).setCheckContinuity check) ops =
      .ok (b, log)) : InStep check b (legacyStaged check log) := by
  have h0 : InStep check ((newWithRng env secret rng).setCheckContinuity check)
      (legacyStaged check ([] : List (AssignmentOp P × AssignmentResult))) :=
    ⟨rfl, List.Forall₂.nil, rfl, rfl, List.Forall₂.nil⟩
  exact runScript_invariant (I := fun s log => InStep check s (legacyStaged check log))
    (fun s s' op r log hs hstep => hs.step hstep) h0 h

end AssignmentBuilder

/-- The three-way search over elements is the one over their positions. -/
theorem binarySearchBy_spec {α : Type} (v : List α) (cmp : α → Ordering) :
    binarySearchBy v cmp = .ok (signedIndex (keyOrder v cmp) (-1) v.length) ∧
      SearchEnd (keyOrder v cmp) v.length (signedIndex (keyOrder v cmp) (-1) v.length) := by
  constructor
  · refine signedSearch_eq_pure (Int.le_refl _) ?_
    intro i _ hi
    have hi : i < v.length := by omega
    rw [Exec.index_of_lt hi, Exec.ok_bind]
    exact congrArg Except.ok (keyOrder_of_lt hi).symm
  · exact signedIndex_end (Int.le_refl _) (by omega) (Int.le_refl _) (Or.inl rfl) (Or.inl rfl)

/-- On ascending ranges the three-way search ends on the last chunk that starts at or before the
block. -/
theorem binarySearchBy_firstBlock {chunks : List Chunk} {ranges : List BlockRange}
    (hfirst : chunks.map Chunk.firstBlock = ranges.map BlockRange.start)
    (hsep : Separated BlockRange.first BlockRange.last ranges) (block : UInt64) :
    ∃ r, binarySearchBy chunks (fun chunk => compare chunk.firstBlock block) = .ok r ∧
      foundOrBelow r = if (ranges.takeWhile fun r => r.first ≤ block.toNat).length = 0 then none
        else some ((ranges.takeWhile fun r => r.first ≤ block.toNat).length - 1) := by
  have hlen : chunks.length = ranges.length := by simpa using congrArg List.length hfirst
  have hget : ∀ i : Nat, chunks[i]?.map Chunk.firstBlock = ranges[i]?.map BlockRange.start := by
    intro i
    rw [← List.getElem?_map, hfirst, List.getElem?_map]
  obtain ⟨hsearch, hend⟩ :=
    binarySearchBy_spec chunks fun chunk => compare chunk.firstBlock block
  have horder : ∀ (i : Nat) range, ranges[i]? = some range →
      keyOrder chunks (fun chunk => compare chunk.firstBlock block) i =
        compare range.start block := by
    intro i range hrange
    have hi : i < chunks.length := hlen ▸ (List.getElem?_eq_some_iff.mp hrange).1
    have hstart := hget i
    rw [hrange, List.getElem?_eq_getElem hi, Option.map_some, Option.map_some,
      Option.some.injEq] at hstart
    rw [← hstart]
    exact keyOrder_of_lt hi
  refine ⟨_, hsearch, hend.foundOrBelow_eq ?_ (fun i hi => ?_) fun i hi heq => ?_⟩
  · rw [hlen]
    exact (List.takeWhile_sublist _).length_le
  · have hrange := List.getElem?_eq_getElem (hlen ▸ hi)
    rw [horder i _ hrange, ← hsep.start_le_iff hrange, BlockRange.first, ← UInt64.le_iff_toNat_le,
      ne_eq, Std.compare_eq_gt, UInt64.not_lt]
  · have hrange := List.getElem?_eq_getElem (hlen ▸ hi)
    rw [horder i _ hrange] at heq
    have hstart : ranges[i].first = block.toNat :=
      congrArg UInt64.toNat (Std.LawfulEqCmp.eq_of_compare heq)
    have hlead := (hsep.start_le_iff hrange block.toNat).mp (Nat.le_of_eq hstart)
    by_contra hne
    have hlt : i + 1 < ranges.length := by
      have hle := (List.takeWhile_sublist (l := ranges)
        fun r => decide (r.first ≤ block.toNat)).length_le
      omega
    have hnext := List.getElem?_eq_getElem hlt
    have hbefore := (hsep.start_le_iff hnext block.toNat).mpr (by omega)
    have happart := hsep.stop_lt_start (Nat.lt_succ_self i) hrange hnext
    have hproper := hsep.proper _ (List.mem_of_getElem? hrange)
    omega

/-- On a dataset with ascending ranges the legacy lookup answers by the last chunk that starts at
or before the block. -/
theorem Assignment.findChunk_cases {a : Assignment} {name : String} {d : Dataset}
    (hget : a.getDataset name = .ok (some d)) {ranges : List BlockRange}
    (hfirst : d.chunks.map Chunk.firstBlock = ranges.map BlockRange.start)
    (hsep : Separated BlockRange.first BlockRange.last ranges) (block : UInt64) :
    (block > d.lastBlock ∧ a.findChunk name block = .ok (.error .afterLast)) ∨
    (¬ block > d.lastBlock ∧ (ranges.takeWhile fun r => r.first ≤ block.toNat).length = 0 ∧
      a.findChunk name block = .ok (.error .beforeFirst)) ∨
    (¬ block > d.lastBlock ∧ ∃ i chunk,
      (ranges.takeWhile fun r => r.first ≤ block.toNat).length = i + 1 ∧
      d.chunks[i]? = some chunk ∧ a.findChunk name block = .ok (.ok chunk)) := by
  rw [findChunk, hget, Exec.ok_bind]
  dsimp only
  by_cases hb : block > d.lastBlock
  · exact Or.inl ⟨hb, by rw [if_pos hb]⟩
  · obtain ⟨r, hsearch, hbelow⟩ := binarySearchBy_firstBlock hfirst hsep block
    rw [if_neg hb, hsearch, Exec.ok_bind]
    cases hk : (ranges.takeWhile fun r => r.first ≤ block.toNat).length with
    | zero =>
      rw [hk, if_pos rfl] at hbelow
      cases r with
      | ok i => cases hbelow
      | error below =>
        obtain rfl : below = none := hbelow
        exact Or.inr (Or.inl ⟨hb, rfl, rfl⟩)
    | succ i =>
      rw [hk, if_neg (Nat.succ_ne_zero i), Nat.add_sub_cancel] at hbelow
      have hi : i < d.chunks.length := by
        have hlen : d.chunks.length = ranges.length := by simpa using congrArg List.length hfirst
        have hle := (List.takeWhile_sublist (l := ranges)
          fun r => decide (r.first ≤ block.toNat)).length_le
        omega
      refine Or.inr (Or.inr ⟨hb, i, _, rfl, List.getElem?_eq_getElem hi, ?_⟩)
      cases r with
      | ok j =>
        obtain rfl : j = i := Option.some.inj hbelow
        simp only [Exec.index_of_lt hi, Exec.ok_map]
      | error below =>
        obtain rfl : below = some i := hbelow
        simp only [Exec.index_of_lt hi, Exec.ok_map]

/-- The two readers come to the same place: they refuse a block alike, or come to the same chunk
of the same dataset, which the portal refuses exactly if its staged range ends before the
block. -/
def SameAnswer (staged : List (String × List BlockRange)) (old : Assignment)
    (new : PortalAssignment) (name : String) (block : UInt64) : Prop :=
  (∃ e, e ≠ .inGap ∧ old.findChunk name block = .ok (.error e) ∧
    new.findChunk name block = .ok (.error e)) ∨
  ∃ (k i : Nat) (ranges : List BlockRange) (range : BlockRange) (d : Dataset) (chunk : Chunk)
    (dataset : PortalAssignmentDataset) (index : UInt32),
    staged[k]? = some (name, ranges) ∧ ranges[i]? = some range ∧
    old.datasets[k]? = some d ∧ d.chunks[i]? = some chunk ∧
    new.datasets[k]? = some dataset ∧ index.toNat = i ∧
    old.findChunk name block = .ok (.ok chunk) ∧
    new.findChunk name block =
      .ok (if range.stop < block then .error .inGap else .ok ⟨dataset, index⟩)

/-- Datasets under the same name with the same ascending ranges answer alike. -/
theorem sameAnswer_of_datasets {staged : List (String × List BlockRange)} {old : Assignment}
    {new : PortalAssignment} {name : String} {k : Nat} {ranges : List BlockRange} {d : Dataset}
    {dataset : PortalAssignmentDataset} (hstaged : staged[k]? = some (name, ranges))
    (hold : old.datasets[k]? = some d) (hnew : new.datasets[k]? = some dataset)
    (hgetOld : old.getDataset name = .ok (some d))
    (hfirst : d.chunks.map Chunk.firstBlock = ranges.map BlockRange.start)
    (hlast : ranges.getLast?.map BlockRange.stop = some d.lastBlock)
    (hsep : Separated BlockRange.first BlockRange.last ranges) (hcount : ranges.length ≤ 2 ^ 32)
    {block : UInt64} (hplace : new.findChunk name block = .ok (placeAnswer dataset
      (place BlockRange.first BlockRange.last ranges block.toNat))) :
    SameAnswer staged old new name block := by
  obtain ⟨last, hlastRange, hlastBlock⟩ := Option.map_eq_some_iff.mp hlast
  have hafter : (ranges.getLast?.any fun r => decide (r.last < block.toNat)) = true ↔
      block > d.lastBlock := by
    rw [hlastRange, Option.any_some, decide_eq_true_eq, ← hlastBlock]
    exact UInt64.lt_iff_toNat_lt.symm
  rw [place] at hplace
  rcases old.findChunk_cases hgetOld hfirst hsep block with
    ⟨hb, hfind⟩ | ⟨hb, hk, hfind⟩ | ⟨hb, i, chunk, hk, hchunk, hfind⟩
  · rw [if_pos (hafter.mpr hb)] at hplace
    exact Or.inl ⟨.afterLast, by decide, hfind, hplace⟩
  · rw [if_neg fun h => hb (hafter.mp h), hk] at hplace
    exact Or.inl ⟨.beforeFirst, by decide, hfind, hplace⟩
  · rw [if_neg fun h => hb (hafter.mp h), hk] at hplace
    have hi : i < ranges.length := by
      have hle := (List.takeWhile_sublist (l := ranges)
        fun r => decide (r.first ≤ block.toNat)).length_le
      omega
    have hrange := List.getElem?_eq_getElem hi
    refine Or.inr ⟨k, i, ranges, _, d, chunk, dataset, UInt32.ofNat i, hstaged, hrange, hold,
      hchunk, hnew, UInt32.toNat_ofNat_of_lt' (Nat.lt_of_lt_of_le hi hcount), hfind, ?_⟩
    have hgap : ranges[i].last < block.toNat ↔ ranges[i].stop < block :=
      UInt64.lt_iff_toNat_lt.symm
    rw [hplace]
    simp only [hrange, Option.any_some, decide_eq_true_eq, hgap]
    split <;> rfl

/-- The datasets closed in a legacy run, by the id and the ranges staged for them. -/
def LegacyStaged.datasets (s : LegacyStaged) : List (Option String × List BlockRange) :=
  s.finished.map fun chunks => (legacyId chunks, legacyRanges chunks)

open AssignmentBuilder in
/-- The datasets of an accepted legacy blob have the ids and the ranges that were staged. -/
theorem legacy_datasets_of_accepted {P Key Rng : Type} [LT P] [DecidableLT P] {profile : Profile}
    {env : Sealing P Key Rng} {fb : FlatBuffers AssignmentRoot} {secret : String} {rng : Rng}
    {check : Bool} {ops : List (AssignmentOp P)} {b : AssignmentBuilder P Key Rng}
    {log : List (AssignmentOp P × AssignmentResult)} {a : Assignment}
    {staged : List (String × List BlockRange)}
    (hrun : runScript (step profile env) ((newWithRng env secret rng).setCheckContinuity check)
      ops = .ok (b, log))
    (haccept : Assignment.fromOwned fb (fb.finish b.finish) = .ok a)
    (hstaged : (legacyStaged check log).datasets = staged.map fun d => (some d.1, d.2)) :
    List.Forall₂ (fun staged d => d.id = staged.1 ∧
      d.chunks.map Chunk.firstBlock = staged.2.map BlockRange.start ∧
      staged.2.getLast?.map BlockRange.stop = some d.lastBlock) staged a.datasets := by
  have hreader : a.reader = b.finish := by
    rw [Assignment.fromOwned, fb.root_finish] at haccept
    cases haccept
    rfl
  have hemitted := (inStep_of_runScript hrun).datasets
  have hviews : List.Forall₂ (fun (view : Option String × List BlockRange) (d : Dataset) =>
      view.1 = some d.id ∧ d.chunks.map Chunk.firstBlock = view.2.map BlockRange.start ∧
      view.2.getLast?.map BlockRange.stop = some d.lastBlock)
      (legacyStaged check log).datasets a.datasets := by
    rw [Assignment.datasets, hreader, LegacyStaged.datasets, List.forall₂_map_left_iff]
    exact hemitted.imp fun chunks d h => ⟨h.id, firstBlocks_of_staged h.chunks, h.lastBlock⟩
  rw [hstaged, List.forall₂_map_left_iff] at hviews
  exact hviews.imp fun staged d h => ⟨(Option.some.inj h.1).symm, h.2⟩

/-- The emitted portal datasets, each against the id and the ranges staged for it. -/
theorem portal_datasets_of_emitted {check : Bool} {finished : List FinishedPortalDataset}
    {datasets : List PortalAssignmentDataset} {staged : List (String × List BlockRange)}
    (hemitted : List.Forall₂ (PortalEmittedFrom check) finished datasets)
    (hstaged : finished.map (fun d => (d.id, d.ranges check)) = staged) :
    List.Forall₂ (fun (view : String × List BlockRange) (dataset : PortalAssignmentDataset) =>
      dataset.id = view.1 ∧ ∃ d : FinishedPortalDataset,
        d.ranges check = view.2 ∧ PortalEmittedFrom check d dataset) staged datasets := by
  rw [← hstaged, List.forall₂_map_left_iff]
  refine hemitted.imp fun d dataset hd => ⟨?_, d, rfl, hd⟩
  obtain ⟨_, rfl, -⟩ := hd
  rfl

/-- Block lookups agree: whatever is staged on both builders under strictly ascending ids and with
ascending ranges that do not overlap, the two readers give the same answer to every block. -/
theorem legacy_portal_lookups_agree {P Key Rng : Type} [LT P] [DecidableLT P] (profile : Profile)
    (env : Sealing P Key Rng) (oldFb : FlatBuffers AssignmentRoot)
    (newFb : FlatBuffers PortalAssignmentRoot) (secret : String) (rng : Rng)
    (oldCheck newCheck : Bool) (oldOps : List (AssignmentOp P)) (newOps : List (PortalOp P))
    (oldBuilder : AssignmentBuilder P Key Rng) (newBuilder : PortalAssignmentBuilder P)
    (oldLog : List (AssignmentOp P × AssignmentResult))
    (newLog : List (PortalOp P × PortalResult)) (old : Assignment) (new : PortalAssignment)
    (holdRun : runScript (AssignmentBuilder.step profile env)
      ((AssignmentBuilder.newWithRng env secret rng).setCheckContinuity oldCheck) oldOps =
        .ok (oldBuilder, oldLog))
    (hnewRun : runScript (PortalAssignmentBuilder.step profile env.toBytes)
      (PortalAssignmentBuilder.new.setCheckContinuity newCheck) newOps = .ok (newBuilder, newLog))
    (holdAccept : Assignment.fromOwned oldFb (oldFb.finish oldBuilder.finish) = .ok old)
    (hnewAccept : PortalAssignment.fromOwned newFb (newFb.finish newBuilder.finish) = .ok new)
    (staged : List (String × List BlockRange))
    (holdStaged : (legacyStaged oldCheck oldLog).datasets = staged.map fun d => (some d.1, d.2))
    (hnewStaged : (finishedPortalDatasets newLog).map (fun d => (d.id, d.ranges newCheck)) = staged)
    (hids : (staged.map Prod.fst).Pairwise (· < ·))
    (hranges : ∀ d ∈ staged, d.2.Pairwise fun r s => r.stop < s.start)
    (name : String) (block : UInt64) : SameAnswer staged old new name block := by
  have hlegacy := legacy_datasets_of_accepted holdRun holdAccept holdStaged
  obtain ⟨hemitted, hchecks⟩ := emitted_of_accepted hnewRun hnewAccept
  have hportal := portal_datasets_of_emitted hemitted hnewStaged
  have holdIds : old.datasets.map Dataset.id = staged.map Prod.fst :=
    (StagedColumns.map_eq_map_of_forall₂ (fun _ _ h => h.1.symm) hlegacy).symm
  have hnewIds : new.datasets.map PortalAssignmentDataset.id = staged.map Prod.fst :=
    (StagedColumns.map_eq_map_of_forall₂ (fun _ _ h => h.1.symm) hportal).symm
  have holdSorted : old.datasets.Pairwise fun x y => compare x.id y.id = .lt :=
    ascending_of_keys holdIds hids
  have hnewSorted : new.datasets.Pairwise fun x y => compare x.id y.id = .lt :=
    ascending_of_keys hnewIds hids
  by_cases hmem : name ∈ staged.map Prod.fst
  · obtain ⟨entry, hentry, rfl⟩ := List.mem_map.mp hmem
    obtain ⟨k, hk, rfl⟩ := List.mem_iff_getElem.mp hentry
    have hat := List.getElem?_eq_getElem hk
    obtain ⟨_, d, hat', hd, hid, hfirst, hlast⟩ := StagedColumns.exists_pair_of_forall₂ hlegacy
      (hlegacy.length_eq ▸ hk)
    obtain rfl := Option.some.inj (hat.symm.trans hat')
    obtain ⟨_, dataset, hat', hdataset, hdatasetId, fd, hrange, hemit⟩ :=
      StagedColumns.exists_pair_of_forall₂ hportal (hportal.length_eq ▸ hk)
    obtain rfl := Option.some.inj (hat.symm.trans hat')
    have holdGet : old.getDataset staged[k].1 = .ok (some d) :=
      hid ▸ lookupByKey_of_mem holdSorted (List.mem_of_getElem? hd)
    have hnewGet : new.getDataset staged[k].1 = .ok (some dataset) :=
      hdatasetId ▸ lookupByKey_of_mem hnewSorted (List.mem_of_getElem? hdataset)
    obtain ⟨hsep, -, hcount, hplace⟩ := hemit.findChunk_eq
      (hchecks _ (List.mem_of_getElem? hdataset)) (hrange ▸ hranges _ hentry) hnewGet block
    rw [hrange] at hsep hcount hplace
    exact sameAnswer_of_datasets hat hd hdataset holdGet hfirst hlast hsep hcount hplace
  · have holdNone : old.getDataset name = .ok none :=
      lookupByKey_of_not_mem fun d hd hid => hmem (holdIds ▸ List.mem_map.mpr ⟨d, hd, hid⟩)
    have hnewNone : new.getDataset name = .ok none :=
      lookupByKey_of_not_mem fun d hd hid => hmem (hnewIds ▸ List.mem_map.mpr ⟨d, hd, hid⟩)
    refine Or.inl ⟨.unknownDataset, by decide, ?_, ?_⟩
    · rw [Assignment.findChunk, holdNone, Exec.ok_bind]
    · rw [PortalAssignment.findChunk, hnewNone, Exec.ok_bind]

/-- A legacy chunk of the given dataset, with every required field set. -/
def sampleLegacyChunk (dataset : String) (id : DataChunk) (range : BlockRange) :
    AssignmentOp Nat :=
  .chunk [.id id, .datasetId dataset, .blockRange range, .size 1, .datasetBaseUrl "s3://x",
    .files [], .workerIndexes []] true

/-- The datasets of `samplePortalRun` on the legacy builder; the second has a gap. -/
def sampleLegacyRun : List (AssignmentOp Nat) :=
  [sampleLegacyChunk "a" sampleIds.1 ⟨0, 9⟩,
    .finishDataset,
    .addWorker 3 .ok 0,
    sampleLegacyChunk "b" sampleIds.2.1 ⟨5, 6⟩,
    sampleLegacyChunk "b" sampleIds.2.2 ⟨9, 9⟩,
    .finishDataset]

theorem legacy_portal_lookups_agree_sample :
    ∃ oldBuilder oldLog newBuilder newLog old new,
      runScript (AssignmentBuilder.step .release sampleSealing)
        ((AssignmentBuilder.newWithRng sampleSealing "" ()).setCheckContinuity false)
          sampleLegacyRun = .ok (oldBuilder, oldLog) ∧
      runScript (PortalAssignmentBuilder.step .release sampleSealing.toBytes)
        (PortalAssignmentBuilder.new.setCheckContinuity false) samplePortalRun =
          .ok (newBuilder, newLog) ∧
      Assignment.fromOwned (.plain _) oldBuilder.finish = .ok old ∧
      PortalAssignment.fromOwned (.plain _) newBuilder.finish = .ok new ∧
      ∀ name block,
        SameAnswer [("a", [⟨0, 9⟩]), ("b", [⟨5, 6⟩, ⟨9, 9⟩])] old new name block := by
  have hold : (runScript (AssignmentBuilder.step .release sampleSealing)
      ((AssignmentBuilder.newWithRng sampleSealing "" ()).setCheckContinuity false)
        sampleLegacyRun).passes (fun out => (legacyStaged false out.2).datasets =
          [(some "a", [⟨0, 9⟩]), (some "b", [⟨5, 6⟩, ⟨9, 9⟩])]) = true := by decide +kernel
  have hnew : (runScript (PortalAssignmentBuilder.step .release sampleSealing.toBytes)
      (PortalAssignmentBuilder.new.setCheckContinuity false) samplePortalRun).passes (fun out =>
        (PortalAssignment.fromOwned (.plain _) out.1.finish).toOption.isSome ∧
        (finishedPortalDatasets out.2).map (fun d => (d.id, d.ranges false)) =
          [("a", [⟨0, 9⟩]), ("b", [⟨5, 6⟩, ⟨9, 9⟩])]) = true := by decide +kernel
  obtain ⟨⟨oldBuilder, oldLog⟩, holdRun, holdTest⟩ := Exec.exists_of_passes hold
  obtain ⟨⟨newBuilder, newLog⟩, hnewRun, hnewTest⟩ := Exec.exists_of_passes hnew
  obtain ⟨haccept, hstaged⟩ := of_decide_eq_true hnewTest
  obtain ⟨new, haccept⟩ := Exec.exists_of_isSome haccept
  exact ⟨oldBuilder, oldLog, newBuilder, newLog, ⟨oldBuilder.finish⟩, new, holdRun, hnewRun, rfl,
    haccept, fun name block => legacy_portal_lookups_agree .release sampleSealing (.plain _)
      (.plain _) "" () false false sampleLegacyRun samplePortalRun oldBuilder newBuilder oldLog
      newLog _ new holdRun hnewRun rfl haccept [("a", [⟨0, 9⟩]), ("b", [⟨5, 6⟩, ⟨9, 9⟩])]
      (of_decide_eq_true holdTest) hstaged (by decide) (by decide) name block⟩

end SqdNetwork.Assignments
