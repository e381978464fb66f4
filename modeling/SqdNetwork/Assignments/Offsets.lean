import SqdNetwork.Assignments.Appending
import SqdNetwork.Assignments.RejectedChunks
import SqdNetwork.Assignments.TablesPresent

/-!
# Slice ends of a worker dataset

A worker dataset flattens two lists per chunk, the table bitmap and the worker
references, and records where each slice ends. The end of a worker slice is
converted with a check, so it is exact or the chunk is refused. The end of a bitmap
is narrowed without one: it is exact as long as the flattened bitmaps stay below
2^32 bytes, and wraps silently from there on.
-/

namespace SqdNetwork.Assignments

open SqdNetwork.Core

/-- A number survives narrowing to 32 bits exactly if it fits. -/
theorem toNat_ofNat_eq_iff (n : Nat) : (UInt32.ofNat n).toNat = n ↔ n < 2 ^ 32 := by
  rw [UInt32.toNat_ofNat']
  constructor
  · intro h
    rw [← h]
    exact Nat.mod_lt _ (by decide)
  · exact Nat.mod_eq_of_lt

namespace WorkerDatasetColumns

variable {c c' : WorkerDatasetColumns}

/-- Nothing that was recorded is changed. -/
structure Extends (c c' : WorkerDatasetColumns) : Prop where
  tablesPresent : c.tablesPresent <+: c'.tablesPresent
  tablesPresentEnds : c.tablesPresentEnds <+: c'.tablesPresentEnds
  workerIndexes : c.workerIndexes <+: c'.workerIndexes
  workerEnds : c.workerEnds <+: c'.workerEnds

/-- One more end is recorded for either flattened column, and it is the length of the column. -/
structure ExactOffsets (c c' : WorkerDatasetColumns) : Prop where
  tables : ∃ stop, c'.tablesPresentEnds = c.tablesPresentEnds ++ [stop] ∧
    stop.toNat = c'.tablesPresent.length
  workers : ∃ stop, c'.workerEnds = c.workerEnds ++ [stop] ∧
    stop.toNat = c'.workerIndexes.length

theorem Extends.refl (c : WorkerDatasetColumns) : c.Extends c :=
  ⟨List.prefix_rfl, List.prefix_rfl, List.prefix_rfl, List.prefix_rfl⟩

theorem extends_pushRow (c : WorkerDatasetColumns) (index delta : UInt32) (chunk : PushChunk)
    (bits : List UInt8) (workers : List UInt16) :
    c.Extends (c.pushRow index delta chunk bits workers) :=
  ⟨List.prefix_append _ _, List.prefix_append _ _, List.prefix_append _ _, List.prefix_rfl⟩

theorem Extends.pushEnd (h : c.Extends c') (stop : UInt32) : c.Extends (c'.pushEnd stop) :=
  ⟨h.tablesPresent, h.tablesPresentEnds, h.workerIndexes,
    h.workerEnds.trans (List.prefix_append _ _)⟩

/-- A whole row with the right worker end is exact exactly if its bitmap still fits. -/
theorem exactOffsets_push_iff {index delta stop : UInt32} {chunk : PushChunk} {bits : List UInt8}
    {workers : List UInt16} (hstop : stop.toNat = (c.workerIndexes ++ workers).length) :
    c.ExactOffsets ((c.pushRow index delta chunk bits workers).pushEnd stop) ↔
      c.tablesPresent.length + bits.length < 2 ^ 32 := by
  rw [← List.length_append, ← toNat_ofNat_eq_iff]
  constructor
  · intro h
    obtain ⟨stop', hends, hexact⟩ := h.tables
    have hlast := List.append_cancel_left hends
    rw [List.cons.injEq] at hlast
    rw [hlast.1]
    exact hexact
  · intro hexact
    exact ⟨⟨_, rfl, hexact⟩, ⟨stop, rfl, hstop⟩⟩

end WorkerDatasetColumns

namespace WorkerAssignmentBuilder

variable {P Key Rng : Type} {profile : Profile} {check : Bool}
  {b b' : WorkerAssignmentBuilder P Key Rng} {cs : List WorkerChunkCall} {e : ChunkEnd}

/-- The bitmap a chunk stages takes one bit for every table of its schema, or nothing when no
tables were given. -/
def bitmapBytes (b : WorkerAssignmentBuilder P Key Rng) (cs : List WorkerChunkCall) : Nat :=
  match tablesOfCalls cs, (WorkerStaged.ofCalls cs).writeSchemaId.bind b.writeSchemas.get? with
  | some _, some roster => (roster.length + 7) / 8
  | _, _ => 0

/-- The bitmaps of the open dataset and of the next chunk can be counted. -/
def TablesFit (b : WorkerAssignmentBuilder P Key Rng) (cs : List WorkerChunkCall) : Prop :=
  b.columns.tablesPresent.length + b.bitmapBytes cs < 2 ^ 32

/-- What is asked of a finished chunk: if it is appended its ends are exact, and if one of them
does not fit it is refused with an error. -/
structure ExactOrRefused (check : Bool) (b b' : WorkerAssignmentBuilder P Key Rng)
    (cs : List WorkerChunkCall) (e : ChunkEnd) : Prop where
  offsets : e.appended check = true → b.columns.ExactOffsets b'.columns
  refused : ¬(b.TablesFit cs ∧ b.HasRoom (.chunk cs true)) → e.appended check = false ∧
    ∃ error, e = .rejected error ∨ e = .finished (.error error)

/-- The bitmap of a row is as long as its schema's roster asks for. -/
theorem length_bitmap {row : WorkerRow} (hrow : row.StagedBy cs)
    (hregistered : row.RegisteredIn b.writeSchemas b.currentGenerations cs) :
    row.bitmap.length = b.bitmapBytes cs := by
  obtain ⟨roster, hroster, hbitmap⟩ := hregistered.roster
  rw [bitmapBytes, hrow.writeSchemaId, Option.bind_some, hroster]
  cases htables : tablesOfCalls cs with
  | none =>
    rw [htables] at hbitmap
    have hempty : row.bitmap = [] := hbitmap
    rw [hempty, List.length_nil]
  | some tables =>
    rw [htables] at hbitmap
    have hencode : encodeTables roster row.writeSchemaId tables = (row.bitmap, .ok ()) := hbitmap
    have hbits : (encodeTables roster row.writeSchemaId tables).1 = row.bitmap :=
      congrArg Prod.fst hencode
    rw [← hbits, encodeTables, length_selectTables, List.length_replicate]

/-- What a chunk handle does to the slice ends. -/
theorem runChunk_offsets {finish : Bool} (h : b.runChunk profile cs finish = .ok (b', e)) :
    b.columns.Extends b'.columns ∧
      (e.appended b.checkContinuity = true → b.HasRoom (.chunk cs finish) ∧
        (b.columns.ExactOffsets b'.columns ↔ b.TablesFit cs)) := by
  obtain ⟨-, -, hhandled⟩ := handled_of_runChunk h
  generalize b'.columns = columns, b'.lastBlock = lastBlock at hhandled ⊢
  cases hhandled with
  | kept hnot => exact ⟨.refl _, fun happended => absurd happended (by simp [hnot])⟩
  | @tried _ _ row _ hrow happend =>
    rcases appendChunk_cases row.id.first_le happend with ⟨rfl, -, hr⟩ |
        ⟨index, delta, rfl, -, hr, -⟩ | ⟨index, delta, stop, -, -, hstop, rfl, -, hr⟩
    · exact ⟨.refl _, fun happended => absurd (hr.symm.trans happended) (by simp)⟩
    · exact ⟨WorkerDatasetColumns.extends_pushRow _ _ _ _ _ _,
        fun happended => absurd (hr.symm.trans happended) (by simp)⟩
    · refine ⟨(WorkerDatasetColumns.extends_pushRow _ _ _ _ _ _).pushEnd stop, fun _ => ⟨?_, ?_⟩⟩
      · have hlt := stop.toNat_lt
        rw [hstop] at hlt
        rw [HasRoom, hrow.1.workers, ← List.length_append]
        exact hlt
      · rw [TablesFit, ← length_bitmap hrow.1 hrow.2]
        exact WorkerDatasetColumns.exactOffsets_push_iff hstop

/-- A finished chunk that is appended is exact exactly if its bitmap fits, and any other is
refused. -/
theorem exactOrRefused_iff (hcheck : b.checkContinuity = check)
    (h : b.runChunk profile cs true = .ok (b', e)) :
    ExactOrRefused check b b' cs e ↔ (e.appended check = true → b.TablesFit cs) := by
  obtain ⟨-, hoffsets⟩ := runChunk_offsets h
  rw [hcheck] at hoffsets
  cases happended : e.appended check with
  | false =>
    refine iff_of_true ⟨fun ha => absurd (happended.symm.trans ha) (by simp), fun _ => ?_⟩ nofun
    exact ⟨happended, ChunkEnd.error_of_not_appended ((runChunk_finish h).1 rfl) happended⟩
  | true =>
    obtain ⟨hroom, hexact⟩ := hoffsets happended
    constructor
    · intro hasked _
      exact hexact.mp (hasked.offsets happended)
    · intro hfits
      have hfits := hfits rfl
      exact ⟨fun _ => hexact.mpr hfits, fun hnot => absurd ⟨hfits, hroom⟩ hnot⟩

end WorkerAssignmentBuilder

/-- In every state a worker dataset can be in, finishing one more chunk changes nothing that was
recorded. The recorded ends of the chunk are exact, or it is refused, whenever its bitmap still
fits in 2^32 bytes; of the chunks that are appended, those are the only exact ones. -/
theorem csr_offsets_exact_iff (P Key Rng : Type) [LT P] [DecidableLT P] (profile : Profile)
    (check : Bool) (env : Sealing P Key Rng) (secret : String) (rng : Rng)
    (ops : List (WorkerOp P)) (start : WorkerAssignmentBuilder P Key Rng)
    (log : List (WorkerOp P × WorkerResult)) (dops : List WorkerDatasetOp)
    (b : WorkerAssignmentBuilder P Key Rng)
    (dlog : List (WorkerDatasetOp × WorkerDatasetResult))
    (hrun : runScript (WorkerAssignmentBuilder.step profile env)
      ((WorkerAssignmentBuilder.newWithRng env secret rng).setCheckContinuity check) ops =
        .ok (start, log))
    (hopen : runScript (WorkerAssignmentBuilder.datasetStep profile) start dops = .ok (b, dlog))
    (cs : List WorkerChunkCall) (b' : WorkerAssignmentBuilder P Key Rng) (e : ChunkEnd)
    (hchunk : b.runChunk profile cs true = .ok (b', e)) :
    b.columns.Extends b'.columns ∧
    (b.TablesFit cs → WorkerAssignmentBuilder.ExactOrRefused check b b' cs e) ∧
    (e.appended check = true →
      (WorkerAssignmentBuilder.ExactOrRefused check b b' cs e ↔ b.TablesFit cs)) := by
  have hbetween := WorkerAssignmentBuilder.between_of_runScript hrun
  have hstaging := WorkerAssignmentBuilder.staging_of_runScript hbetween.columns
    hbetween.lastBlock hopen
  have hiff := WorkerAssignmentBuilder.exactOrRefused_iff
    (hstaging.checkContinuity.trans hbetween.checkContinuity) hchunk
  refine ⟨(WorkerAssignmentBuilder.runChunk_offsets hchunk).1, ?_, ?_⟩
  · intro hfits
    exact hiff.mpr fun _ => hfits
  · intro happended
    rw [hiff]
    exact ⟨fun h => h happended, fun h _ => h⟩

theorem csr_offsets_exact_iff_sample :
    ∃ b' : WorkerAssignmentBuilder Nat Unit Unit,
      sampleWorkerOpen.runChunk .release sampleWorkerCalls true = .ok (b', .finished (.ok ())) ∧
      sampleWorkerOpen.TablesFit sampleWorkerCalls ∧
      WorkerAssignmentBuilder.ExactOrRefused true sampleWorkerOpen b' sampleWorkerCalls
        (.finished (.ok ())) := by
  have hfits : sampleWorkerOpen.TablesFit sampleWorkerCalls := Nat.lt_of_sub_eq_succ rfl
  have h := csr_offsets_exact_iff Nat Unit Unit .release true sampleSealing "" ()
    [.registerWriteSchema 7 ["blocks"]] sampleWorkerOpen _ [] sampleWorkerOpen _ rfl rfl
    sampleWorkerCalls _ (.finished (.ok ())) rfl
  exact ⟨_, rfl, hfits, h.2.1 hfits⟩

/-- Table names of two characters, in order. -/
def pairNames (n : Nat) : List String :=
  (List.range n).map fun i => String.ofList [Char.ofNat (i / 4096), Char.ofNat (i % 4096)]

theorem length_pairNames (n : Nat) : (pairNames n).length = n := by
  rw [pairNames, List.length_map, List.length_range]

theorem charOfNat_lt {i j : Nat} (h : i < j) (hj : j < 4096) : Char.ofNat i < Char.ofNat j := by
  have hvalid : ∀ k, k < 4096 → (Char.ofNat k).toNat = k := fun k hk => by
    rw [Char.ofNat, dif_pos (Or.inl (by omega))]
    rfl
  rw [Char.lt_def, UInt32.lt_iff_toNat_lt]
  change (Char.ofNat i).toNat < (Char.ofNat j).toNat
  rw [hvalid i (h.trans hj), hvalid j hj]
  exact h

theorem pairNames_sorted {n : Nat} (hn : n ≤ 4096 * 4096) : (pairNames n).Pairwise (· < ·) := by
  rw [pairNames, List.pairwise_map]
  refine List.pairwise_lt_range.imp_of_mem fun {i j} _ hj hlt => ?_
  have hj := List.mem_range.mp hj
  rw [String.lt_iff_toList_lt, String.toList_ofList, String.toList_ofList, List.cons_lt_cons_iff]
  rcases Nat.lt_or_ge (i / 4096) (j / 4096) with hless | hge
  · exact .inl (charOfNat_lt hless (by omega))
  · have hsame : i / 4096 = j / 4096 := by omega
    refine .inr ⟨by rw [hsame], List.cons_lt_cons_iff.mpr (.inl ?_)⟩
    exact charOfNat_lt (by omega) (Nat.mod_lt _ (by decide))

/-- A worker builder with one schema of many tables. -/
def sampleWideOpen (roster : List String) : WorkerAssignmentBuilder Nat Unit Unit :=
  { (WorkerAssignmentBuilder.newWithRng sampleSealing "" ()).setCheckContinuity true with
    writeSchemas := SortedMap.empty.insert 7 roster }

theorem register_wide {roster : List String} (hsorted : roster.Pairwise (· < ·)) :
    ∃ log, runScript (WorkerAssignmentBuilder.step .release sampleSealing)
      ((WorkerAssignmentBuilder.newWithRng sampleSealing "" ()).setCheckContinuity true)
      [.registerWriteSchema 7 roster] = .ok (sampleWideOpen roster, log) := by
  have hregister : ((WorkerAssignmentBuilder.newWithRng sampleSealing "" ()).setCheckContinuity
      true).registerWriteSchema 7 roster = (sampleWideOpen roster, .ok ()) := by
    rw [WorkerAssignmentBuilder.registerWriteSchema, if_pos (isSortedBy_lt_iff.mpr hsorted)]
    rfl
  rw [runScript, WorkerAssignmentBuilder.step, hregister]
  exact ⟨_, rfl⟩

/-- The id of a chunk of one block. -/
def blockId (block : UInt64) : DataChunk where
  top := 0
  firstBlock := block
  lastBlock := block
  hash := sampleIds.1.hash
  top_le := UInt64.zero_le
  first_le := UInt64.le_refl block
  hashField := sampleIds.1.hashField

/-- A chunk of one block that trims away every table of its schema. -/
def trimmedCalls (k : Nat) : List WorkerChunkCall :=
  [.id (blockId (.ofNat k)), .blockRange ⟨.ofNat k, .ofNat k⟩, .size 3, .writeSchemaId 7,
    .tablesPresent []]

/-- What such a chunk stages. -/
def trimmedPush (k : Nat) : PushChunk where
  top := 0
  blockRange := ⟨.ofNat k, .ofNat k⟩
  hash := chunkHash (blockId (.ofNat k))
  size := 3
  writeSchemaId := 7
  version := 0

/-- The open dataset has so many of those chunks. -/
structure Trimmed (roster : List String) (k : Nat) (b : WorkerAssignmentBuilder Nat Unit Unit) :
    Prop where
  schema : b.writeSchemas.get? 7 = some roster
  next : continuityOf .release b.lastBlock (.ofNat k) = .ok (.ok ())
  count : b.columns.firstBlocks.length = k
  workers : b.columns.workerIndexes = []
  bitmaps : b.columns.tablesPresent.length = k * ((roster.length + 7) / 8)

theorem trimmed_open (roster : List String) : Trimmed roster 0 (sampleWideOpen roster) where
  schema := (SortedMap.get?_insert _ _ _ _).trans (if_pos rfl)
  next := rfl
  count := rfl
  workers := rfl
  bitmaps := (Nat.zero_mul _).symm

namespace Trimmed

variable {roster : List String} {k : Nat} {b : WorkerAssignmentBuilder Nat Unit Unit}

/-- The builder with the bitmap of the next chunk. -/
def staged (roster : List String) (b : WorkerAssignmentBuilder Nat Unit Unit) :
    WorkerAssignmentBuilder Nat Unit Unit :=
  { b with
    stagedWorkerIndexes := []
    stagedTablesPresent := List.replicate ((roster.length + 7) / 8) 0 }

/-- The builder with the next chunk. -/
def pushed (roster : List String) (k : Nat) (b : WorkerAssignmentBuilder Nat Unit Unit) :
    WorkerAssignmentBuilder Nat Unit Unit :=
  { staged roster b with
    lastBlock := some (.ofNat k)
    columns := (b.columns.pushRow (.ofNat k) 0 (trimmedPush k)
      (List.replicate ((roster.length + 7) / 8) 0) []).pushEnd 0 }

theorem pushChunk (h : Trimmed roster k b) (hk : k < 2 ^ 32) :
    (staged roster b).pushChunk .release (trimmedPush k) = .ok (pushed roster k b, .ok ()) := by
  have hnext : continuityOf .release b.lastBlock (trimmedPush k).blockRange.start = .ok (.ok ()) :=
    h.next
  have hspan : Exec.subU64 .release (trimmedPush k).blockRange.stop
      (trimmedPush k).blockRange.start = .ok 0 :=
    (Exec.subU64_eq_ok (UInt64.le_refl _)).trans (congrArg _ (UInt64.sub_self _))
  have hworkers : (b.columns.pushRow (.ofNat k) 0 (trimmedPush k)
      (List.replicate ((roster.length + 7) / 8) 0) []).workerIndexes.length = 0 := by
    change (b.columns.workerIndexes ++ []).length = 0
    rw [h.workers]
    rfl
  have happend : appendChunk .release b.checkContinuity WorkerDatasetColumns.toStagedColumns
      (fun index delta c => c.pushRow index delta (trimmedPush k)
        (List.replicate ((roster.length + 7) / 8) 0) [])
      (fun stop c => c.pushEnd stop) b.columns b.lastBlock (trimmedPush k).blockRange =
      .ok ((pushed roster k b).columns, some (.ofNat k), .ok ()) := by
    unfold appendChunk
    simp only [hnext, Exec.ok_bind, ne_eq, not_true_eq_false, false_and, if_false, h.count,
      tryIntoU32_of_lt hk, hspan]
    rw [show Exec.tryIntoU32 (UInt64.toNat 0) = some 0 from rfl]
    dsimp only
    rw [hworkers]
    rfl
  simp only [WorkerAssignmentBuilder.pushChunk, staged, happend, Exec.ok_bind]
  rfl

/-- The next chunk is appended, and the end of its bitmap is narrowed to 32 bits. -/
theorem runChunk (h : Trimmed roster k b) (hk : k < 2 ^ 32) :
    b.runChunk .release (trimmedCalls k) true = .ok (pushed roster k b, .finished (.ok ())) := by
  have hcontains : (staged roster b).writeSchemas.contains 7 = true := by
    change (b.writeSchemas.get? 7).isSome = true
    rw [h.schema]
    rfl
  have hcalls : b.newChunk.2.calls .release b.newChunk.1 (trimmedCalls k) = .ok
      (staged roster b, .ok
        { blockRange := some ⟨.ofNat k, .ofNat k⟩, id := some (blockId (.ofNat k)), size := some 3
          writeSchemaId := some 7, tablesPresent := some 7 }) := by
    simp only [WorkerAssignmentBuilder.newChunk, trimmedCalls, WorkerAssignmentChunkBuilder.calls,
      WorkerAssignmentChunkBuilder.call, WorkerAssignmentChunkBuilder.setTablesPresent, h.schema,
      Exec.ok_bind]
    rfl
  have hfinish : WorkerAssignmentChunkBuilder.finish .release (staged roster b)
        { blockRange := some ⟨.ofNat k, .ofNat k⟩, id := some (blockId (.ofNat k)), size := some 3
          writeSchemaId := some 7, tablesPresent := some 7 } =
      (staged roster b).pushChunk .release (trimmedPush k) := by
    unfold WorkerAssignmentChunkBuilder.finish
    simp only [Exec.expect, Exec.ok_bind]
    rw [if_neg (not_not.mpr ⟨rfl, rfl⟩), if_neg (not_not.mpr hcontains),
      if_neg (not_not.mpr (Or.inl trivial))]
    rfl
  unfold WorkerAssignmentBuilder.runChunk
  dsimp only
  rw [hcalls]
  simp only [Exec.ok_bind, if_true, hfinish, h.pushChunk hk]

theorem pushed_trimmed (h : Trimmed roster k b) : Trimmed roster (k + 1) (pushed roster k b) where
  schema := h.schema
  next := by
    simp [continuityOf, pushed, Exec.addU64, UInt64.ofNat_add]
  count := by
    change (b.columns.firstBlocks ++ [_]).length = k + 1
    rw [List.length_append, h.count, List.length_singleton]
  workers := by
    change b.columns.workerIndexes ++ [] = []
    rw [h.workers, List.append_nil]
  bitmaps := by
    change (b.columns.tablesPresent ++ List.replicate _ 0).length = _
    rw [List.length_append, h.bitmaps, List.length_replicate, Nat.succ_mul]

/-- So many of the chunks are appended one after the other. -/
theorem run (roster : List String) {k : Nat} (hk : k ≤ 2 ^ 32) :
    ∃ b log, runScript (WorkerAssignmentBuilder.datasetStep .release) (sampleWideOpen roster)
        ((List.range k).map fun i => .chunk (trimmedCalls i) true) = .ok (b, log) ∧
      Trimmed roster k b := by
  induction k with
  | zero => exact ⟨_, [], rfl, trimmed_open roster⟩
  | succ k ih =>
    obtain ⟨b, log, hrun, h⟩ := ih (Nat.le_of_succ_le hk)
    refine ⟨pushed roster k b, log ++ [(.chunk (trimmedCalls k) true, .chunk (.finished (.ok ())))],
      ?_, h.pushed_trimmed⟩
    rw [List.range_succ, List.map_append, runScript_append, hrun]
    simp only [Exec.ok_bind, List.map_cons, List.map_nil, runScript,
      WorkerAssignmentBuilder.datasetStep, h.runChunk hk]

end Trimmed

/-- Over a schema of 2^23 tables, a chunk's bitmap takes 2^20 bytes. The 4096th of such chunks in a
dataset is appended, and the recorded end of its bitmap is 0. -/
theorem bitmap_end_wraps :
    (∃ log, runScript (WorkerAssignmentBuilder.step .release sampleSealing)
      ((WorkerAssignmentBuilder.newWithRng sampleSealing "" ()).setCheckContinuity true)
      [.registerWriteSchema 7 (pairNames (2 ^ 23))] =
        .ok (sampleWideOpen (pairNames (2 ^ 23)), log)) ∧
    ∃ b dlog b', runScript (WorkerAssignmentBuilder.datasetStep .release)
        (sampleWideOpen (pairNames (2 ^ 23)))
        ((List.range 4095).map fun i => .chunk (trimmedCalls i) true) = .ok (b, dlog) ∧
      b.runChunk .release (trimmedCalls 4095) true = .ok (b', .finished (.ok ())) ∧
      b'.columns.tablesPresent.length = 2 ^ 32 ∧
      b'.columns.tablesPresentEnds.getLast? = some 0 := by
  obtain ⟨b, dlog, hrun, h⟩ := Trimmed.run (pairNames (2 ^ 23)) (k := 4095) (by decide)
  have hlength : (b.columns.tablesPresent ++
      List.replicate (((pairNames (2 ^ 23)).length + 7) / 8) (0 : UInt8)).length = 2 ^ 32 := by
    rw [List.length_append, h.bitmaps, List.length_replicate, length_pairNames]
    decide
  refine ⟨register_wide (pairNames_sorted (by decide)), b, dlog, _, hrun, h.runChunk (by decide),
    hlength, ?_⟩
  change (b.columns.tablesPresentEnds ++ [UInt32.ofNat _]).getLast? = _
  rw [hlength, List.getLast?_concat]
  rfl

end SqdNetwork.Assignments
