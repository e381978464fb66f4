import SqdNetwork.Assignments.ChunkIdFormat
import SqdNetwork.Assignments.Staging
import Mathlib.Data.List.Flatten

/-!
# Staged columns read back

A dataset is a list of rows. `Encodes` says that the staged columns hold exactly
those rows; appending a whole row keeps it, and every accessor on the emitted
vectors then returns the row's own value.
-/

namespace SqdNetwork.Assignments

open SqdNetwork.Core

/-- What both formats keep of one chunk. -/
structure ChunkRow where
  id : DataChunk
  version : UInt32
  workers : List UInt16

/-- Number of blocks after the first. -/
def ChunkRow.span (row : ChunkRow) : Nat := (row.id.lastBlock - row.id.firstBlock).toNat

/-- The staged columns hold exactly the given rows. -/
structure StagedColumns.Encodes (c : StagedColumns) (rows : List ChunkRow) : Prop where
  /-- Every row number fits in 32 bits. -/
  count : rows.length ≤ 2 ^ 32
  firstBlocks : c.firstBlocks = rows.map fun row => row.id.firstBlock
  blockDeltas : c.blockDeltas.map UInt32.toNat = rows.map ChunkRow.span
  hashes : c.hashes = rows.map fun row => chunkHash row.id
  tops : RunsEncode (fun r : TopRun => r.firstChunkIndex.toNat) TopRun.top c.tops
    (rows.map fun row => row.id.top)
  versions : c.versions = rows.map ChunkRow.version
  workerEnds : c.workerEnds.map UInt32.toNat = sliceEnds 0 (rows.map ChunkRow.workers)
  workerIndexes : c.workerIndexes = (rows.map ChunkRow.workers).flatten

namespace StagedColumns

variable {c : StagedColumns} {rows : List ChunkRow}

/-- Nothing staged, no rows. -/
theorem encodes_nil : ({} : StagedColumns).Encodes [] :=
  ⟨Nat.zero_le _, rfl, rfl, rfl, RunsEncode.nil _ _, rfl, rfl, rfl⟩

/-- Appending a row to every column keeps them in step. -/
theorem Encodes.push (h : c.Encodes rows) (row : ChunkRow) {index delta stop : UInt32}
    (hindex : index.toNat = c.firstBlocks.length) (hdelta : delta.toNat = row.span)
    (hstop : stop.toNat = (c.workerIndexes ++ row.workers).length) :
    ((c.pushRow index delta row.id.top row.id.firstBlock (chunkHash row.id) row.version
      row.workers).pushEnd stop).Encodes (rows ++ [row]) := by
  constructor
  · have hlt := index.toNat_lt
    rw [hindex, h.firstBlocks, List.length_map] at hlt
    rw [List.length_append, List.length_singleton]
    omega
  · simp [pushRow, pushEnd, h.firstBlocks]
  · simp [pushRow, pushEnd, h.blockDeltas, hdelta]
  · simp [pushRow, pushEnd, h.hashes]
  · have hlen : index.toNat = (rows.map fun row => row.id.top).length := by
      rw [hindex, h.firstBlocks, List.length_map, List.length_map]
    rw [List.map_append]
    exact h.tops.push hlen
  · simp [pushRow, pushEnd, h.versions]
  · simp only [pushRow, pushEnd, List.map_append, List.map_cons, List.map_nil, h.workerEnds,
      sliceEnds_append, hstop, h.workerIndexes, Nat.zero_add]
    simp
  · simp [pushRow, pushEnd, h.workerIndexes]

/-- The columns are as long as the rows. -/
theorem Encodes.length_firstBlocks (h : c.Encodes rows) : c.firstBlocks.length = rows.length := by
  rw [h.firstBlocks, List.length_map]

section ReadBack

variable (h : c.Encodes rows) {index : UInt32} {row : ChunkRow}
  (hrow : rows[index.toNat]? = some row)

include h hrow

theorem Encodes.firstBlock_emit : c.emit.firstBlock index = .ok row.id.firstBlock := by
  apply Exec.index_eq_ok
  simp [emit, h.firstBlocks, hrow]

theorem Encodes.lastBlock_emit : c.emit.lastBlock index = .ok row.id.lastBlock := by
  have hspan : (c.blockDeltas.map UInt32.toNat)[index.toNat]? = some row.span := by
    rw [h.blockDeltas, List.getElem?_map, hrow, Option.map_some]
  rw [List.getElem?_map] at hspan
  obtain ⟨delta, hdelta, hnat⟩ := Option.map_eq_some_iff.mp hspan
  have hwide : delta.toUInt64 = row.id.lastBlock - row.id.firstBlock := by
    apply UInt64.toNat_inj.mp
    rw [UInt32.toNat_toUInt64, hnat, ChunkRow.span]
  have hread : Exec.index c.emit.blockDeltas index.toNat = .ok delta := Exec.index_eq_ok hdelta
  rw [ColumnVectors.lastBlock, h.firstBlock_emit hrow, Exec.ok_bind, hread, Exec.ok_bind, hwide]
  rw [UInt64.add_comm, UInt64.sub_add_cancel]

theorem Encodes.version_emit : c.emit.version index = .ok row.version := by
  have hcol : c.versions[index.toNat]? = some row.version := by
    rw [h.versions, List.getElem?_map, hrow, Option.map_some]
  by_cases hany : c.versions.any (· != 0) = true
  · simp only [ColumnVectors.version, emit, hany, if_true]
    exact Exec.index_eq_ok hcol
  · have hzero : row.version = 0 := by
      by_contra hne
      exact hany (List.any_eq_true.mpr ⟨_, List.mem_of_getElem? hcol, by simpa using hne⟩)
    simp only [ColumnVectors.version, emit, hany, hzero]
    rfl

theorem Encodes.topAt_emit : c.emit.topAt index = .ok (some row.id.top) := by
  have hcol : (rows.map fun row => row.id.top)[index.toNat]? = some row.id.top := by
    rw [List.getElem?_map, hrow, Option.map_some]
  have hlt := (List.getElem?_eq_some_iff.mp hcol).1
  obtain ⟨k, hpoint, hrun⟩ := h.tops.bisect_runAt hlt
  have hlookup := h.tops.lookup _ _ hcol
  rw [← hrun] at hlookup
  obtain ⟨run, hget, htop⟩ := Option.map_eq_some_iff.mp hlookup
  have hbisect : partitionPoint c.emit.tops.length (fun i => do
      let run ← Exec.index c.emit.tops i
      .ok (decide (run.firstChunkIndex ≤ index))) = (.ok (k + 1) : Exec Nat) := by
    rw [← hpoint]
    apply bisect_eq_pure
    intro i _ hi
    rw [Exec.index_of_lt hi]
    have hget : c.tops[i]? = some c.emit.tops[i] := List.getElem?_eq_getElem hi
    simp only [hget, Option.any_some, UInt32.le_iff_toNat_le]
    rfl
  rw [ColumnVectors.topAt, hbisect]
  have hread : Exec.index c.emit.tops k = .ok run := Exec.index_eq_ok hget
  simp only [Exec.ok_bind, hread, htop]

theorem Encodes.top_emit : c.emit.top index = .ok row.id.top := by
  rw [ColumnVectors.top, h.topAt_emit hrow]
  rfl

theorem Encodes.hash_emit : c.emit.hash index = .ok (some row.id.lastHash) := by
  have hcol : c.emit.hashes[index.toNat]? = some (chunkHash row.id) := by
    simp [emit, h.hashes, hrow]
  rw [ColumnVectors.hash, Exec.index_eq_ok hcol, Exec.ok_bind, chunkHash_bytes,
    row.id.fromUtf8_trimNul]

theorem Encodes.id_emit : c.emit.id index = .ok (some row.id.toString) := by
  rw [ColumnVectors.id, h.top_emit hrow, Exec.ok_bind, h.firstBlock_emit hrow, Exec.ok_bind,
    h.lastBlock_emit hrow, Exec.ok_bind, h.hash_emit hrow, Exec.ok_bind]
  simp only [pushChunkId_eq, Exec.ok_map, String.empty_append]

theorem Encodes.workersOf_emit : c.emit.workersOf index = .ok row.workers := by
  have hlist : (rows.map ChunkRow.workers)[index.toNat]? = some row.workers := by
    rw [List.getElem?_map, hrow, Option.map_some]
  have hlt := (List.getElem?_eq_some_iff.mp hlist).1
  have hoffset : ∀ i, i ≤ (rows.map ChunkRow.workers).length → ∃ x : UInt32,
      c.emit.workerOffsets[i]? = some x ∧
        x.toNat = ((rows.map ChunkRow.workers).take i).flatten.length := by
    intro i hi
    have hoff := getElem?_sliceOffsets (rows.map ChunkRow.workers) hi
    rw [sliceOffsets, ← h.workerEnds] at hoff
    have hmap : ((0 :: c.workerEnds).map UInt32.toNat)[i]? =
        some ((rows.map ChunkRow.workers).take i).flatten.length := by
      simpa using hoff
    rw [List.getElem?_map] at hmap
    exact Option.map_eq_some_iff.mp hmap
  obtain ⟨start, hstart, hstartNat⟩ := hoffset index.toNat (Nat.le_of_lt hlt)
  obtain ⟨stop, hstop, hstopNat⟩ := hoffset (index.toNat + 1) hlt
  have hflat : c.emit.workerIndexes = (rows.map ChunkRow.workers).flatten := h.workerIndexes
  have hbound : stop.toNat ≤ c.emit.workerIndexes.length := by
    rw [hstopNat, hflat]
    exact (List.take_sublist _ _).flatten.length_le
  rw [ColumnVectors.workersOf, Exec.index_eq_ok hstart, Exec.ok_bind, Exec.index_eq_ok hstop,
    Exec.ok_bind, Nat.min_eq_left hbound, readRange_eq_ok _ hbound, hstartNat, hstopNat, hflat,
    flatten_slice _ hlist]

end ReadBack

/-- What every pair grants its second component, every element of the second list has. -/
theorem forall_mem_of_forall₂ {α β : Type} {R : α → β → Prop} {p : β → Prop}
    (hp : ∀ a b, R a b → p b) {xs : List α} {ys : List β} (h : List.Forall₂ R xs ys) :
    ∀ y ∈ ys, p y := by
  induction h with
  | nil => simp
  | cons hab _ ih => exact List.forall_mem_cons.mpr ⟨hp _ _ hab, ih⟩

/-- A value that related elements share is the same along both lists. -/
theorem map_eq_map_of_forall₂ {α β γ : Type} {R : α → β → Prop} {f : α → γ} {g : β → γ}
    (hfg : ∀ a b, R a b → f a = g b) {xs : List α} {ys : List β} (h : List.Forall₂ R xs ys) :
    xs.map f = ys.map g := by
  rw [← List.forall₂_eq_eq_eq, List.forall₂_map_left_iff, List.forall₂_map_right_iff]
  exact h.imp hfg

/-- Related lists agree on which positions they have. -/
theorem exists_pair_of_forall₂ {α β : Type} {R : α → β → Prop} {xs : List α} {ys : List β}
    (h : List.Forall₂ R xs ys) {i : Nat} (hi : i < ys.length) :
    ∃ x y, xs[i]? = some x ∧ ys[i]? = some y ∧ R x y := by
  have hx : i < xs.length := h.length_eq ▸ hi
  exact ⟨_, _, List.getElem?_eq_getElem hx, List.getElem?_eq_getElem hi, h.get hx hi⟩

/-- Numbering the rows that fit in 32 bits enumerates them in order. -/
theorem forall₂_enumerate {α β γ : Type} {staged : α → β → Prop} {reads : α → γ → Prop}
    {xs : List α} {rows : List β} {chunk : UInt32 → γ} {count : Nat}
    (hcount : count = rows.length) (hfits : count < 2 ^ 32) (h : List.Forall₂ staged xs rows)
    (hread : ∀ (index : UInt32) x row, rows[index.toNat]? = some row → staged x row →
      reads x (chunk index)) :
    List.Forall₂ reads xs
      ((List.range (UInt32.ofNat count).toNat).map fun i => chunk (UInt32.ofNat i)) := by
  rw [UInt32.toNat_ofNat_of_lt' hfits, List.forall₂_iff_get]
  refine ⟨by simp [h.length_eq, hcount], fun i hx hc => ?_⟩
  have hi : i < rows.length := by rwa [← h.length_eq]
  have hnat : (UInt32.ofNat i).toNat = i :=
    UInt32.toNat_ofNat_of_lt' (Nat.lt_trans (hcount ▸ hi) hfits)
  have hrow : rows[(UInt32.ofNat i).toNat]? = some (rows.get ⟨i, hi⟩) := by
    rw [hnat]
    exact List.getElem?_eq_getElem hi
  simpa using hread (UInt32.ofNat i) (xs.get ⟨i, hx⟩) _ hrow (h.get hx hi)

/-- Columns that hold rows are emitted in agreement with each other. -/
theorem Encodes.aligned_emit (h : c.Encodes rows) (hne : rows ≠ []) : c.emit.Aligned := by
  have hcount : c.emit.chunkCount = rows.length := h.length_firstBlocks
  constructor
  · have hdeltas := congrArg List.length h.blockDeltas
    simp only [List.length_map] at hdeltas
    exact hdeltas.trans hcount.symm
  · rw [hcount]
    simp [emit, h.hashes]
  · have hends := congrArg List.length h.workerEnds
    simp only [List.length_map, length_sliceEnds] at hends
    rw [hcount]
    simpa [emit] using hends
  · intro column hcolumn
    simp only [emit, Option.ite_none_right_eq_some, Option.some.injEq] at hcolumn
    rw [hcount, ← hcolumn.2, h.versions, List.length_map]
  · obtain ⟨first, rest, htops, hzero⟩ := h.tops.covers (by simpa using hne)
    have hz : first.firstChunkIndex = 0 := UInt32.toNat_inj.mp hzero
    simp [emit, htops, hz]

/-- Short enough for every row number and every worker reference to fit in 32 bits. -/
def Fits (c : StagedColumns) : Prop :=
  c.firstBlocks.length < 2 ^ 32 ∧ c.workerIndexes.length < 2 ^ 32

instance (c : StagedColumns) : Decidable c.Fits := inferInstanceAs (Decidable (_ ∧ _))

/-- What a chunk refused for its worker references leaves behind: a row without a slice end. -/
def Overflowed (c : StagedColumns) : Prop :=
  2 ^ 32 ≤ c.workerIndexes.length ∧ c.workerEnds.length < c.firstBlocks.length

theorem Overflowed.not_fits (h : c.Overflowed) : ¬ c.Fits := by
  intro hfits
  have hlong := h.1
  have hshort := hfits.2
  omega

/-- Columns that overflowed are refused by the reader's check. -/
theorem Overflowed.not_aligned (h : c.Overflowed) : ¬ c.emit.Aligned := by
  intro haligned
  have hends : c.workerEnds.length = c.firstBlocks.length := haligned.workerOffsets
  have hshort := h.2
  omega

end StagedColumns

section AppendChunk

variable {C : Type} {profile : Profile} {checkContinuity : Bool} {base : C → StagedColumns}
  {push : UInt32 → UInt32 → C → C} {pushEnd : UInt32 → C → C} {columns columns' : C}
  {lastBlock lastBlock' : Option UInt64} {r : Outcome} {row : ChunkRow}
  (hpush : ∀ index delta c, base (push index delta c) = (base c).pushRow index delta row.id.top
    row.id.firstBlock (chunkHash row.id) row.version row.workers)
  (h : appendChunk profile checkContinuity base push pushEnd columns lastBlock
    ⟨row.id.firstBlock, row.id.lastBlock⟩ = .ok (columns', lastBlock', r))

include hpush h

/-- On columns in step with their rows, appending a chunk adds a whole row exactly when it
reports so, or overflows the worker column. -/
theorem appendChunk_of_encodes {rows : List ChunkRow} (henc : (base columns).Encodes rows) :
    (columns' = columns ∧ lastBlock' = lastBlock ∧ appended checkContinuity r = false) ∨
    (∃ index delta, columns' = push index delta columns ∧ (base columns').Overflowed ∧
      appended checkContinuity r = false) ∨
    (∃ index delta stop, columns' = pushEnd stop (push index delta columns) ∧
      ((base (push index delta columns)).pushEnd stop).Encodes (rows ++ [row]) ∧
      lastBlock' = some row.id.lastBlock ∧ appended checkContinuity r = true) := by
  rcases appendChunk_cases row.id.first_le h with hsame | ⟨index, delta, rfl, -, hr, hfull⟩ |
      ⟨index, delta, stop, hindex, hdelta, hstop, rfl, hlast, hr⟩
  · exact Or.inl hsame
  · refine Or.inr (Or.inl ⟨index, delta, rfl, ⟨hfull, ?_⟩, hr⟩)
    have hends := congrArg List.length henc.workerEnds
    simp only [List.length_map, length_sliceEnds] at hends
    simp only [hpush, StagedColumns.pushRow, List.length_append, List.length_singleton, hends,
      henc.length_firstBlocks]
    omega
  · refine Or.inr (Or.inr ⟨index, delta, stop, rfl, ?_, hlast, hr⟩)
    rw [hpush] at hstop ⊢
    exact henc.push row hindex hdelta hstop

/-- Once the worker column has overflowed, no further chunk of the dataset is appended and the
columns never come back in step. -/
theorem appendChunk_of_overflowed (hover : (base columns).Overflowed) :
    (base columns').Overflowed ∧ appended checkContinuity r = false := by
  have hgrown : ∀ index delta, (base (push index delta columns)).Overflowed := by
    intro index delta
    obtain ⟨hlong, hshort⟩ := hover
    rw [hpush]
    refine ⟨?_, ?_⟩ <;>
      simp only [StagedColumns.pushRow, List.length_append, List.length_singleton] <;> omega
  rcases appendChunk_cases row.id.first_le h with ⟨rfl, -, hr⟩ | ⟨index, delta, rfl, -, hr, -⟩ |
      ⟨index, delta, stop, -, -, hstop, -, -, -⟩
  · exact ⟨hover, hr⟩
  · exact ⟨hgrown index delta, hr⟩
  · have hlong := (hgrown index delta).1
    have hlt := stop.toNat_lt
    omega

end AppendChunk

end SqdNetwork.Assignments
