import SqdNetwork.Assignments.ChunkColumns

/-!
# Datasets in step with their chunks

Both builders keep one open dataset in step with the chunks appended to it. What
differs is bundled as a `DatasetKind`: the columns, the rows they hold and how a
row is pushed. The invariant and what it gives when the dataset is finished are
stated once for every kind.
-/

namespace SqdNetwork.Assignments

open SqdNetwork.Core

/-- The last elements of two lists related throughout are related. -/
theorem forall₂_getLast? {α β : Type} {R : α → β → Prop} {xs : List α} {ys : List β}
    (h : List.Forall₂ R xs ys) {y : β} (hy : ys.getLast? = some y) :
    ∃ x, xs.getLast? = some x ∧ R x y := by
  have hrev := List.forall₂_reverse_iff.mpr h
  rw [List.getLast?_eq_head?_reverse] at hy ⊢
  generalize xs.reverse = us at hrev ⊢
  generalize ys.reverse = vs at hrev hy
  cases hrev with
  | nil => exact absurd hy (by simp)
  | cons hab _ =>
    rw [List.head?_cons, Option.some.injEq] at hy
    subst hy
    exact ⟨_, rfl, hab⟩

/-- A kind of dataset: columns `C` holding rows `Row`, each staged by a chunk `K`. -/
structure DatasetKind (C Row K : Type) where
  /-- The common columns. -/
  base : C → StagedColumns
  /-- The common part of a row. -/
  row : Row → ChunkRow
  /-- The columns hold exactly these rows. -/
  Encodes : C → List Row → Prop
  /-- The row holds what a chunk staged. -/
  StagedBy : K → Row → Prop
  /-- Append a row to every column but the slice ends. -/
  push : Row → UInt32 → UInt32 → C → C
  /-- Close the row's worker slice. -/
  pushEnd : UInt32 → C → C
  encodes_base : ∀ {c rows}, Encodes c rows → (base c).Encodes (rows.map row)
  base_push : ∀ r index delta c, base (push r index delta c) = (base c).pushRow index delta
    (row r).id.top (row r).id.firstBlock (chunkHash (row r).id) (row r).version (row r).workers
  encodes_push : ∀ {c rows} r index delta stop, Encodes c rows →
    ((base (push r index delta c)).pushEnd stop).Encodes (rows.map row ++ [row r]) →
    Encodes (pushEnd stop (push r index delta c)) (rows ++ [r])

namespace DatasetKind

variable {C Row K : Type} (kind : DatasetKind C Row K)

/-- The columns hold the rows of the appended chunks and the last block is theirs, or the
worker column overflowed. -/
def InStep (columns : C) (lastBlock : Option UInt64) (chunks : List K) : Prop :=
  (∃ rows, kind.Encodes columns rows ∧ List.Forall₂ kind.StagedBy chunks rows ∧
    lastBlock = rows.getLast?.map fun r => (kind.row r).id.lastBlock) ∨
  (kind.base columns).Overflowed

/-- What the handle of a chunk did to the open dataset: nothing, or one append of a row that the
chunk staged. -/
inductive Handled (profile : Profile) (check : Bool) (columns : C) (lastBlock : Option UInt64)
    (chunk : K) : C → Option UInt64 → ChunkEnd → Prop
  | kept {e : ChunkEnd} (hnot : ∀ check, e.appended check = false) :
    Handled profile check columns lastBlock chunk columns lastBlock e
  | tried {columns' : C} {lastBlock' : Option UInt64} {row : Row} {r : Outcome}
    (hrow : kind.StagedBy chunk row)
    (happend : appendChunk profile check kind.base (kind.push row) kind.pushEnd columns lastBlock
      ⟨(kind.row row).id.firstBlock, (kind.row row).id.lastBlock⟩ = .ok (columns', lastBlock', r)) :
    Handled profile check columns lastBlock chunk columns' lastBlock' (.finished r)

variable {kind}

/-- Less may be asked of the rows that chunks stage. -/
theorem Handled.weaken {profile : Profile} {check : Bool} {columns columns' : C}
    {lastBlock lastBlock' : Option UInt64} {chunk : K} {e : ChunkEnd} {StagedBy : K → Row → Prop}
    (h : kind.Handled profile check columns lastBlock chunk columns' lastBlock' e)
    (himp : ∀ row, kind.StagedBy chunk row → StagedBy chunk row) :
    ({ kind with StagedBy := StagedBy } : DatasetKind C Row K).Handled profile check columns
      lastBlock chunk columns' lastBlock' e := by
  cases h with
  | kept hnot => exact .kept hnot
  | tried hrow happend => exact .tried (himp _ hrow) happend

/-- Appending the row of a chunk keeps the dataset in step. -/
theorem InStep.append {profile : Profile} {check : Bool} {columns columns' : C}
    {lastBlock lastBlock' : Option UInt64} {chunks : List K} {chunk : K} {row : Row} {r : Outcome}
    (h : kind.InStep columns lastBlock chunks) (hrow : kind.StagedBy chunk row)
    (happend : appendChunk profile check kind.base (kind.push row) kind.pushEnd columns lastBlock
      ⟨(kind.row row).id.firstBlock, (kind.row row).id.lastBlock⟩ = .ok (columns', lastBlock', r)) :
    kind.InStep columns' lastBlock' (chunks ++ if appended check r then [chunk] else []) := by
  rcases h with ⟨rows, henc, hrows, hlast⟩ | hover
  · rcases appendChunk_of_encodes (kind.base_push row) happend (kind.encodes_base henc) with
      ⟨rfl, rfl, hr⟩ | ⟨index, delta, -, hover, -⟩ | ⟨index, delta, stop, rfl, hbase, rfl, hr⟩
    · left
      simpa [hr] using ⟨rows, henc, hrows, hlast⟩
    · exact Or.inr hover
    · left
      rw [if_pos hr]
      refine ⟨rows ++ [row], kind.encodes_push row index delta stop henc hbase, ?_, by simp⟩
      exact List.rel_append hrows (List.Forall₂.cons hrow List.Forall₂.nil)
  · exact Or.inr (appendChunk_of_overflowed (kind.base_push row) happend hover).1

/-- So does the whole life of a chunk handle. -/
theorem InStep.handled {profile : Profile} {check : Bool} {columns columns' : C}
    {lastBlock lastBlock' : Option UInt64} {chunks : List K} {chunk : K} {e : ChunkEnd}
    (h : kind.InStep columns lastBlock chunks)
    (hhandled : kind.Handled profile check columns lastBlock chunk columns' lastBlock' e) :
    kind.InStep columns' lastBlock' (chunks ++ if e.appended check then [chunk] else []) := by
  cases hhandled with
  | kept hnot =>
    rw [hnot check, if_neg Bool.false_ne_true, List.append_nil]
    exact h
  | tried hrow happend => exact h.append hrow happend

/-- Unless its worker column overflowed, a dataset can be emitted exactly when it has chunks. -/
theorem InStep.ready {columns : C} {lastBlock : Option UInt64} {chunks : List K}
    (h : kind.InStep columns lastBlock chunks) (hfits : (kind.base columns).Fits) :
    (chunks = [] ∧ (kind.base columns).firstBlocks.length = 0) ∨
    (chunks ≠ [] ∧ (kind.base columns).firstBlocks.length ≠ 0 ∧
      checkTopRuns (kind.base columns).tops = .ok () ∧ ∃ last, lastBlock = some last) := by
  rcases h with ⟨rows, henc, hrows, rfl⟩ | hover
  · have hbase := kind.encodes_base henc
    have hcount : (kind.base columns).firstBlocks.length = rows.length :=
      hbase.length_firstBlocks.trans (List.length_map _)
    have hchunks : chunks = [] ↔ rows = [] := by
      rw [← List.length_eq_zero_iff, hrows.length_eq, List.length_eq_zero_iff]
    by_cases hne : rows = []
    · exact Or.inl ⟨hchunks.mpr hne, by simp [hcount, hne]⟩
    · refine Or.inr ⟨fun he => hne (hchunks.mp he), by simpa [hcount] using hne,
        checkTopRuns_of_encode hbase.tops (by simpa using hne), ?_⟩
      obtain ⟨row, hrow⟩ : ∃ row, rows.getLast? = some row :=
        Option.isSome_iff_exists.mp (by simpa using hne)
      exact ⟨(kind.row row).id.lastBlock, by rw [hrow, Option.map_some]⟩
  · exact absurd hfits hover.not_fits

/-- Columns that agree with each other, or that fit, hold the rows of their chunks. -/
theorem InStep.encodes {columns : C} {lastBlock : Option UInt64} {chunks : List K}
    (h : kind.InStep columns lastBlock chunks) (hnot : ¬ (kind.base columns).Overflowed) :
    ∃ rows, kind.Encodes columns rows ∧ List.Forall₂ kind.StagedBy chunks rows ∧
      lastBlock = rows.getLast?.map fun r => (kind.row r).id.lastBlock :=
  h.resolve_right hnot

end DatasetKind

end SqdNetwork.Assignments
