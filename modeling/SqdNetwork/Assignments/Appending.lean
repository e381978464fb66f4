import SqdNetwork.Assignments.Continuity

/-!
# Appending without a report

A builder that does not enforce continuity appends a chunk after a gap and reports
the gap. A caller that treats every report as a failure gets through a dataset only
if there is none to make. For ascending chunks that is exactly when each starts
right after the one before it and the worker references can be counted, whichever
builder stages them.
-/

namespace SqdNetwork.Assignments

open SqdNetwork.Core

/-- Every chunk stands in the relation to the end of the one before it, the first one to the
given end. -/
def ChainFrom (related : UInt64 → DataChunk → Prop) : Option UInt64 → List DataChunk → Prop
  | _, [] => True
  | last, id :: ids =>
    (∀ stop, last = some stop → related stop id) ∧ ChainFrom related (some id.lastBlock) ids

/-- The chunk starts after the block. -/
def Above (stop : UInt64) (id : DataChunk) : Prop := stop < id.firstBlock

/-- The chunk starts right after the block. -/
def Follows (stop : UInt64) (id : DataChunk) : Prop := id.firstBlock.toNat = stop.toNat + 1

/-- Without a block before them, chunks only have to stand in the relation to each other. -/
theorem chainFrom_none_iff {related : UInt64 → DataChunk → Prop} {ids : List DataChunk} :
    ChainFrom related none ids ↔ ids.IsChain fun a b => related a.lastBlock b := by
  have hsome : ∀ (first : DataChunk) (rest : List DataChunk),
      ChainFrom related (some first.lastBlock) rest ↔
        (first :: rest).IsChain fun a b => related a.lastBlock b := by
    intro first rest
    induction rest generalizing first with
    | nil => exact iff_of_true trivial (List.isChain_singleton _)
    | cons id rest ih =>
      rw [ChainFrom, ih, List.isChain_cons_cons]
      simp
  cases ids with
  | nil => exact iff_of_true trivial List.isChain_nil
  | cons id ids =>
    rw [ChainFrom, hsome]
    simp

/-- Above the last block the check passes exactly the chunk that follows. -/
theorem continuityOf_passes_iff {profile : Profile} {lastBlock : Option UInt64} {id : DataChunk}
    (habove : ∀ stop, lastBlock = some stop → Above stop id) :
    continuityOf profile lastBlock id.firstBlock = .ok (.ok ()) ↔
      ∀ stop, lastBlock = some stop → Follows stop id := by
  cases lastBlock with
  | none => exact iff_of_true rfl fun stop hstop => by cases hstop
  | some last =>
    have hlt := UInt64.lt_iff_toNat_lt.mp (habove last rfl)
    have hne : last ≠ topBlock := by
      rintro rfl
      have hbound := id.firstBlock.toNat_lt
      have htop : topBlock.toNat = 2 ^ 64 - 1 := rfl
      omega
    have htop : (some last : Option UInt64) ≠ some topBlock := fun he => hne (Option.some.inj he)
    have hfits : last.toNat + (1 : UInt64).toNat < 2 ^ 64 := succ_lt_of_ne_topBlock hne
    obtain ⟨r, hr⟩ : (continuityOf profile (some last) id.firstBlock).Returns :=
      (Exec.returns_addU64 hfits).bind fun next _ => ⟨_, rfl⟩
    have hiff := continuityOf_eq_ok_iff htop hr
    rw [hr, Except.ok.injEq]
    exact hiff

theorem tryIntoU32_of_lt {n : Nat} (h : n < 2 ^ 32) :
    Exec.tryIntoU32 n = some (UInt32.ofNat n) :=
  if_pos h

/-- A row is appended without a report exactly if the continuity check passes and the worker
references can be counted. -/
theorem appendChunk_silent_iff {C : Type} {profile : Profile} {base : C → StagedColumns}
    {push : UInt32 → UInt32 → C → C} {pushEnd : UInt32 → C → C} {columns : C}
    {lastBlock lastBlock' : Option UInt64} {start stop : UInt64} {count : Nat}
    (hrange : start ≤ stop) (hspan : (stop - start).toNat < 2 ^ 32)
    (hcount : (base columns).firstBlocks.length < 2 ^ 32)
    (hpush : ∀ index delta, (base (push index delta columns)).workerIndexes.length = count) :
    (∃ columns', appendChunk profile false base push pushEnd columns lastBlock ⟨start, stop⟩ =
        .ok (columns', lastBlock', .ok ())) ↔
      continuityOf profile lastBlock start = .ok (.ok ()) ∧ count < 2 ^ 32 ∧
        lastBlock' = some stop := by
  unfold appendChunk
  cases hcheck : continuityOf profile lastBlock start with
  | error p => simp
  | ok continuity =>
    simp only [Exec.ok_bind, Bool.false_eq_true, and_false, if_false, tryIntoU32_of_lt hcount,
      Exec.subU64_eq_ok hrange, tryIntoU32_of_lt hspan, hpush]
    by_cases hroom : count < 2 ^ 32
    · simp only [tryIntoU32_of_lt hroom, hroom, true_and, Except.ok.injEq, Prod.mk.injEq]
      constructor
      · rintro ⟨columns', -, hlast, hr⟩
        exact ⟨hr, hlast.symm⟩
      · rintro ⟨hr, hlast⟩
        exact ⟨_, rfl, hlast.symm, hr⟩
    · have hnone : Exec.tryIntoU32 count = none := if_neg hroom
      simp only [hnone, hroom, false_and, and_false, Except.ok.injEq, Prod.mk.injEq,
        reduceCtorEq, exists_false]

namespace DatasetKind

variable {C Row K : Type} (kind : DatasetKind C Row K) (profile : Profile)

/-- The rows are appended one after the other, none of them with a report. -/
def Appends : C → Option UInt64 → List Row → C → Option UInt64 → Prop
  | columns, lastBlock, [], columns', lastBlock' => columns' = columns ∧ lastBlock' = lastBlock
  | columns, lastBlock, row :: rows, columns', lastBlock' => ∃ mid last,
    appendChunk profile false kind.base (kind.push row) kind.pushEnd columns lastBlock
      ⟨(kind.row row).id.firstBlock, (kind.row row).id.lastBlock⟩ = .ok (mid, last, .ok ()) ∧
    Appends mid last rows columns' lastBlock'

/-- The columns hold the rows and the last block is theirs. -/
def Holds (columns : C) (lastBlock : Option UInt64) (rows : List Row) : Prop :=
  kind.Encodes columns rows ∧ lastBlock = rows.getLast?.map fun r => (kind.row r).id.lastBlock

/-- The ids of rows. -/
def ids (rows : List Row) : List DataChunk := rows.map fun row => (kind.row row).id

/-- The worker references of rows. -/
def references (rows : List Row) : Nat := (rows.map fun row => (kind.row row).workers.length).sum

variable {kind profile} {columns columns' : C} {lastBlock lastBlock' : Option UInt64}
  {before rows : List Row}

theorem Encodes.length_workerIndexes (h : kind.Encodes columns rows) :
    (kind.base columns).workerIndexes.length = kind.references rows := by
  rw [(kind.encodes_base h).workerIndexes, List.length_flatten, List.map_map, List.map_map]
  rfl

theorem Encodes.length_firstBlocks (h : kind.Encodes columns rows) :
    (kind.base columns).firstBlocks.length = rows.length := by
  rw [(kind.encodes_base h).length_firstBlocks, List.length_map]

/-- Columns that hold rows can be emitted. -/
theorem Holds.ready (h : kind.Holds columns lastBlock rows) (hne : rows ≠ []) :
    (kind.base columns).firstBlocks.length ≠ 0 ∧
      checkTopRuns (kind.base columns).tops = .ok () := by
  constructor
  · rw [Encodes.length_firstBlocks h.1]
    exact fun hlen => hne (List.length_eq_zero_iff.mp hlen)
  · exact checkTopRuns_of_encode (kind.encodes_base h.1).tops (by simpa using hne)

/-- One row appended without a report is held after the others. -/
theorem Holds.append {row : Row} (h : kind.Holds columns lastBlock before)
    (happend : appendChunk profile false kind.base (kind.push row) kind.pushEnd columns lastBlock
      ⟨(kind.row row).id.firstBlock, (kind.row row).id.lastBlock⟩ =
        .ok (columns', lastBlock', .ok ())) :
    kind.Holds columns' lastBlock' (before ++ [row]) := by
  rcases appendChunk_of_encodes (kind.base_push row) happend (kind.encodes_base h.1) with
    ⟨-, -, hr⟩ | ⟨_, _, -, -, hr⟩ | ⟨index, delta, stop, rfl, hbase, rfl, -⟩
  · cases hr
  · cases hr
  · exact ⟨kind.encodes_push row index delta stop h.1 hbase, by simp⟩

/-- All rows are held after the others. -/
theorem Appends.holds (h : kind.Appends profile columns lastBlock rows columns' lastBlock')
    (hbefore : kind.Holds columns lastBlock before) :
    kind.Holds columns' lastBlock' (before ++ rows) := by
  induction rows generalizing columns lastBlock before with
  | nil =>
    obtain ⟨rfl, rfl⟩ := h
    rwa [List.append_nil]
  | cons row rows ih =>
    obtain ⟨mid, last, happend, hrest⟩ := h
    rw [List.append_cons]
    exact ih hrest (hbefore.append happend)

/-- A row above the last block is appended without a report exactly if it follows and the worker
references can be counted. -/
theorem append_silent_iff {row : Row} (hbefore : kind.Encodes columns before)
    (hcount : before.length < 2 ^ 32) (hspan : (kind.row row).span < 2 ^ 32)
    (habove : ∀ stop, lastBlock = some stop → Above stop (kind.row row).id) :
    (∃ columns', appendChunk profile false kind.base (kind.push row) kind.pushEnd columns lastBlock
      ⟨(kind.row row).id.firstBlock, (kind.row row).id.lastBlock⟩ =
        .ok (columns', lastBlock', .ok ())) ↔
      (∀ stop, lastBlock = some stop → Follows stop (kind.row row).id) ∧
      kind.references before + (kind.row row).workers.length < 2 ^ 32 ∧
      lastBlock' = some (kind.row row).id.lastBlock := by
  rw [← continuityOf_passes_iff habove]
  refine appendChunk_silent_iff (kind.row row).id.first_le hspan ?_ ?_
  · rwa [Encodes.length_firstBlocks hbefore]
  · intro index delta
    rw [kind.base_push]
    simp only [StagedColumns.pushRow, List.length_append, Encodes.length_workerIndexes hbefore]

/-- Ascending rows are appended without a report exactly if each follows the one before it and
all worker references can be counted. -/
theorem exists_appends_iff (hbefore : kind.Holds columns lastBlock before)
    (hroom : kind.references before < 2 ^ 32) (hcount : before.length + rows.length ≤ 2 ^ 32)
    (hspan : ∀ row ∈ rows, (kind.row row).span < 2 ^ 32)
    (habove : ChainFrom Above lastBlock (kind.ids rows)) :
    (∃ columns' lastBlock', kind.Appends profile columns lastBlock rows columns' lastBlock') ↔
      ChainFrom Follows lastBlock (kind.ids rows) ∧
        kind.references before + kind.references rows < 2 ^ 32 := by
  induction rows generalizing columns lastBlock before with
  | nil => exact iff_of_true ⟨columns, lastBlock, rfl, rfl⟩ ⟨trivial, hroom⟩
  | cons row rows ih =>
    obtain ⟨hspanRow, hspanRows⟩ := List.forall_mem_cons.mp hspan
    rw [List.length_cons] at hcount
    have hsilent := fun last => @append_silent_iff _ _ _ kind profile columns lastBlock last before
      row hbefore.1 (by omega) hspanRow habove.1
    have hsplit : kind.references (row :: rows) =
        (kind.row row).workers.length + kind.references rows := by
      simp [references]
    have hsnoc : kind.references (before ++ [row]) =
        kind.references before + (kind.row row).workers.length := by
      simp [references]
    have hlength : (before ++ [row]).length + rows.length ≤ 2 ^ 32 := by
      rw [List.length_append, List.length_singleton]
      omega
    constructor
    · rintro ⟨columns', lastBlock', mid, last, happend, hrest⟩
      obtain ⟨hfollows, hwide, rfl⟩ := (hsilent last).mp ⟨mid, happend⟩
      obtain ⟨hchain, hrefs⟩ := (ih (hbefore.append happend) (hsnoc ▸ hwide) hlength hspanRows
        habove.2).mp ⟨columns', lastBlock', hrest⟩
      exact ⟨⟨hfollows, hchain⟩, by omega⟩
    · rintro ⟨⟨hfollows, hchain⟩, hrefs⟩
      have hwide : kind.references before + (kind.row row).workers.length < 2 ^ 32 := by omega
      obtain ⟨mid, happend⟩ := (hsilent _).mpr ⟨hfollows, hwide, rfl⟩
      obtain ⟨columns', lastBlock', hrest⟩ := (ih (hbefore.append happend) (hsnoc ▸ hwide) hlength
        hspanRows habove.2).mpr ⟨hchain, by omega⟩
      exact ⟨columns', lastBlock', mid, _, happend, hrest⟩

end DatasetKind

end SqdNetwork.Assignments
