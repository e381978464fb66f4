import SqdNetwork.Assignments.Accepted
import SqdNetwork.Assignments.PortalRoundTrip
import SqdNetwork.Core.Intervals
import Mathlib.Data.String.Basic

/-!
# Block routing in a built portal assignment

The staged chunks of a dataset are intervals of blocks. When they ascend without
overlap, the portal search computes where a block lies among them, and the
dataset lookup finds the one dataset with the given id.
-/

namespace SqdNetwork.Assignments

open SqdNetwork.Core

/-- First block of a range as a number. -/
def BlockRange.first (r : BlockRange) : Nat := r.start.toNat

/-- Last block of a range as a number. -/
def BlockRange.last (r : BlockRange) : Nat := r.stop.toNat

/-- The range holds the block. -/
def BlockRange.Holds (r : BlockRange) (block : UInt64) : Prop := r.start ≤ block ∧ block ≤ r.stop

/-- The block ranges staged for the appended chunks of a dataset, in order. -/
def FinishedPortalDataset.ranges (checkContinuity : Bool) (d : FinishedPortalDataset) :
    List BlockRange :=
  (appendedPortalCalls checkContinuity d.log).filterMap fun calls =>
    (PortalStaged.ofCalls calls).blockRange

/-- The range of a row. -/
def PortalRow.range (row : PortalRow) : BlockRange := ⟨row.id.firstBlock, row.id.lastBlock⟩

/-- Rows staged by the appended chunks have the staged ranges. -/
theorem ranges_of_staged {chunks : List (List PortalChunkCall)} {rows : List PortalRow}
    (h : List.Forall₂ PortalRow.StagedBy chunks rows) :
    (chunks.filterMap fun calls => (PortalStaged.ofCalls calls).blockRange) =
      rows.map PortalRow.range := by
  induction h with
  | nil => rfl
  | cons hrow _ ih =>
    rw [List.filterMap_cons, hrow.blockRange, ih]
    rfl

/-- The search's answer for a place among the chunks of a dataset. -/
def placeAnswer (dataset : PortalAssignmentDataset) : Place → Except ChunkNotFound PortalChunk
  | .after => .error .afterLast
  | .before => .error .beforeFirst
  | .gap => .error .inGap
  | .inside i => .ok ⟨dataset, UInt32.ofNat i⟩

section FindChunk

variable {c : PortalDatasetColumns} {rows : List PortalRow} {dataset : PortalAssignmentDataset}
  {id : String} {lastBlock : UInt64} {lastBlockHash : Option String} {readSchemaId : UInt32}
  (hdataset : dataset = c.toDataset id lastBlock lastBlockHash readSchemaId)
  (henc : c.Encodes rows)
  (hsep : Separated BlockRange.first BlockRange.last (rows.map PortalRow.range))

include hdataset henc hsep

/-- Bisecting the first blocks counts the chunks that start at or before the block. -/
theorem partitionPoint_firstBlocks (block : UInt64) :
    partitionPoint dataset.firstBlocks.length (fun i => do
      let first ← Exec.index dataset.firstBlocks i
      .ok (decide (first ≤ block))) = (.ok ((rows.map PortalRow.range).takeWhile fun r =>
        r.first ≤ block.toNat).length : Exec Nat) := by
  have hfirst : dataset.firstBlocks = (rows.map PortalRow.range).map BlockRange.start := by
    rw [hdataset]
    simp [PortalDatasetColumns.toDataset, StagedColumns.emit, henc.base.firstBlocks,
      PortalRow.range]
  have hblock : (rows.map PortalRow.range).Pairwise fun a b =>
      decide (b.first ≤ block.toNat) = true → decide (a.first ≤ block.toNat) = true := by
    refine hsep.apart.imp_of_mem ?_
    intro a b ha _ hab hb
    have hproper := hsep.proper a ha
    exact decide_eq_true (by have := of_decide_eq_true hb; omega)
  rw [← bisectPoint_takeWhile hblock, hfirst, List.length_map]
  apply bisect_eq_pure
  intro i _ hi
  have hget := List.getElem?_eq_getElem hi
  rw [Exec.index_eq_ok (by rw [List.getElem?_map, hget, Option.map_some]), hget]
  simp only [Exec.ok_bind, Option.any_some, UInt64.le_iff_toNat_le, BlockRange.first]
  rfl

/-- On a dataset in step with its chunks the search answers by the block's place among them. -/
theorem findChunk_eq_place {a : PortalAssignment} {name : String} {block : UInt64}
    (hget : a.getDataset name = .ok (some dataset))
    (hlast : some lastBlock = rows.getLast?.map fun row => row.id.lastBlock) :
    a.findChunk name block = .ok (placeAnswer dataset
      (place BlockRange.first BlockRange.last (rows.map PortalRow.range) block.toNat)) := by
  obtain ⟨lastRow, hlastRow, rfl⟩ := Option.map_eq_some_iff.mp hlast.symm
  have hrange : (rows.map PortalRow.range).getLast? = some lastRow.range := by
    rw [List.getLast?_map, hlastRow, Option.map_some]
  have hafter : ((rows.map PortalRow.range).getLast?.any fun r => r.last < block.toNat) = true ↔
      block > dataset.lastBlock := by
    rw [hrange, Option.any_some, decide_eq_true_eq, hdataset]
    exact UInt64.lt_iff_toNat_lt.symm
  rw [PortalAssignment.findChunk, hget, Exec.ok_bind, place]
  dsimp only
  by_cases hb : block > dataset.lastBlock
  · rw [if_pos hb, if_pos (hafter.mpr hb)]
    rfl
  · rw [if_neg hb, if_neg (fun h => hb (hafter.mp h)),
      partitionPoint_firstBlocks hdataset henc hsep, Exec.ok_bind]
    cases hk : ((rows.map PortalRow.range).takeWhile fun r => r.first ≤ block.toNat).length with
    | zero => rfl
    | succ i =>
      have hi : i < rows.length := by
        have hle := (List.takeWhile_sublist (l := rows.map PortalRow.range)
          fun r => decide (r.first ≤ block.toNat)).length_le
        rw [List.length_map] at hle
        omega
      have hcount : i < dataset.chunkCount := by
        rw [hdataset, henc.chunkCount_toDataset]
        exact hi
      have hnat : (UInt32.ofNat i).toNat = i := by
        have hmax := henc.base.count
        rw [List.length_map] at hmax
        exact UInt32.toNat_ofNat_of_lt' (Nat.lt_of_lt_of_le hi hmax)
      obtain ⟨row, hrow⟩ : ∃ row, rows[i]? = some row := ⟨_, List.getElem?_eq_getElem hi⟩
      have hread : (PortalChunk.lastBlock ⟨dataset, UInt32.ofNat i⟩) = .ok row.id.lastBlock := by
        rw [hdataset]
        apply henc.base.lastBlock_emit
        rw [hnat, List.getElem?_map, hrow, Option.map_some]
      have hgap : row.range.last < block.toNat ↔ block > row.id.lastBlock :=
        UInt64.lt_iff_toNat_lt.symm
      simp only [(PortalAssignment.chunk_ofNat hcount).1, Exec.expect_some, Exec.ok_bind, hread,
        List.getElem?_map, hrow, Option.map_some, Option.any_some, decide_eq_true_eq, hgap]
      split <;> rfl

end FindChunk

/-- A search answers exactly by the ranges of a dataset's chunks. -/
structure RoutedExactly (ranges : List BlockRange) (dataset : PortalAssignmentDataset)
    (block : UInt64) (r : Except ChunkNotFound PortalChunk) : Prop where
  afterLast : r = .error .afterLast ↔ ∃ last, ranges.getLast? = some last ∧ last.stop < block
  beforeFirst : r = .error .beforeFirst ↔ ∃ first, ranges.head? = some first ∧ block < first.start
  found : ∀ chunk, r = .ok chunk ↔ chunk.dataset = dataset ∧
    ∃ range, ranges[chunk.index.toNat]? = some range ∧ range.Holds block
  /-- At most one chunk holds the block. -/
  unique : ∀ (i j : Nat) (r s : BlockRange), ranges[i]? = some r → ranges[j]? = some s →
    r.Holds block → s.Holds block → i = j
  inGap : r = .error .inGap ↔ (¬ ∃ last, ranges.getLast? = some last ∧ last.stop < block) ∧
    (¬ ∃ first, ranges.head? = some first ∧ block < first.start) ∧
    ∀ range ∈ ranges, ¬ range.Holds block

/-- Answering by place among separated ranges is exact. -/
theorem routedExactly_placeAnswer {ranges : List BlockRange}
    (hsep : Separated BlockRange.first BlockRange.last ranges) (hne : ranges ≠ [])
    (hcount : ranges.length ≤ 2 ^ 32) (dataset : PortalAssignmentDataset) (block : UInt64) :
    RoutedExactly ranges dataset block
      (placeAnswer dataset (place BlockRange.first BlockRange.last ranges block.toNat)) := by
  have hafter : place BlockRange.first BlockRange.last ranges block.toNat = .after ↔
      ∃ last, ranges.getLast? = some last ∧ last.stop < block := by
    simp only [Separated.place_after_iff, BlockRange.last, UInt64.lt_iff_toNat_lt]
  have hbefore : place BlockRange.first BlockRange.last ranges block.toNat = .before ↔
      ∃ first, ranges.head? = some first ∧ block < first.start := by
    simp only [hsep.place_before_iff hne, BlockRange.first, UInt64.lt_iff_toNat_lt]
  have hinside : ∀ i, place BlockRange.first BlockRange.last ranges block.toNat = .inside i ↔
      ∃ range, ranges[i]? = some range ∧ range.Holds block := by
    intro i
    simp only [hsep.place_inside_iff, BlockRange.first, BlockRange.last, BlockRange.Holds,
      UInt64.le_iff_toNat_le]
  generalize place BlockRange.first BlockRange.last ranges block.toNat = p
    at hafter hbefore hinside
  refine ⟨?_, ?_, ?_, ?_, ?_⟩
  · rw [← hafter]
    cases p <;> simp [placeAnswer]
  · rw [← hbefore]
    cases p <;> simp [placeAnswer]
  · rintro ⟨d, index⟩
    rw [← hinside]
    constructor
    · intro hok
      cases p with
      | inside i =>
        obtain ⟨range, hrange, -⟩ := (hinside i).mp rfl
        have hlt := (List.getElem?_eq_some_iff.mp hrange).1
        cases hok
        exact ⟨rfl, by rw [UInt32.toNat_ofNat_of_lt' (Nat.lt_of_lt_of_le hlt hcount)]⟩
      | after => exact absurd hok (by simp [placeAnswer])
      | before => exact absurd hok (by simp [placeAnswer])
      | gap => exact absurd hok (by simp [placeAnswer])
    · rintro ⟨rfl, rfl⟩
      simp [placeAnswer]
  · intro i j r s hr hs hir his
    refine hsep.unique hr hs (x := block.toNat) ?_ ?_
    · exact ⟨UInt64.le_iff_toNat_le.mp hir.1, UInt64.le_iff_toNat_le.mp hir.2⟩
    · exact ⟨UInt64.le_iff_toNat_le.mp his.1, UInt64.le_iff_toNat_le.mp his.2⟩
  · have hnone : (∀ range ∈ ranges, ¬ range.Holds block) ↔ ∀ i, p ≠ .inside i := by
      simp only [ne_eq, hinside, List.mem_iff_getElem?]
      grind
    rw [← hafter, ← hbefore, hnone]
    cases p <;> simp [placeAnswer]

/-- Ranges of rows that ascend without overlap are separated. -/
theorem separated_ranges {rows : List PortalRow}
    (h : (rows.map PortalRow.range).Pairwise fun r s => r.stop < s.start) :
    Separated BlockRange.first BlockRange.last (rows.map PortalRow.range) := by
  refine ⟨fun r hr => ?_, h.imp fun hlt => UInt64.lt_iff_toNat_lt.mp hlt⟩
  obtain ⟨row, -, rfl⟩ := List.mem_map.mp hr
  exact UInt64.le_iff_toNat_le.mp row.id.first_le

/-- In an accepted dataset with ascending chunks, of which there are not too many, the search
answers by the block's place among their ranges. -/
theorem PortalEmittedFrom.findChunk_eq {check : Bool} {d : FinishedPortalDataset}
    {dataset : PortalAssignmentDataset} (h : PortalEmittedFrom check d dataset)
    (hcheck : dataset.check = .ok ())
    (hranges : (d.ranges check).Pairwise fun r s => r.stop < s.start) {a : PortalAssignment}
    {name : String} (hget : a.getDataset name = .ok (some dataset)) (block : UInt64) :
    Separated BlockRange.first BlockRange.last (d.ranges check) ∧ d.ranges check ≠ [] ∧
      (d.ranges check).length ≤ 2 ^ 32 ∧ a.findChunk name block = .ok (placeAnswer dataset
        (place BlockRange.first BlockRange.last (d.ranges check) block.toNat)) := by
  obtain ⟨lastBlock, rfl, hne, hinstep⟩ := h
  have haligned := (PortalAssignmentDataset.check_eq_ok.mp hcheck).1
  obtain ⟨rows, henc, hrows, hlast⟩ := hinstep.encodes fun hover => hover.not_aligned haligned
  have henc : d.staged.Encodes rows := henc
  have he : d.ranges check = rows.map PortalRow.range := ranges_of_staged hrows
  rw [he] at hranges ⊢
  have hsep := separated_ranges hranges
  have hrowsNe : rows ≠ [] := by
    rintro rfl
    exact hne henc.base.firstBlocks
  have hcount := henc.base.count
  rw [List.length_map] at hcount
  exact ⟨hsep, by simpa using hrowsNe, by simpa using hcount,
    findChunk_eq_place rfl henc hsep hget hlast⟩

/-- In an accepted dataset with ascending chunks the search is exact. -/
theorem PortalEmittedFrom.routed {check : Bool} {d : FinishedPortalDataset}
    {dataset : PortalAssignmentDataset} (h : PortalEmittedFrom check d dataset)
    (hcheck : dataset.check = .ok ())
    (hranges : (d.ranges check).Pairwise fun r s => r.stop < s.start) {a : PortalAssignment}
    {name : String} (hget : a.getDataset name = .ok (some dataset)) (block : UInt64) :
    ∃ r, a.findChunk name block = .ok r ∧ r ≠ .error .unknownDataset ∧
      RoutedExactly (d.ranges check) dataset block r := by
  obtain ⟨hsep, hne, hcount, hfind⟩ := h.findChunk_eq hcheck hranges hget block
  refine ⟨_, hfind, ?_, routedExactly_placeAnswer hsep hne hcount _ block⟩
  cases place BlockRange.first BlockRange.last (d.ranges check) block.toNat <;>
    simp [placeAnswer]

/-- Emitted datasets keep the ids of the finished ones. -/
theorem PortalEmittedFrom.ids_eq {check : Bool} {ds : List FinishedPortalDataset}
    {datasets : List PortalAssignmentDataset}
    (h : List.Forall₂ (PortalEmittedFrom check) ds datasets) :
    ds.map FinishedPortalDataset.id = datasets.map PortalAssignmentDataset.id := by
  refine StagedColumns.map_eq_map_of_forall₂ ?_ h
  rintro d dataset ⟨_, rfl, -⟩
  rfl

open PortalAssignmentBuilder in
/-- An accepted blob of a run holds the emitted datasets, each past its checks. -/
theorem emitted_of_accepted {P : Type} [LT P] [DecidableLT P] {profile : Profile}
    {toBytes : P → List UInt8} {fb : FlatBuffers PortalAssignmentRoot} {check : Bool}
    {ops : List (PortalOp P)} {b : PortalAssignmentBuilder P}
    {log : List (PortalOp P × PortalResult)} {a : PortalAssignment}
    (hrun : runScript (step profile toBytes) (new.setCheckContinuity check) ops = .ok (b, log))
    (haccept : PortalAssignment.fromOwned fb (fb.finish b.finish) = .ok a) :
    List.Forall₂ (PortalEmittedFrom check) (finishedPortalDatasets log) a.datasets ∧
      ∀ dataset ∈ a.datasets, dataset.check = .ok () := by
  obtain ⟨hroot, hchecks⟩ := PortalAssignment.fromOwned_eq_ok.mp haccept
  rw [fb.root_finish, Except.ok.injEq] at hroot
  have hdatasets : a.datasets = b.allDatasets := by
    rw [PortalAssignment.datasets, ← hroot]
    rfl
  exact ⟨hdatasets ▸ (between_of_runScript hrun).datasets, hchecks⟩

open PortalAssignmentBuilder in
/-- In an accepted blob whose datasets were finished in strictly ascending id order, each with
ascending chunks that do not overlap, block lookups are exact. -/
theorem portal_block_routing_exact {P : Type} [LT P] [DecidableLT P] (profile : Profile)
    (toBytes : P → List UInt8) (fb : FlatBuffers PortalAssignmentRoot) (check : Bool)
    (ops : List (PortalOp P)) (b : PortalAssignmentBuilder P)
    (log : List (PortalOp P × PortalResult)) (a : PortalAssignment)
    (hrun : runScript (step profile toBytes) (new.setCheckContinuity check) ops = .ok (b, log))
    (haccept : PortalAssignment.fromOwned fb (fb.finish b.finish) = .ok a)
    (hids : ((finishedPortalDatasets log).map FinishedPortalDataset.id).Pairwise (· < ·))
    (hranges : ∀ d ∈ finishedPortalDatasets log,
      (d.ranges check).Pairwise fun r s => r.stop < s.start)
    (name : String) (block : UInt64) :
    ∃ r, a.findChunk name block = .ok r ∧
      (r = .error .unknownDataset ↔ ∀ d ∈ finishedPortalDatasets log, d.id ≠ name) ∧
      ∀ (i : Nat) (d : FinishedPortalDataset), (finishedPortalDatasets log)[i]? = some d →
        d.id = name →
        ∃ dataset, a.datasets[i]? = some dataset ∧
          RoutedExactly (d.ranges check) dataset block r := by
  obtain ⟨hemitted, hchecks⟩ := emitted_of_accepted hrun haccept
  have hsame := PortalEmittedFrom.ids_eq hemitted
  have hnodup := hids.imp fun hlt => ne_of_lt hlt
  have hsorted : a.datasets.Pairwise fun x y => compare x.id y.id = .lt :=
    ascending_of_keys hsame.symm hids
  rcases lookupByKey_of_ascending hsorted name with ⟨dataset, hx, hid, hget⟩ | ⟨hnone, hget⟩
  · obtain ⟨i, hi, rfl⟩ := List.mem_iff_getElem.mp hx
    have hi' : i < (finishedPortalDatasets log).length := hemitted.length_eq ▸ hi
    have hpos : ((finishedPortalDatasets log).map FinishedPortalDataset.id)[i]? = some name := by
      rw [hsame, List.getElem?_map, List.getElem?_eq_getElem hi, Option.map_some, hid]
    obtain ⟨r, hr, hknown, hrouted⟩ := (hemitted.get hi' hi).routed (hchecks _ hx)
      (hranges _ (List.getElem_mem hi')) hget block
    refine ⟨r, hr, iff_of_false hknown fun hall => ?_, fun j d hd hdid => ?_⟩
    · obtain ⟨d, hd, hdid⟩ := List.mem_map.mp (List.mem_of_getElem? hpos)
      exact hall d hd hdid
    · have hj : ((finishedPortalDatasets log).map FinishedPortalDataset.id)[j]? = some name := by
        rw [List.getElem?_map, hd, Option.map_some, hdid]
      have hij : i = j := (List.getElem?_inj (by simpa using hi') hnodup).mp (hpos.trans hj.symm)
      subst hij
      rw [List.getElem?_eq_getElem hi', Option.some.injEq] at hd
      subst hd
      exact ⟨_, List.getElem?_eq_getElem hi, hrouted⟩
  · have hunknown : ∀ d ∈ finishedPortalDatasets log, d.id ≠ name := by
      intro d hd hdid
      have hid := List.mem_map_of_mem (f := FinishedPortalDataset.id) hd
      rw [hsame] at hid
      obtain ⟨dataset, hdataset, he⟩ := List.mem_map.mp hid
      exact hnone dataset hdataset (he.trans hdid)
    refine ⟨.error .unknownDataset, ?_, iff_of_true rfl hunknown, fun j d hd hdid => ?_⟩
    · rw [PortalAssignment.findChunk, PortalAssignment.getDataset, hget]
      rfl
    · exact absurd hdid (hunknown d (List.mem_of_getElem? hd))

open PortalAssignmentBuilder in
theorem portal_block_routing_exact_sample :
    ∃ b log a, runScript (step .release fun n => List.replicate 38 (UInt8.ofNat n))
        (new.setCheckContinuity false) samplePortalRun = .ok (b, log) ∧
      PortalAssignment.fromOwned (.plain _) b.finish = .ok a ∧
      (finishedPortalDatasets log).map FinishedPortalDataset.id = ["a", "b"] ∧
      ∀ name block, ∃ r, a.findChunk name block = .ok r ∧
        (r = .error .unknownDataset ↔ ∀ d ∈ finishedPortalDatasets log, d.id ≠ name) ∧
        ∀ (i : Nat) (d : FinishedPortalDataset), (finishedPortalDatasets log)[i]? = some d →
          d.id = name →
          ∃ dataset, a.datasets[i]? = some dataset ∧
            RoutedExactly (d.ranges false) dataset block r := by
  have hrun : (runScript (step .release fun n => List.replicate 38 (UInt8.ofNat n))
      (new.setCheckContinuity false) samplePortalRun).passes (fun (b, log) =>
        (PortalAssignment.fromOwned (.plain _) b.finish).toOption.isSome ∧
        (finishedPortalDatasets log).map FinishedPortalDataset.id = ["a", "b"] ∧
        ∀ d ∈ finishedPortalDatasets log,
          (d.ranges false).Pairwise fun r s => r.stop < s.start) = true := by decide
  obtain ⟨⟨b, log⟩, hok, htest⟩ := Exec.exists_of_passes hrun
  obtain ⟨haccept, hids, hranges⟩ := of_decide_eq_true htest
  cases ha : PortalAssignment.fromOwned (.plain _) b.finish with
  | error e => simp [ha, Except.toOption] at haccept
  | ok a =>
    exact ⟨b, log, a, hok, ha, hids, portal_block_routing_exact .release _ (.plain _) false
      samplePortalRun b log a hok ha (by rw [hids]; decide) hranges⟩

end SqdNetwork.Assignments
