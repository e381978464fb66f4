import Mathlib.Algebra.Order.BigOperators.Group.List
import SqdNetwork.DataChunk.RoundTrip
import SqdNetwork.Assignments.Appending
import SqdNetwork.Assignments.Conversion
import SqdNetwork.Assignments.TablesPresent

/-!
# What the converter is given

The conditions under which a legacy assignment is to be converted, and what they
make of its chunks: each has the id that its text spells, the tables of a chunk
are strictly ascending, and they lie within the roster of the dataset.
-/

namespace SqdNetwork.Assignments

open SqdNetwork.Core

/-- A chunk filed under a dataset by the canonical text of an id: the id starts with the chunk's
first block, and the blocks after the first can be counted in 32 bits. -/
structure Chunk.FiledAs (datasetId : String) (c : Chunk) (id : DataChunk) : Prop where
  canonical : c.id = id.toString
  firstBlock : id.firstBlock = c.firstBlock
  datasetId : c.datasetId = datasetId
  span : (id.lastBlock - id.firstBlock).toNat < 2 ^ 32

/-- Between a chunk and the next, by the last block that its id spells. -/
def Chunk.Before (related : UInt64 → UInt64 → Prop) (a b : Chunk) : Prop :=
  ∀ id, DataChunk.fromStr a.id = some id → related id.lastBlock b.firstBlock

/-- A dataset to be converted: its chunks are filed under it and ascend, with or without gaps, and
its last block is where the last chunk ends. -/
structure Dataset.Convertible (d : Dataset) : Prop where
  filed : ∀ c ∈ d.chunks, ∃ id, c.FiledAs d.id id
  ascending : d.chunks.IsChain (Chunk.Before fun stop start => stop < start)
  /-- In particular there is a last chunk. -/
  lastBlock : ∃ c id, d.chunks.getLast? = some c ∧ DataChunk.fromStr c.id = some id ∧
    d.lastBlock = id.lastBlock

/-- Every chunk starts right after the one before it. -/
def Dataset.Contiguous (d : Dataset) : Prop :=
  d.chunks.IsChain (Chunk.Before fun stop start => start.toNat = stop.toNat + 1)

/-- The references to workers in a dataset. -/
def Dataset.workerReferences (d : Dataset) : Nat :=
  (d.chunks.map fun c => c.workerIndexes.length).sum

/-- The bytes of a chunk's bitmap: a bit for each table of the roster, unless all are there. -/
def bitmapSize (roster : List String) (c : Chunk) : Nat :=
  if (tablesOf c).length ≠ roster.length then (roster.length + 7) / 8 else 0

/-- The bytes of all bitmaps of a dataset. -/
def Dataset.bitmapBytes (d : Dataset) : Nat := (d.chunks.map (bitmapSize (rosterOf d))).sum

/-- A legacy assignment to be converted: its datasets are, and its workers have headers, fit the
16 bits that chunks name them by and ascend by their peer ids. -/
structure Assignment.Convertible {P : Type} [LT P] (fromBytes : List UInt8 → Option P)
    (legacy : Assignment) : Prop where
  datasets : ∀ d ∈ legacy.datasets, d.Convertible
  workerCount : legacy.workers.length ≤ 65536
  ascending : ∃ ids : List P, ids.IsChain (· < ·) ∧
    legacy.workers.map (fun entry => entry.workerId.tryInto fromBytes) = ids.map some
  headers : ∀ entry ∈ legacy.workers, ∃ headers, entry.encryptedHeaders = some headers

/-- What a buffer can store: offsets into it take 32 bits, so that its datasets, the chunks of one
and the different names of their tables can be counted in as many. -/
structure Assignment.Stored (legacy : Assignment) : Prop where
  datasets : legacy.datasets.length < 2 ^ 32
  chunks : ∀ d ∈ legacy.datasets, d.chunks.length < 2 ^ 32
  tables : ∀ d ∈ legacy.datasets, (rosterOf d).length < 2 ^ 32

/-- The chunks of a dataset with the ids their texts spell. -/
def Dataset.parsed (d : Dataset) : List (Chunk × DataChunk) :=
  d.chunks.filterMap fun c => (DataChunk.fromStr c.id).map fun id => (c, id)

section Chunks

variable {datasetId : String} {c : Chunk} {id : DataChunk}

theorem Chunk.FiledAs.fromStr (h : c.FiledAs datasetId id) : DataChunk.fromStr c.id = some id := by
  rw [h.canonical]
  exact DataChunk.fromStr_toString id

/-- The id of a filed chunk is accepted. -/
theorem Chunk.FiledAs.idOf (h : c.FiledAs datasetId id) : (idOf c).Gives id := by
  refine Fallible.gives_bind.mpr ⟨id, Fallible.gives_context.mpr h.fromStr, ?_⟩
  refine Fallible.gives_bind.mpr ⟨(), Fallible.gives_ensure.mpr ?_, Fallible.gives_pure.mpr rfl⟩
  exact beq_iff_eq.mpr h.firstBlock

end Chunks

namespace Dataset.Convertible

variable {d : Dataset}

/-- Every chunk is parsed, in order. -/
theorem map_parsed (h : d.Convertible) : d.parsed.map Prod.fst = d.chunks := by
  have hfiled := h.filed
  unfold Dataset.parsed
  generalize d.chunks = chunks at hfiled
  induction chunks with
  | nil => rfl
  | cons c chunks ih =>
    obtain ⟨⟨id, hid⟩, hrest⟩ := List.forall_mem_cons.mp hfiled
    rw [List.filterMap_cons, hid.fromStr, Option.map_some, List.map_cons, ih hrest]

theorem filedAs (h : d.Convertible) {entry : Chunk × DataChunk} (he : entry ∈ d.parsed) :
    entry.1.FiledAs d.id entry.2 := by
  obtain ⟨c, hc, hentry⟩ := List.mem_filterMap.mp he
  obtain ⟨id, hid, rfl⟩ := Option.map_eq_some_iff.mp hentry
  obtain ⟨id', hfiled⟩ := h.filed c hc
  rwa [Option.some.inj (hid.symm.trans hfiled.fromStr)]

theorem length_parsed (h : d.Convertible) : d.parsed.length = d.chunks.length := by
  rw [← h.map_parsed, List.length_map]

/-- The chunk at a position with its id. -/
theorem getElem?_parsed (h : d.Convertible) {i : Nat} {c : Chunk} (hc : d.chunks[i]? = some c) :
    ∃ id, d.parsed[i]? = some (c, id) ∧ c.FiledAs d.id id := by
  rw [← h.map_parsed, List.getElem?_map] at hc
  obtain ⟨⟨c', id⟩, hentry, rfl⟩ := Option.map_eq_some_iff.mp hc
  exact ⟨id, hentry, h.filedAs (List.mem_of_getElem? hentry)⟩

/-- A relation between neighbours is one between the ids. -/
theorem isChain_before_iff (h : d.Convertible) {related : UInt64 → UInt64 → Prop} :
    d.chunks.IsChain (Chunk.Before related) ↔
      ChainFrom (fun stop id => related stop id.firstBlock) none (d.parsed.map Prod.snd) := by
  rw [chainFrom_none_iff, List.isChain_map, ← h.map_parsed, List.isChain_map]
  refine List.IsChain.iff_of_mem_imp fun a b ha hb => ?_
  have hfirst := (h.filedAs hb).firstBlock
  constructor
  · intro hab
    rw [hfirst]
    exact hab a.2 (h.filedAs ha).fromStr
  · intro hab id hid
    rw [Option.some.inj (hid.symm.trans (h.filedAs ha).fromStr), ← hfirst]
    exact hab

theorem above (h : d.Convertible) : ChainFrom Above none (d.parsed.map Prod.snd) :=
  h.isChain_before_iff.mp h.ascending

theorem contiguous_iff (h : d.Convertible) :
    d.Contiguous ↔ ChainFrom Follows none (d.parsed.map Prod.snd) :=
  h.isChain_before_iff

/-- The dataset ends where its last chunk does. -/
theorem getLast?_parsed (h : d.Convertible) :
    (d.parsed.map Prod.snd).getLast?.map DataChunk.lastBlock = some d.lastBlock := by
  obtain ⟨c, id, hlast, hid, hblock⟩ := h.lastBlock
  rw [← h.map_parsed, List.getLast?_map] at hlast
  obtain ⟨entry, hentry, rfl⟩ := Option.map_eq_some_iff.mp hlast
  have hfiled := h.filedAs (List.mem_of_getLast? hentry)
  rw [List.getLast?_map, hentry, Option.map_some, Option.map_some, hblock,
    Option.some.inj (hid.symm.trans hfiled.fromStr)]

theorem chunks_ne_nil (h : d.Convertible) : d.chunks ≠ [] := by
  obtain ⟨c, -, hlast, -⟩ := h.lastBlock
  rintro hnil
  rw [hnil] at hlast
  cases hlast

end Dataset.Convertible

section Tables

instance totalNotGt : Std.Total fun a b : String => ¬b < a where
  total a b := by
    by_cases h : b < a
    · exact Or.inr (String.lt_asymm h)
    · exact Or.inl h

instance transNotGt : IsTrans String fun a b : String => ¬b < a where
  trans _ _ _ hab hbc := Std.not_lt.mpr (Std.le_trans (Std.not_lt.mp hab) (Std.not_lt.mp hbc))

/-- The tables of a chunk are strictly ascending. -/
theorem tablesOf_sorted (c : Chunk) : (tablesOf c).Pairwise (· < ·) := by
  unfold tablesOf
  dsimp only
  generalize c.files.filterMap (fun file => stripSuffix ".parquet" file.filename) = names
  have hsorted := ((names.pairwise_insertionSort fun a b => ¬b < a).sublist
    (List.destutter_sublist (· ≠ ·) _)).isChain
  have hdistinct := List.isChain_destutter (· ≠ ·) (names.insertionSort fun a b => ¬b < a)
  have hchain : ((names.insertionSort fun a b => ¬b < a).destutter (· ≠ ·)).IsChain (· < ·) := by
    refine List.isChain_iff_getElem.mpr fun i hi => Std.lt_of_le_of_ne (Std.not_lt.mp ?_) ?_
    · exact List.isChain_iff_getElem.mp hsorted i hi
    · exact List.isChain_iff_getElem.mp hdistinct i hi
  exact List.isChain_iff_pairwise.mp hchain

/-- A roster is strictly ascending. -/
theorem rosterOf_sorted (d : Dataset) : (rosterOf d).Pairwise (· < ·) := by
  unfold rosterOf
  rw [List.pairwise_map]
  exact SortedMap.sorted _

/-- A roster has exactly the tables of the chunks. -/
theorem mem_rosterOf_iff {d : Dataset} {table : String} :
    table ∈ rosterOf d ↔ ∃ c ∈ d.chunks, table ∈ tablesOf c := by
  have hgrown : ∀ (chunks : List Chunk) (union : SortedMap String Unit),
      (chunks.foldl (fun union chunk => (tablesOf chunk).foldl
        (fun union table => union.insert table ()) union) union).contains table = true ↔
      (∃ c ∈ chunks, table ∈ tablesOf c) ∨ union.contains table = true := by
    intro chunks
    induction chunks with
    | nil => simp
    | cons first rest ih =>
      intro union
      rw [List.foldl_cons, ih, SortedMap.contains_foldl_insert]
      simp [or_assoc, or_left_comm]
  have hunion := hgrown d.chunks .empty
  have hempty : (SortedMap.empty : SortedMap String Unit).contains table = false := rfl
  rw [hempty, Bool.false_eq_true, or_false] at hunion
  rw [← hunion, SortedMap.contains, Option.isSome_iff_exists, rosterOf, List.mem_map]
  constructor
  · rintro ⟨⟨key, value⟩, hentry, rfl⟩
    exact ⟨value, SortedMap.get?_eq_some_iff.mpr hentry⟩
  · rintro ⟨value, hvalue⟩
    exact ⟨_, SortedMap.get?_eq_some_iff.mp hvalue, rfl⟩

theorem mem_rosterOf {d : Dataset} {c : Chunk} (hc : c ∈ d.chunks) {table : String}
    (ht : table ∈ tablesOf c) : table ∈ rosterOf d :=
  mem_rosterOf_iff.mpr ⟨c, hc, ht⟩

theorem nodup_of_ascending {tables : List String} (h : tables.Pairwise (· < ·)) :
    tables.Nodup := by
  refine h.imp ?_
  rintro a _ hab rfl
  exact String.lt_irrefl a hab

/-- A chunk with as many tables as the roster has all of them. -/
theorem tablesOf_eq_rosterOf {d : Dataset} {c : Chunk} (hc : c ∈ d.chunks)
    (hlength : (tablesOf c).length = (rosterOf d).length) : tablesOf c = rosterOf d := by
  have hperm : (tablesOf c).Perm (rosterOf d) :=
    ((nodup_of_ascending (tablesOf_sorted c)).subperm fun _ => mem_rosterOf hc).perm_of_length_le
      hlength.ge
  exact (tablesOf_sorted c).eq_of_mem_iff (rosterOf_sorted d) fun _ => hperm.mem_iff

end Tables

end SqdNetwork.Assignments
