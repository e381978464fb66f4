import Mathlib.Data.List.Sort
import SqdNetwork.Core.Bitmap
import SqdNetwork.Assignments.Lookup
import SqdNetwork.Assignments.Registered

/-!
# Table bitmaps

A chunk's tables are stored as a bitmap over its schema's roster. The builder's
single pass accepts exactly the strictly ascending lists of roster names and sets
the bits of their positions; the reader filters the roster by those bits. An empty
slice stands for the whole roster, which is what a chunk without a list has.
-/

namespace SqdNetwork.Assignments

open SqdNetwork.Core

/-- Where the cursor stops for a name. -/
def cursor (roster : List String) (name : String) (index : Nat) : Nat :=
  index + ((roster.drop index).takeWhile (· < name)).length

theorem selectTables_cons (roster : List String) (writeSchemaId : UInt32) (name : String)
    (names : List String) (index : Nat) (bits : List UInt8) :
    selectTables roster writeSchemaId (name :: names) index bits =
      if roster[cursor roster name index]? = some name then
        selectTables roster writeSchemaId names (cursor roster name index + 1)
          (setBit bits (cursor roster name index))
      else (bits, .error (.tableAbsent name writeSchemaId)) := rfl

/-- The pass keeps the bitmap's length. -/
theorem length_selectTables (roster : List String) (writeSchemaId : UInt32) (names : List String)
    (index : Nat) (bits : List UInt8) :
    (selectTables roster writeSchemaId names index bits).1.length = bits.length := by
  induction names generalizing index bits with
  | nil => rfl
  | cons name names ih =>
    rw [selectTables_cons]
    split
    · rw [ih, length_setBit]
    · rfl

section Pass

variable {roster : List String} (hsorted : roster.Pairwise (· < ·))

include hsorted

/-- In a sorted roster the positions decide the order. -/
theorem roster_lt_iff {i j : Nat} {a b : String} (hi : roster[i]? = some a)
    (hj : roster[j]? = some b) : a < b ↔ i < j := by
  obtain ⟨hil, rfl⟩ := List.getElem?_eq_some_iff.mp hi
  obtain ⟨hjl, rfl⟩ := List.getElem?_eq_some_iff.mp hj
  have hget := List.pairwise_iff_getElem.mp hsorted
  rcases Nat.lt_trichotomy i j with hlt | rfl | hgt
  · exact iff_of_true (hget i j hil hjl hlt) hlt
  · exact iff_of_false (String.lt_irrefl _) (Nat.lt_irrefl i)
  · exact iff_of_false (String.lt_asymm (hget j i hjl hil hgt)) (Nat.lt_asymm hgt)

/-- A name at or after the cursor's start stops the cursor at its own position. -/
theorem cursor_eq {index i : Nat} {name : String} (hle : index ≤ i)
    (hi : roster[i]? = some name) : cursor roster name index = i := by
  have hprefix : (roster.drop index).Pairwise
      fun a b => decide (b < name) = true → decide (a < name) = true := by
    refine (hsorted.sublist (List.drop_sublist index roster)).imp fun hab hb => ?_
    exact decide_eq_true (String.lt_trans hab (of_decide_eq_true hb))
  have hbefore : ∀ k, index + k < roster.length →
      (index + k < i ↔ k < ((roster.drop index).takeWhile (· < name)).length) := by
    intro k hk
    rw [← lt_length_takeWhile hprefix (by rw [List.length_drop]; omega), decide_eq_true_iff,
      List.getElem_drop]
    exact (roster_lt_iff hsorted (List.getElem?_eq_getElem hk) hi).symm
  have hlen := (List.getElem?_eq_some_iff.mp hi).1
  have htake : ((roster.drop index).takeWhile (· < name)).length ≤ roster.length - index := by
    simpa using (List.takeWhile_sublist (p := (· < name)) (l := roster.drop index)).length_le
  unfold cursor
  have hstop := hbefore (i - index) (by omega)
  by_cases hshort : index + ((roster.drop index).takeWhile (· < name)).length < i
  · have := hbefore _ (show index + ((roster.drop index).takeWhile (· < name)).length <
      roster.length by omega)
    omega
  · omega

/-- The pass succeeds exactly on strictly ascending names that all stand at or after its start. -/
theorem selectTables_ok_iff (writeSchemaId : UInt32) (names : List String) (index : Nat)
    (bits : List UInt8) :
    (selectTables roster writeSchemaId names index bits).2 = .ok () ↔
      names.Pairwise (· < ·) ∧ ∀ name ∈ names, ∃ i, index ≤ i ∧ roster[i]? = some name := by
  induction names generalizing index bits with
  | nil => exact iff_of_true rfl ⟨List.Pairwise.nil, by simp⟩
  | cons name names ih =>
    rw [selectTables_cons, List.pairwise_cons, List.forall_mem_cons]
    split
    · next hfound =>
      have hstart : index ≤ cursor roster name index := Nat.le_add_right _ _
      rw [ih]
      refine ⟨fun ⟨hasc, hmem⟩ => ⟨⟨fun later hlater => ?_, hasc⟩, ⟨_, hstart, hfound⟩,
        fun later hlater => ?_⟩, fun ⟨⟨hfirst, hasc⟩, _, hmem⟩ => ⟨hasc, fun later hlater => ?_⟩⟩
      · obtain ⟨i, hi, hget⟩ := hmem later hlater
        exact (roster_lt_iff hsorted hfound hget).mpr hi
      · obtain ⟨i, hi, hget⟩ := hmem later hlater
        exact ⟨i, by omega, hget⟩
      · obtain ⟨i, -, hget⟩ := hmem later hlater
        exact ⟨i, (roster_lt_iff hsorted hfound hget).mp (hfirst later hlater), hget⟩
    · next hmissing =>
      refine iff_of_false (by simp) fun ⟨_, ⟨i, hi, hget⟩, _⟩ => hmissing ?_
      rw [cursor_eq hsorted hi hget, hget]

/-- A pass that succeeds adds exactly the positions of its names. -/
theorem testBit_selectTables (writeSchemaId : UInt32) {names : List String} {index : Nat}
    {bits : List UInt8} (hroom : roster.length ≤ 8 * bits.length)
    (hok : (selectTables roster writeSchemaId names index bits).2 = .ok ()) {j : Nat}
    {name : String} (hj : roster[j]? = some name) :
    testBit (selectTables roster writeSchemaId names index bits).1 j =
      (decide (name ∈ names) || testBit bits j) := by
  induction names generalizing index bits with
  | nil => simp [selectTables]
  | cons first names ih =>
    rw [selectTables_cons] at hok ⊢
    split at hok
    · next hfound =>
      have hlen := (List.getElem?_eq_some_iff.mp hfound).1
      have hbit : j = cursor roster first index ↔ name = first := by
        refine ⟨fun he => ?_, fun he => ?_⟩
        · rw [← he, hj] at hfound
          exact Option.some.inj hfound
        · subst he
          have hirrefl := String.lt_irrefl name
          exact Nat.le_antisymm
            (Nat.le_of_not_lt fun hlt => hirrefl ((roster_lt_iff hsorted hfound hj).mpr hlt))
            (Nat.le_of_not_lt fun hlt => hirrefl ((roster_lt_iff hsorted hj hfound).mpr hlt))
      rw [if_pos hfound, ih (by simpa using hroom) hok, testBit_setBit (by omega)]
      simp only [List.mem_cons, hbit, Bool.decide_or]
      cases decide (name = first) <;> cases decide (name ∈ names) <;> rfl
    · exact absurd hok (by simp)

/-- A roster name is a selected one exactly if its bit is set. -/
theorem testBit_encodeTables {writeSchemaId : UInt32} {tables : List String} {bits : List UInt8}
    (hencode : encodeTables roster writeSchemaId tables = (bits, .ok ())) {j : Nat}
    {name : String} (hj : roster[j]? = some name) : testBit bits j = decide (name ∈ tables) := by
  have hok := congrArg Prod.snd hencode
  have hbits := congrArg Prod.fst hencode
  have hroom : roster.length ≤
      8 * (List.replicate ((roster.length + 7) / 8) (0 : UInt8)).length := by
    rw [List.length_replicate]
    omega
  have htest := testBit_selectTables hsorted writeSchemaId hroom hok hj
  rw [testBit_zeros, Bool.or_false] at htest
  rw [← htest]
  exact congrArg (testBit · j) hbits.symm

/-- Filtering the roster by an encoded list gives the list back. -/
theorem filter_encodeTables {writeSchemaId : UInt32} {tables : List String} {bits : List UInt8}
    (hencode : encodeTables roster writeSchemaId tables = (bits, .ok ())) :
    (roster.zipIdx.filter fun entry => WorkerAssignment.tableSelected (some bits) entry.2).map
      Prod.fst = tables := by
  obtain ⟨hasc, hmem⟩ := (selectTables_ok_iff hsorted writeSchemaId tables 0 _).mp
    (congrArg Prod.snd hencode)
  have hsub : ((roster.zipIdx.filter fun entry =>
      WorkerAssignment.tableSelected (some bits) entry.2).map Prod.fst).Sublist roster := by
    conv_rhs => rw [← List.zipIdx_map_fst 0 roster]
    exact List.filter_sublist.map Prod.fst
  refine (hsorted.sublist hsub).eq_of_mem_iff hasc fun name => ?_
  simp only [List.mem_map, List.mem_filter, Prod.exists,
    List.mem_zipIdx_iff_getElem?, exists_and_right, exists_eq_right]
  constructor
  · rintro ⟨j, hj, hbit⟩
    exact of_decide_eq_true ((testBit_encodeTables hsorted hencode hj).symm.trans hbit)
  · intro hname
    obtain ⟨j, -, hj⟩ := hmem name hname
    exact ⟨j, hj, (testBit_encodeTables hsorted hencode hj).trans (decide_eq_true hname)⟩

end Pass

/-- Without a bitmap the whole roster is selected. -/
theorem filter_tableSelected_none (roster : List String) :
    (roster.zipIdx.filter fun entry => WorkerAssignment.tableSelected none entry.2).map
      Prod.fst = roster := by
  have hall : (roster.zipIdx.filter fun entry => WorkerAssignment.tableSelected none entry.2) =
      roster.zipIdx := List.filter_eq_self.mpr fun _ _ => rfl
  rw [hall, List.zipIdx_map_fst]

/-- What a reader selects by the bitmap of a row: the tables encoded in it, or the whole roster
where the bitmap is empty because none were given. -/
theorem filter_of_bitmap {roster : List String} (hsorted : roster.Pairwise (· < ·))
    {writeSchemaId : UInt32} {tables : Option (List String)} {bits : List UInt8}
    (h : tables.elim (bits = []) fun tables =>
      encodeTables roster writeSchemaId tables = (bits, .ok ())) :
    (roster.zipIdx.filter fun entry => WorkerAssignment.tableSelected
      (if bits.isEmpty then none else some bits) entry.2).map Prod.fst = tables.getD roster := by
  cases tables with
  | none =>
    obtain rfl : bits = [] := h
    exact filter_tableSelected_none roster
  | some tables =>
    have hselected := filter_encodeTables hsorted h
    by_cases hempty : bits = []
    · have hlen := length_selectTables roster writeSchemaId tables 0
        (List.replicate ((roster.length + 7) / 8) 0)
      have hbits : (selectTables roster writeSchemaId tables 0
        (List.replicate ((roster.length + 7) / 8) 0)).1 = bits := congrArg Prod.fst h
      rw [hbits, hempty, List.length_replicate, List.length_nil] at hlen
      obtain rfl : roster = [] := List.length_eq_zero_iff.mp (by omega)
      exact hselected
    · rw [if_neg (by simpa using hempty)]
      exact hselected

namespace WorkerAssignmentChunkBuilder

variable {P Key Rng : Type} {profile : Profile} {b : WorkerAssignmentBuilder P Key Rng}
  {chunk : WorkerAssignmentChunkBuilder} {writeSchemaId : UInt32} {roster : List String}

/-- On a registered schema the call encodes the tables against its roster; a debug build takes
only ascending ones. -/
theorem setTablesPresent_eq (hschema : chunk.writeSchemaId = some writeSchemaId)
    (hroster : b.writeSchemas.get? writeSchemaId = some roster) {tables : List String}
    (hasc : profile = .debug → tables.Pairwise (· < ·)) :
    setTablesPresent profile b chunk tables =
      .ok ({ b with stagedTablesPresent := (encodeTables roster writeSchemaId tables).1 },
        (encodeTables roster writeSchemaId tables).2.map fun _ =>
          { chunk with tablesPresent := some writeSchemaId }) := by
  have hassert : Exec.debugAssert profile "tables_present must be sorted and free of duplicates"
      (isSortedBy (· < ·) tables) = .ok () := by
    cases profile with
    | release => rfl
    | debug => exact if_pos (isSortedBy_lt_iff.mpr (hasc rfl))
  unfold setTablesPresent encodeTables
  rw [hschema, hassert]
  simp only [hroster, Exec.ok_bind]
  cases (selectTables roster writeSchemaId tables 0
    (List.replicate ((roster.length + 7) / 8) 0)).2 <;> rfl

/-- On a registered schema the call succeeds exactly for strictly ascending roster names. -/
theorem setTablesPresent_succeeds_iff (hschema : chunk.writeSchemaId = some writeSchemaId)
    (hroster : b.writeSchemas.get? writeSchemaId = some roster)
    (hsorted : roster.Pairwise (· < ·)) (tables : List String) :
    (∃ b' chunk', setTablesPresent .release b chunk tables = .ok (b', .ok chunk')) ↔
      tables.Pairwise (· < ·) ∧ ∀ name ∈ tables, name ∈ roster := by
  have hpass := selectTables_ok_iff hsorted writeSchemaId tables 0
    (List.replicate ((roster.length + 7) / 8) 0)
  simp only [Nat.zero_le, true_and, ← List.mem_iff_getElem?] at hpass
  have hrelease : Profile.release = .debug → tables.Pairwise (· < ·) := nofun
  rw [← hpass, setTablesPresent_eq hschema hroster hrelease]
  change _ ↔ (encodeTables roster writeSchemaId tables).2 = .ok ()
  cases (encodeTables roster writeSchemaId tables).2 with
  | ok u => exact iff_of_true ⟨_, _, rfl⟩ rfl
  | error e => exact iff_of_false (by rintro ⟨b', chunk', h⟩; cases h) (by simp)

end WorkerAssignmentChunkBuilder

namespace WorkerDatasetColumns

variable {c : WorkerDatasetColumns} {rows : List WorkerRow} {row : WorkerRow} {index : UInt32}

/-- The bitmap offset of a row is where the bitmaps before it end, cut to 32 bits. -/
theorem Encodes.getElem?_tablesPresentOffsets (h : c.Encodes rows) {i : Nat}
    (hi : i ≤ rows.length) : (0 :: c.tablesPresentEnds)[i]? =
      some (UInt32.ofNat ((rows.map WorkerRow.bitmap).take i).flatten.length) := by
  have hmap : 0 :: c.tablesPresentEnds =
      (sliceOffsets (rows.map WorkerRow.bitmap)).map UInt32.ofNat := by
    rw [h.tablesPresentEnds]
    rfl
  rw [hmap, List.getElem?_map, getElem?_sliceOffsets _ (by simpa using hi), Option.map_some]

/-- A row's bitmap offset reads back as long as all bitmaps together fit. -/
theorem Encodes.tablesPresentOffset (h : c.Encodes rows) (hfits : c.tablesPresent.length < 2 ^ 32)
    {i : Nat} (hi : i ≤ rows.length) : ∃ x : UInt32, (0 :: c.tablesPresentEnds)[i]? = some x ∧
      x.toNat = ((rows.map WorkerRow.bitmap).take i).flatten.length := by
  refine ⟨_, h.getElem?_tablesPresentOffsets hi, UInt32.toNat_ofNat_of_lt ?_⟩
  refine Nat.lt_of_le_of_lt ?_ hfits
  rw [h.tablesPresent]
  exact (List.take_sublist _ _).flatten.length_le

/-- A row's bitmap reads back; an empty one, also in a dataset without bitmaps, as absent. -/
theorem Encodes.tablesPresent_toDataset (h : c.Encodes rows)
    (hfits : c.tablesPresent.length < 2 ^ 32) (hrow : rows[index.toNat]? = some row)
    {id baseUrl : String} {lastBlock : UInt64} {generations : Option (List GenerationEntry)} :
    WorkerChunk.tablesPresent ⟨c.toDataset id lastBlock baseUrl generations, index⟩ =
      .ok (if row.bitmap.isEmpty then none else some row.bitmap) := by
  have hlist : (rows.map WorkerRow.bitmap)[index.toNat]? = some row.bitmap := by
    rw [List.getElem?_map, hrow, Option.map_some]
  have hlt := (List.getElem?_eq_some_iff.mp hrow).1
  unfold WorkerChunk.tablesPresent
  cases htrim : c.anyTablesTrimmed with
  | false =>
    have hempty : row.bitmap.isEmpty = true := by
      rw [h.anyTablesTrimmed, List.any_eq_false] at htrim
      simpa using htrim row (List.mem_of_getElem? hrow)
    simp [toDataset, htrim, hempty]
  | true =>
    obtain ⟨start, hstart, hstartNat⟩ := h.tablesPresentOffset hfits (Nat.le_of_lt hlt)
    obtain ⟨stop, hstop, hstopNat⟩ := h.tablesPresentOffset hfits hlt
    have hslice := flatten_slice _ hlist
    rw [← h.tablesPresent, ← hstartNat, ← hstopNat] at hslice
    have hle : start ≤ stop := by
      rw [UInt32.le_iff_toNat_le, hstartNat, hstopNat]
      exact ((List.take_prefix_take_left (Nat.le_succ _)).sublist.flatten).length_le
    have hbound : stop.toNat ≤ c.tablesPresent.length := by
      rw [hstopNat, h.tablesPresent]
      exact (List.take_sublist _ _).flatten.length_le
    simp only [toDataset, htrim, if_true, Exec.index_eq_ok hstart, Exec.index_eq_ok hstop,
      Exec.ok_bind]
    rw [if_pos ⟨hle, hbound⟩, hslice]

/-- The row at which the bitmaps stop fitting has an end below its start and reads as one without
a bitmap. -/
theorem Encodes.tablesPresent_crossing (h : c.Encodes rows) (hrow : rows[index.toNat]? = some row)
    (hsize : row.bitmap.length < 2 ^ 32)
    (hbefore : ((rows.map WorkerRow.bitmap).take index.toNat).flatten.length < 2 ^ 32)
    (hafter : 2 ^ 32 ≤ ((rows.map WorkerRow.bitmap).take index.toNat).flatten.length +
      row.bitmap.length)
    {id baseUrl : String} {lastBlock : UInt64} {generations : Option (List GenerationEntry)} :
    WorkerChunk.tablesPresent ⟨c.toDataset id lastBlock baseUrl generations, index⟩ =
      .ok none := by
  have hlt := (List.getElem?_eq_some_iff.mp hrow).1
  have hstart := h.getElem?_tablesPresentOffsets (Nat.le_of_lt hlt)
  have hstop := h.getElem?_tablesPresentOffsets (Nat.succ_le_of_lt hlt)
  rw [List.take_add_one, List.getElem?_map, hrow, Option.map_some, Option.toList_some,
    List.flatten_append, List.flatten_singleton, List.length_append] at hstop
  generalize ((rows.map WorkerRow.bitmap).take index.toNat).flatten.length = before at *
  unfold WorkerChunk.tablesPresent
  cases htrim : c.anyTablesTrimmed with
  | false => simp [toDataset, htrim]
  | true =>
    simp only [toDataset, htrim, if_true, Exec.index_eq_ok hstart, Exec.index_eq_ok hstop,
      Exec.ok_bind]
    refine if_neg fun hbounds => ?_
    have hle := UInt32.le_iff_toNat_le.mp hbounds.1
    rw [UInt32.toNat_ofNat', UInt32.toNat_ofNat'] at hle
    omega

/-- A row's schema id reads back. -/
theorem Encodes.writeSchemaId_toDataset (h : c.Encodes rows)
    (hrow : rows[index.toNat]? = some row) {id baseUrl : String} {lastBlock : UInt64}
    {generations : Option (List GenerationEntry)} :
    WorkerChunk.writeSchemaId ⟨c.toDataset id lastBlock baseUrl generations, index⟩ =
      .ok row.writeSchemaId := by
  refine Exec.index_eq_ok ?_
  change c.writeSchemaIds[index.toNat]? = some row.writeSchemaId
  rw [h.writeSchemaIds, List.getElem?_map, hrow, Option.map_some]

end WorkerDatasetColumns

/-- A chunk reads back the tables of its calls, or without a list the whole roster that the log
registers for its schema. -/
def ReadsTables {P : Type} (log : List (WorkerOp P × WorkerResult)) (a : WorkerAssignment)
    (calls : List WorkerChunkCall) (chunk : WorkerChunk) : Prop :=
  ∃ writeSchemaId roster, (WorkerStaged.ofCalls calls).writeSchemaId = some writeSchemaId ∧
    (.registerWriteSchema writeSchemaId roster, .registered (.ok ())) ∈ log ∧
    a.chunkTables chunk = .ok (some ((tablesOfCalls calls).getD roster))

open WorkerAssignmentBuilder in
/-- Every appended chunk of a dataset that passed the reader's check reads back its tables. -/
theorem RegisteredFrom.readsTables {P Key Rng : Type} {check : Bool}
    {b : WorkerAssignmentBuilder P Key Rng} {log : List (WorkerOp P × WorkerResult)}
    (hb : RegisteredBetween check b log) {a : WorkerAssignment} (hreader : a.reader = b.finish)
    {d : FinishedWorkerDataset} {dataset : WorkerAssignmentDataset}
    (h : RegisteredFrom check b.writeSchemas d dataset) (hcheck : dataset.check = .ok ())
    (hfits : d.staged.tablesPresent.length < 2 ^ 32) {index : UInt32}
    {calls : List WorkerChunkCall}
    (hcalls : (appendedCalls check d.log)[index.toNat]? = some calls) :
    ∃ chunk, dataset.chunk index = some chunk ∧ ReadsTables log a calls chunk := by
  obtain ⟨lastBlock, generations, rows, rfl, henc, hrows, -⟩ := h.rows hcheck
  have hlt : index.toNat < rows.length :=
    hrows.length_eq ▸ (List.getElem?_eq_some_iff.mp hcalls).1
  obtain ⟨calls', row, hcalls', hrow, hstaged, ⟨roster, hroster, hbitmap⟩, -⟩ :=
    StagedColumns.exists_pair_of_forall₂ hrows hlt
  obtain rfl := Option.some.inj (hcalls'.symm.trans hcalls)
  refine ⟨_, if_pos (by rwa [henc.chunkCount_toDataset]), row.writeSchemaId, roster,
    hstaged.writeSchemaId, (hb.rosters _ _).mp hroster, ?_⟩
  have hschema : a.getWriteSchema row.writeSchemaId = .ok (some ⟨row.writeSchemaId, roster⟩) := by
    rw [WorkerAssignment.getWriteSchema, hreader]
    refine (lookupByKey_entries b.writeSchemas TableRoster.writeSchemaId
      (fun entry => ⟨entry.1, entry.2⟩) (fun _ => rfl) row.writeSchemaId).trans ?_
    rw [hroster, Option.map_some]
  rw [WorkerAssignment.chunkTables, henc.writeSchemaId_toDataset hrow, Exec.ok_bind, hschema,
    Exec.ok_bind]
  dsimp only
  rw [henc.tablesPresent_toDataset hfits hrow, Exec.ok_bind]
  exact congrArg (fun tables => Except.ok (some tables))
    (filter_of_bitmap (hb.sorted _ _ hroster) hbitmap)

open WorkerAssignmentBuilder in
/-- Table bitmaps are exact: on any chunk opened in any run of a release build, a list of tables
is taken exactly if it is strictly ascending within the roster of the chunk's schema; and in the
accepted blob of any run every appended chunk reads back its list, or without one the roster. -/
theorem table_bitmaps_exact {P Key Rng : Type} [LT P] [DecidableLT P] (profile : Profile)
    (env : Sealing P Key Rng) (fb : FlatBuffers WorkerAssignmentRoot) (secret : String)
    (rng : Rng) (check : Bool) (ops : List (WorkerOp P)) (b : WorkerAssignmentBuilder P Key Rng)
    (log : List (WorkerOp P × WorkerResult))
    (hrun : runScript (step profile env) ((newWithRng env secret rng).setCheckContinuity check)
      ops = .ok (b, log)) :
    (profile = .release → ∀ datasetOps dataset datasetLog calls held chunk,
      runScript (datasetStep profile) b datasetOps = .ok (dataset, datasetLog) →
      dataset.newChunk.2.calls profile dataset.newChunk.1 calls = .ok (held, .ok chunk) →
      ∀ writeSchemaId roster, (WorkerStaged.ofCalls calls).writeSchemaId = some writeSchemaId →
      (.registerWriteSchema writeSchemaId roster, .registered (.ok ())) ∈ log →
      ∀ tables : List String,
        ((∃ held' chunk', chunk.setTablesPresent profile held tables = .ok (held', .ok chunk')) ↔
          tables.Pairwise (· < ·) ∧ ∀ name ∈ tables, name ∈ roster)) ∧
    ∀ a, WorkerAssignment.fromOwned fb (fb.finish b.finish) = .ok a →
      List.Forall₂ (fun d dataset => d.staged.tablesPresent.length < 2 ^ 32 →
        ∀ (index : UInt32) calls, (appendedCalls check d.log)[index.toNat]? = some calls →
          ∃ chunk, dataset.chunk index = some chunk ∧ ReadsTables log a calls chunk)
        (finishedWorkerDatasets log) a.datasets := by
  have hregistered := registeredBetween_of_runScript hrun
  constructor
  · rintro rfl datasetOps dataset datasetLog calls held chunk hopen hcalls writeSchemaId roster
      hschema hlog tables
    have hbetween := between_of_runScript hrun
    have hroster := (hregistered.rosters _ _).mpr hlog
    have hstaging := registeredStaging_of_runScript hbetween.columns hbetween.lastBlock
      hbetween.generations hopen
    obtain ⟨hsame, htracks⟩ := WorkerAssignmentChunkBuilder.calls_spec
      (WorkerAssignmentChunkBuilder.tracks_newChunk dataset) hcalls
    have hschemas : held.writeSchemas = b.writeSchemas :=
      (congrArg (fun b => b.writeSchemas) hsame).trans hstaging.schemas
    exact WorkerAssignmentChunkBuilder.setTablesPresent_succeeds_iff
      ((htracks chunk rfl).writeSchemaId.trans hschema) (hschemas ▸ hroster)
      (hregistered.sorted _ _ hroster) tables
  · intro a haccept
    refine (hregistered.accepted haccept).imp ?_
    rintro d dataset ⟨hdataset, hcheck⟩ hfits index calls hcalls
    exact hdataset.readsTables hregistered (accepted_eq_finish haccept).1 hcheck hfits hcalls

/-- Two schemas, one without tables, and four chunks: trimmed, refused for an unknown table,
without a list, and with the empty list of the schema without tables. -/
def sampleTablesRun : List (WorkerOp Nat) :=
  [.registerWriteSchema 7 ["blocks", "logs", "txs"],
    .registerWriteSchema 8 [],
    .dataset "a" "s3://a" [
      .chunk [.id sampleIds.1, .blockRange ⟨0, 9⟩, .size 3, .writeSchemaId 7,
        .tablesPresent ["blocks", "txs"]] true,
      .chunk [.writeSchemaId 7, .tablesPresent ["blocks", "traces"]] true,
      .chunk [.id sampleIds.2.1, .blockRange ⟨5, 6⟩, .size 4, .writeSchemaId 7] true,
      .chunk [.id sampleIds.2.2, .blockRange ⟨9, 9⟩, .size 5, .writeSchemaId 8,
        .tablesPresent []] true] true]

open WorkerAssignmentBuilder in
theorem table_bitmaps_exact_sample :
    ∃ b log a, runScript (step .release sampleSealing)
        ((newWithRng sampleSealing "" ()).setCheckContinuity false) sampleTablesRun =
          .ok (b, log) ∧
      WorkerAssignment.fromOwned (.plain _) b.finish = .ok a ∧
      ((finishedWorkerDatasets log).map fun d =>
        (d.staged.tablesPresent, (appendedCalls false d.log).length)) = [([5], 3)] ∧
      (∀ tables : List String, ((∃ held' chunk',
        WorkerAssignmentChunkBuilder.setTablesPresent .release b.newChunk.1
          { writeSchemaId := some 7 } tables = .ok (held', .ok chunk')) ↔
            tables.Pairwise (· < ·) ∧ ∀ name ∈ tables, name ∈ ["blocks", "logs", "txs"])) ∧
      List.Forall₂ (fun d dataset => d.staged.tablesPresent.length < 2 ^ 32 →
        ∀ (index : UInt32) calls, (appendedCalls false d.log)[index.toNat]? = some calls →
          ∃ chunk, dataset.chunk index = some chunk ∧ ReadsTables log a calls chunk)
        (finishedWorkerDatasets log) a.datasets := by
  have hrun : (runScript (step .release sampleSealing)
      ((newWithRng sampleSealing "" ()).setCheckContinuity false) sampleTablesRun).passes
      (fun out => (WorkerAssignment.fromOwned (.plain _) out.1.finish).toOption.isSome ∧
        ((finishedWorkerDatasets out.2).map fun d =>
          (d.staged.tablesPresent, (appendedCalls false d.log).length)) = [([5], 3)] ∧
        out.1.writeSchemas.get? 7 = some ["blocks", "logs", "txs"]) = true := by decide +kernel
  obtain ⟨⟨b, log⟩, hok, htest⟩ := Exec.exists_of_passes hrun
  obtain ⟨haccept, hbitmaps, hschema⟩ := of_decide_eq_true htest
  obtain ⟨a, haccept⟩ := Exec.exists_of_isSome haccept
  obtain ⟨htables, hreads⟩ := table_bitmaps_exact .release sampleSealing (.plain _) "" () false
    sampleTablesRun b log hok
  exact ⟨b, log, a, hok, haccept, hbitmaps,
    htables rfl [] b [] [.writeSchemaId 7] _ _ rfl rfl 7 ["blocks", "logs", "txs"] rfl
      (((registeredBetween_of_runScript hok).rosters _ _).mp hschema),
    hreads a haccept⟩

end SqdNetwork.Assignments
