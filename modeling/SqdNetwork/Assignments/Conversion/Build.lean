import SqdNetwork.Assignments.Conversion.Source

/-!
# Loops of the converter

What both halves of the converter share. Rows made of a dataset's chunks are
appended without a report exactly if the dataset is contiguous and its worker
references can be counted. A loop over datasets goes through if every round does,
and leaves the copies in order. Workers that ascend are taken one after the other.
-/

namespace SqdNetwork.Assignments

open SqdNetwork.Core

section Rows

variable {d : Dataset} (h : d.Convertible)

include h

/-- Rows made of the parsed chunks are appended to a new dataset without a report exactly if the
dataset is contiguous and its worker references can be counted. -/
theorem Dataset.Convertible.exists_appends_iff {C Row K : Type} {kind : DatasetKind C Row K}
    {profile : Profile} {columns : C} {lastBlock : Option UInt64} {row : Chunk × DataChunk → Row}
    (hrow : ∀ entry, (kind.row (row entry)).id = entry.2 ∧
      (kind.row (row entry)).workers = entry.1.workerIndexes)
    (hempty : kind.Holds columns lastBlock []) (hcount : d.chunks.length < 2 ^ 32) :
    (∃ columns' lastBlock', kind.Appends profile columns lastBlock (d.parsed.map row) columns'
      lastBlock') ↔ d.Contiguous ∧ d.workerReferences < 2 ^ 32 := by
  obtain rfl : lastBlock = none := hempty.2
  have hids : kind.ids (d.parsed.map row) = d.parsed.map Prod.snd := by
    rw [DatasetKind.ids, List.map_map]
    exact List.map_congr_left fun entry _ => (hrow entry).1
  have hrefs : kind.references (d.parsed.map row) = d.workerReferences := by
    rw [DatasetKind.references, List.map_map, Dataset.workerReferences, ← h.map_parsed,
      List.map_map]
    exact congrArg List.sum (List.map_congr_left fun entry _ => congrArg _ (hrow entry).2)
  rw [h.contiguous_iff, ← hids, ← hrefs]
  refine (DatasetKind.exists_appends_iff hempty (Nat.two_pow_pos 32) ?_ ?_ ?_).trans ?_
  · rw [List.length_map, h.length_parsed]
    simpa using hcount.le
  · intro r hr
    obtain ⟨entry, he, rfl⟩ := List.mem_map.mp hr
    rw [ChunkRow.span, (hrow entry).1]
    exact (h.filedAs he).span
  · rw [hids]
    exact h.above
  · simp [DatasetKind.references]

/-- Rows made of the parsed chunks end where the dataset does. -/
theorem Dataset.Convertible.getLast?_rows {Row : Type} {row : Chunk × DataChunk → Row}
    {idOf : Row → DataChunk} (hrow : ∀ entry, idOf (row entry) = entry.2) :
    (d.parsed.map row).getLast?.map (fun r => (idOf r).lastBlock) = some d.lastBlock := by
  rw [← h.getLast?_parsed, List.getLast?_map, List.getLast?_map, Option.map_map, Option.map_map]
  exact Option.map_congr fun entry _ => congrArg DataChunk.lastBlock (hrow entry)

theorem Dataset.Convertible.rows_ne_nil {Row : Type} {row : Chunk × DataChunk → Row} :
    d.parsed.map row ≠ [] := by
  intro hnil
  apply h.chunks_ne_nil
  rw [← h.map_parsed, List.map_eq_nil_iff.mp hnil, List.map_nil]

end Rows

/-- A builder with a dataset open: the columns staged so far, their last block and what opening
and staging chunks leaves alone. -/
structure OpenDataset (C R : Type) where
  columns : C
  lastBlock : Option UInt64
  rest : R

/-- A step whose report is handed on gives the builder exactly if there is none. -/
theorem gives_reported {B : Type} {x : Exec (B × Outcome)} {b : B} :
    (do
      let p ← x
      Fallible.convert ConvertError.build p.2
      pure p.1 : Fallible ConvertError B).Gives b ↔ x = .ok (b, .ok ()) := by
  rw [Fallible.gives_bind]
  constructor
  · rintro ⟨⟨b', r⟩, hx, hrest⟩
    obtain ⟨⟨⟩, hr, hb⟩ := Fallible.gives_bind.mp hrest
    obtain rfl := Fallible.gives_convert.mp hr
    obtain rfl := Fallible.gives_pure.mp hb
    exact Fallible.gives_lift.mp hx
  · intro hx
    refine ⟨(b, .ok ()), Fallible.gives_lift.mpr hx, ?_⟩
    exact (Fallible.gives_convert.mpr rfl).bind_iff.mpr (Fallible.gives_pure.mpr rfl)

section Chunks

variable {B C R Row K : Type} {kind : DatasetKind C Row K} {profile : Profile}
  {view : B → OpenDataset C R} {row : Chunk × DataChunk → Row}
  {stage : B → Chunk → Fallible ConvertError B}
  {after : B → Chunk × DataChunk → C → Option UInt64 → B} {ready : R → Prop}

/-- A chunk is staged exactly if its row is appended without a report. -/
def StagesRow (kind : DatasetKind C Row K) (profile : Profile) (view : B → OpenDataset C R)
    (row : Chunk × DataChunk → Row) (stage : B → Chunk → Fallible ConvertError B)
    (after : B → Chunk × DataChunk → C → Option UInt64 → B) (ready : R → Prop)
    (entry : Chunk × DataChunk) : Prop :=
  ∀ b, ready (view b).rest → ∀ b', (stage b entry.1).Gives b' ↔ ∃ columns lastBlock,
    appendChunk profile false kind.base (kind.push (row entry)) kind.pushEnd (view b).columns
      (view b).lastBlock ⟨(kind.row (row entry)).id.firstBlock,
        (kind.row (row entry)).id.lastBlock⟩ = .ok (columns, lastBlock, .ok ()) ∧
    b' = after b entry columns lastBlock

variable (hafter : ∀ b entry columns lastBlock,
  view (after b entry columns lastBlock) = ⟨columns, lastBlock, (view b).rest⟩)

include hafter

/-- Chunks are staged exactly if their rows are appended without a report. -/
theorem stageChunks_give_iff {entries : List (Chunk × DataChunk)}
    (hstage : ∀ entry ∈ entries, StagesRow kind profile view row stage after ready entry) {b : B}
    (hready : ready (view b).rest) {out : OpenDataset C R} :
    (∃ b', ((entries.map Prod.fst).foldlM stage b).Gives b' ∧ view b' = out) ↔
      ∃ columns lastBlock, kind.Appends profile (view b).columns (view b).lastBlock
        (entries.map row) columns lastBlock ∧ ⟨columns, lastBlock, (view b).rest⟩ = out := by
  induction entries generalizing b with
  | nil =>
    constructor
    · rintro ⟨b', hb, rfl⟩
      obtain rfl := Fallible.gives_foldlM_nil.mp hb
      exact ⟨_, _, ⟨rfl, rfl⟩, rfl⟩
    · rintro ⟨columns, lastBlock, ⟨rfl, rfl⟩, rfl⟩
      exact ⟨b, Fallible.gives_foldlM_nil.mpr rfl, rfl⟩
  | cons entry entries ih =>
    obtain ⟨hfirst, hrest⟩ := List.forall_mem_cons.mp hstage
    have hstep := hfirst b hready
    have hnext : ∀ columns lastBlock, _ ↔ _ := fun columns lastBlock =>
      @ih hrest (after b entry columns lastBlock) (by rw [hafter]; exact hready)
    simp only [hafter] at hnext
    constructor
    · rintro ⟨b', hb, hout⟩
      obtain ⟨mid, hmid, hb⟩ := Fallible.gives_foldlM_cons.mp hb
      obtain ⟨columns, lastBlock, happend, rfl⟩ := (hstep mid).mp hmid
      obtain ⟨columns', lastBlock', hrows, hout⟩ := (hnext columns lastBlock).mp ⟨b', hb, hout⟩
      exact ⟨columns', lastBlock', ⟨columns, lastBlock, happend, hrows⟩, hout⟩
    · rintro ⟨columns', lastBlock', ⟨columns, lastBlock, happend, hrows⟩, hout⟩
      have hmid := (hstep _).mpr ⟨columns, lastBlock, happend, rfl⟩
      obtain ⟨b', hb, hout⟩ := (hnext columns lastBlock).mpr ⟨columns', lastBlock', hrows, hout⟩
      exact ⟨b', Fallible.gives_foldlM_cons.mpr ⟨_, hmid, hb⟩, hout⟩

variable {d : Dataset} (h : d.Convertible)
  (hstage : ∀ entry ∈ d.parsed, StagesRow kind profile view row stage after ready entry)
  {b : B} (hready : ready (view b).rest)
  (hempty : kind.Holds (view b).columns (view b).lastBlock [])

include h hstage hready hempty

/-- Staged chunks are held, with everything else as it was. -/
theorem of_stageChunks {b' : B} (hb : (d.chunks.foldlM stage b).Gives b') :
    kind.Holds (view b').columns (view b').lastBlock (d.parsed.map row) ∧
      (view b').rest = (view b).rest := by
  rw [← h.map_parsed] at hb
  obtain ⟨columns, lastBlock, happends, hout⟩ :=
    (stageChunks_give_iff hafter hstage hready).mp ⟨b', hb, rfl⟩
  rw [← hout]
  exact ⟨happends.holds hempty, rfl⟩

/-- The chunks of a dataset are staged exactly if it is contiguous and its worker references can
be counted. -/
theorem exists_stageChunks_iff (hrow : ∀ entry, (kind.row (row entry)).id = entry.2 ∧
      (kind.row (row entry)).workers = entry.1.workerIndexes)
    (hcount : d.chunks.length < 2 ^ 32) :
    (∃ b', (d.chunks.foldlM stage b).Gives b') ↔
      d.Contiguous ∧ d.workerReferences < 2 ^ 32 := by
  rw [← @Dataset.Convertible.exists_appends_iff d h _ _ _ kind profile _ _ row hrow hempty hcount,
    ← h.map_parsed]
  constructor
  · rintro ⟨b', hb⟩
    obtain ⟨columns, lastBlock, happends, -⟩ :=
      (stageChunks_give_iff hafter hstage hready).mp ⟨b', hb, rfl⟩
    exact ⟨columns, lastBlock, happends⟩
  · rintro ⟨columns, lastBlock, happends⟩
    obtain ⟨b', hb, -⟩ :=
      (stageChunks_give_iff hafter hstage hready).mpr ⟨columns, lastBlock, happends, rfl⟩
    exact ⟨b', hb⟩

end Chunks

section Ordinals

variable {profile : Profile}

/-- The ordinal of a dataset. -/
def ordinal (index : Nat) : UInt32 := UInt32.ofNat (index + 1)

theorem toNat_ordinal {index : Nat} (h : index + 1 < 2 ^ 32) : (ordinal index).toNat = index + 1 :=
  UInt32.toNat_ofNat_of_lt h

/-- The schema id of a dataset is its ordinal. -/
theorem schemaId_eq {index : Nat} (h : index + 1 < 2 ^ 32) :
    schemaId profile index = .ok (ordinal index) := by
  have hindex : (UInt32.ofNat index).toNat = index := UInt32.toNat_ofNat_of_lt (Nat.lt_of_succ_lt h)
  refine (if_neg ?_).trans (congrArg Except.ok ?_)
  · rintro ⟨-, hover⟩
    rw [hindex] at hover
    exact absurd h (Nat.not_lt.mpr hover)
  · rw [ordinal, UInt32.ofNat_add]
    rfl

end Ordinals

/-- Every dataset of a list has its copy, under its ordinal, at its own place. -/
structure Copies {D : Type} (copy : UInt32 → Dataset → D → Prop) (source : List Dataset)
    (out : List D) : Prop where
  length : out.length = source.length
  copied : ∀ i d, source[i]? = some d → ∃ dataset, out[i]? = some dataset ∧
    copy (ordinal i) d dataset

theorem Copies.nil {D : Type} {copy : UInt32 → Dataset → D → Prop} : Copies copy [] [] :=
  ⟨rfl, by simp⟩

/-- One more copy at the end. -/
theorem Copies.snoc {D : Type} {copy : UInt32 → Dataset → D → Prop} {source : List Dataset}
    {out : List D} (h : Copies copy source out) {d : Dataset} {dataset : D}
    (hd : copy (ordinal source.length) d dataset) :
    Copies copy (source ++ [d]) (out ++ [dataset]) := by
  refine ⟨by simp [h.length], fun i d' hi => ?_⟩
  rcases Nat.lt_trichotomy i source.length with hlt | rfl | hgt
  · rw [List.getElem?_append_left hlt] at hi
    rw [List.getElem?_append_left (h.length ▸ hlt)]
    exact h.copied i d' hi
  · rw [List.getElem?_concat_length, Option.some.injEq] at hi
    subst hi
    rw [← h.length, List.getElem?_concat_length, h.length]
    exact ⟨dataset, rfl, hd⟩
  · have hlt := (List.getElem?_eq_some_iff.mp hi).1
    rw [List.length_append, List.length_singleton] at hlt
    omega

section Datasets

variable {S D : Type} {source : List Dataset}
  {convert : S → Dataset × Nat → Fallible ConvertError S} {ready : S → Prop}
  {datasets : S → List D} {copy : UInt32 → Dataset → D → Prop}
  (hround : ∀ s s' i d, source[i]? = some d → ready s → (convert s (d, i)).Gives s' →
    ready s' ∧ ∃ dataset, datasets s' = datasets s ++ [dataset] ∧ copy (ordinal i) d dataset)

include hround

/-- A loop that adds the copy of one dataset after the other adds the copies of all. -/
theorem of_convertDatasets {s s' : S} (h : (source.zipIdx.foldlM convert s).Gives s')
    (hready : ready s) (hempty : datasets s = []) :
    ready s' ∧ Copies copy source (datasets s') := by
  have h0 : ready s ∧ Copies copy (source.take 0) (datasets s) := by
    rw [hempty]
    exact ⟨hready, .nil⟩
  have hlast := h.foldlM_zipIdx (fun i s => ready s ∧ Copies copy (source.take i) (datasets s))
    (fun i d s s' hi hs hgives => ?_) h0
  · rwa [List.take_length] at hlast
  · obtain ⟨hready, dataset, hadded, hcopy⟩ := hround s s' i d hi hs.1 hgives
    have hlength : (source.take i).length = i :=
      List.length_take_of_le (List.getElem?_eq_some_iff.mp hi).1.le
    rw [List.take_add_one, hi, hadded]
    exact ⟨hready, hs.2.snoc (hlength.symm ▸ hcopy)⟩

/-- A loop that converts exactly the datasets with a property goes through exactly if all have
it. -/
theorem convertDatasets_give_iff {good : Dataset → Prop}
    (hgood : ∀ s i d, source[i]? = some d → ready s →
      ((∃ s', (convert s (d, i)).Gives s') ↔ good d)) {s : S} (hready : ready s) :
    (∃ s', (source.zipIdx.foldlM convert s).Gives s') ↔ ∀ d ∈ source, good d := by
  constructor
  · rintro ⟨s', h⟩
    have h0 : ready s ∧ ∀ d ∈ source.take 0, good d := ⟨hready, by simp⟩
    have hlast := h.foldlM_zipIdx (fun i s => ready s ∧ ∀ d ∈ source.take i, good d)
      (fun i d s s' hi hs hgives => ?_) h0
    · rw [List.take_length] at hlast
      exact hlast.2
    · refine ⟨(hround s s' i d hi hs.1 hgives).1, ?_⟩
      rw [List.take_add_one, hi]
      exact List.forall_mem_append.mpr
        ⟨hs.2, List.forall_mem_singleton.mpr ((hgood s i d hi hs.1).mp ⟨s', hgives⟩)⟩
  · intro hall
    obtain ⟨s', h, -⟩ := Fallible.foldlM_zipIdx_gives (fun _ s => ready s) convert source
      (fun i d s hi hs => by
        obtain ⟨s', hgives⟩ := (hgood s i d hi hs).mpr (hall d (List.mem_of_getElem? hi))
        exact ⟨s', hgives, (hround s s' i d hi hs hgives).1⟩) hready
    exact ⟨s', h⟩

end Datasets

section Workers

/-- Stored bytes fill their slot. -/
theorem workerIdFrom_bytes (profile : Profile) (w : WorkerId) :
    workerIdFrom profile w.bytes = .ok w := by
  have hsize := w.size
  have hrest : (w.bytes.drop 38).isEmpty = true := by
    rw [List.isEmpty_iff, ← hsize, List.drop_length]
  have hassert : Exec.debugAssert profile "PeerId should not have extra bytes"
      (w.bytes.drop 38).isEmpty = .ok () := by
    rw [hrest]
    cases profile <;> rfl
  rw [workerIdFrom, dif_pos hsize.ge, hassert, Exec.ok_bind]
  congr
  rw [← hsize, List.take_length]

/-- The positions of 65536 workers take 16 bits. -/
theorem toNat_workerIndex {i count : Nat} (hcount : count ≤ 65536) (hi : i < count) :
    (UInt16.ofNat i).toNat = i :=
  UInt16.toNat_ofNat_of_lt (Nat.lt_of_lt_of_le hi hcount)

variable {P : Type} [LT P] [DecidableLT P] {fromBytes : List UInt8 → Option P}
  {legacy : Assignment} {ids : List P}
  (hids : legacy.workers.map (fun entry => entry.workerId.tryInto fromBytes) = ids.map some)

include hids

omit [LT P] [DecidableLT P] in
/-- The worker at a position and its peer id. -/
theorem worker_at (hcount : legacy.workers.length ≤ 65536) {i : Nat}
    (hi : i < legacy.workers.length) :
    ∃ entry peer, legacy.workers[i]? = some entry ∧ ids[i]? = some peer ∧
      entry.workerId.tryInto fromBytes = some peer ∧
      legacy.getWorkerByIndex (UInt16.ofNat i) = .ok ⟨legacy.reader, entry, UInt16.ofNat i⟩ := by
  have hentry := List.getElem?_eq_getElem hi
  have hpeer := congrArg (fun list => list[i]?) hids
  simp only [List.getElem?_map, hentry, Option.map_some] at hpeer
  obtain ⟨peer, hpeer, hparse⟩ := Option.map_eq_some_iff.mp hpeer.symm
  refine ⟨legacy.workers[i], peer, hentry, hpeer, hparse.symm, ?_⟩
  rw [Assignment.getWorkerByIndex, toNat_workerIndex hcount hi, Exec.index_eq_ok hentry]
  rfl

omit hids in
/-- Peer ids that ascend are taken one after the other. -/
theorem assertAscending_next (hasc : ids.IsChain (· < ·)) {i : Nat} {peer : P}
    (hpeer : ids[i]? = some peer) : assertAscending (ids.take i).getLast? peer = .ok () := by
  have hchain := hasc.take (i + 1)
  rw [List.take_add_one, hpeer, Option.toList_some, List.isChain_append] at hchain
  refine if_pos ?_
  cases hlast : (ids.take i).getLast? with
  | none => rfl
  | some last => exact decide_eq_true (hchain.2.2 last hlast peer rfl)

end Workers

/-- A builder while workers are copied: their entries, the last peer id and everything else. -/
structure CopiedWorkers (E P R : Type) where
  entries : List E
  lastPeerId : Option P
  rest : R

section CopyLoop

variable {B E P R : Type} [LT P] [DecidableLT P] {fromBytes : List UInt8 → Option P}
  {legacy : Assignment} {view : B → CopiedWorkers E P R} {copied : WorkerEntry → E}
  {copy : B → Nat → Fallible ConvertError B} {rest : R} (h : legacy.Convertible fromBytes)
  (hcopy : ∀ b i entry peer, legacy.workers[i]? = some entry →
    entry.workerId.tryInto fromBytes = some peer →
    legacy.getWorkerByIndex (UInt16.ofNat i) = .ok ⟨legacy.reader, entry, UInt16.ofNat i⟩ →
    assertAscending (view b).lastPeerId peer = .ok () → ∃ b', (copy b i).Gives b' ∧
      view b' = ⟨(view b).entries ++ [copied entry], some peer, (view b).rest⟩)

/-- The workers before a position are copied. -/
def CopiedUpTo (view : B → CopiedWorkers E P R) (copied : WorkerEntry → E) (legacy : Assignment)
    (ids : List P) (rest : R) (i : Nat) (b : B) : Prop :=
  view b = ⟨(legacy.workers.take i).map copied, (ids.take i).getLast?, rest⟩

include h hcopy

/-- One more worker is copied if the peer ids ascend. -/
theorem CopiedUpTo.step {ids : List P} (hasc : ids.IsChain (· < ·))
    (hids : legacy.workers.map (fun entry => entry.workerId.tryInto fromBytes) = ids.map some)
    {i : Nat} {b : B} (hi : i < legacy.workers.length)
    (hb : CopiedUpTo view copied legacy ids rest i b) :
    ∃ b', (copy b i).Gives b' ∧ CopiedUpTo view copied legacy ids rest (i + 1) b' := by
  obtain ⟨entry, peer, hentry, hpeer, hparse, hworker⟩ := worker_at hids h.workerCount hi
  have hnext : assertAscending (view b).lastPeerId peer = .ok () := by
    rw [hb]
    exact assertAscending_next hasc hpeer
  obtain ⟨b', hb', hview⟩ := hcopy b i entry peer hentry hparse hworker hnext
  refine ⟨b', hb', hview.trans ?_⟩
  rw [hb, List.take_add_one, List.take_add_one, hentry, hpeer, List.map_append,
    Option.toList_some, Option.toList_some, List.getLast?_concat]
  rfl

/-- A loop that copies one worker after the other copies all workers of a convertible
assignment. -/
theorem copyLoop_gives {b : B} (hb : view b = ⟨[], none, rest⟩) :
    ∃ b', ((List.range legacy.workers.length).foldlM copy b).Gives b' ∧
      (view b').entries = legacy.workers.map copied ∧ (view b').rest = rest := by
  obtain ⟨ids, hasc, hids⟩ := h.ascending
  obtain ⟨b', hb', hlast⟩ := Fallible.foldlM_range_gives (CopiedUpTo view copied legacy ids rest)
    copy legacy.workers.length (fun i b hi hb => hb.step h hcopy hasc hids hi) hb
  refine ⟨b', hb', ?_, congrArg CopiedWorkers.rest hlast⟩
  rw [congrArg CopiedWorkers.entries hlast, List.take_length]

end CopyLoop

end SqdNetwork.Assignments
