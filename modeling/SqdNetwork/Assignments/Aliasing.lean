import SqdNetwork.Assignments.Holdings

/-!
# Worker positions

A worker is found at a position of any size and scans the routing column for that
position narrowed to 16 bits. With at most 65536 workers the narrowing loses nothing.
One worker more and two of them share an index, and the later one is handed the
chunks of the earlier.
-/

namespace SqdNetwork.Assignments

open SqdNetwork.Core

/-- Up to 65536 positions stay apart in 16 bits. -/
theorem ofNat_u16_inj {i j : Nat} (hi : i < 65536) (hj : j < 65536)
    (h : UInt16.ofNat i = UInt16.ofNat j) : i = j := by
  have hnat := congrArg UInt16.toNat h
  rwa [UInt16.toNat_ofNat_of_lt' hi, UInt16.toNat_ofNat_of_lt' hj] at hnat

section Positions

variable {P Key Rng : Type} [LinearOrder P] {profile : Profile} {env : Sealing P Key Rng}
  {fromBytes : List UInt8 → Option P} {a : WorkerAssignment}
  {b : WorkerAssignmentBuilder P Key Rng} {log : List (WorkerOp P × WorkerResult)}

/-- A worker's enumeration lists only chunks staged with the position at which the worker was
added, and no two workers have one index. -/
structure NotAliased (fromBytes : List UInt8 → Option P) (check : Bool) (a : WorkerAssignment)
    (log : List (WorkerOp P × WorkerResult)) : Prop where
  staged : ∀ position id status, (addedWorkers log)[position]? = some (id, status) →
    ∀ w held, a.getWorker fromBytes id = .ok (some w) → w.iterChunksWithRef = .ok held →
      w.iterChunks = .ok (held.map Prod.snd) ∧
      ∀ entry ∈ held, (entry.1.datasetIndex.toNat, entry.1.chunkIndex.toNat) ∈
        stagedPlaces check position (finishedWorkerDatasets log)
  apart : ∀ id id' w w', id ≠ id' → a.getWorker fromBytes id = .ok (some w) →
    a.getWorker fromBytes id' = .ok (some w') → w.index ≠ w'.index

/-- A worker that is found is the entry at some position, and its bytes parse to the id. -/
theorem found_of_getWorker {id : P} {w : AssignedWorker}
    (h : a.getWorker fromBytes id = .ok (some w)) :
    ∃ i entry, a.workers[i]? = some entry ∧ entry.workerId.tryInto fromBytes = some id ∧
      w = ⟨a.reader, entry, UInt16.ofNat i⟩ := by
  obtain ⟨r, hlookup, h⟩ := Exec.bind_eq_ok.mp h
  cases r with
  | none => cases h
  | some i =>
    obtain ⟨entry, hentry, h⟩ := Exec.bind_eq_ok.mp h
    cases h
    unfold lookupIndexByKey at hlookup
    split at hlookup
    · cases hlookup
    · obtain ⟨entry', hentry', hcompare⟩ := Exec.bind_eq_ok.mp (keySearch_eq_some hlookup)
      obtain rfl := Except.ok.inj (hentry.symm.trans hentry')
      obtain ⟨parsed, hparsed, hcompare⟩ := Exec.bind_eq_ok.mp hcompare
      refine ⟨i, entry, Exec.getElem?_of_index hentry, ?_, rfl⟩
      rw [Exec.expect_eq_ok hparsed, compare_eq_iff_eq.mp (Except.ok.inj hcompare)]

/-- An entry whose bytes parse to an id was added with that id. -/
theorem WorkersAdded.id_of_parsed (h : WorkersAdded profile env b log)
    (hread : ∀ p, fromBytes (env.toBytes p) = some p)
    (hcut : ∀ p n, n < (env.toBytes p).length → fromBytes ((env.toBytes p).take n) = none)
    {i : Nat} {entry : WorkerEntry} {id : P} (hentry : b.workerEntries[i]? = some entry)
    (hparsed : entry.workerId.tryInto fromBytes = some id) :
    ∃ status, (addedWorkers log)[i]? = some (id, status) := by
  obtain ⟨hi, rfl⟩ := List.getElem?_eq_some_iff.mp hentry
  obtain ⟨⟨peer, status⟩, entry, hadded, hentry', hslot, -⟩ :=
    StagedColumns.exists_pair_of_forall₂ h.entries hi
  obtain rfl := Option.some.inj (hentry.symm.trans hentry')
  have hbytes : (b.workerEntries[i]).workerId.bytes = (env.toBytes peer).take 38 := by
    unfold workerIdFrom at hslot
    split at hslot
    · obtain ⟨-, -, hslot⟩ := Exec.bind_eq_ok.mp hslot
      rw [← Except.ok.inj hslot]
    · cases hslot
  rw [WorkerId.tryInto, hbytes] at hparsed
  by_cases hlong : 38 < (env.toBytes peer).length
  · -- an id that was cut off is not found at all
    rw [hcut peer 38 hlong] at hparsed
    cases hparsed
  · rw [List.take_of_length_le (Nat.le_of_not_lt hlong), hread] at hparsed
    rw [Option.some.inj hparsed] at hadded
    exact ⟨status, hadded⟩

end Positions

open WorkerAssignmentBuilder in
/-- On the blob of any run, worker positions are not aliased when at most 65536 workers were
added; when every id has the 38 bytes that are stored, exactly then. -/
theorem worker_positions_unaliased_iff {P Key Rng : Type} [LinearOrder P] (profile : Profile)
    (env : Sealing P Key Rng) (fb : FlatBuffers WorkerAssignmentRoot)
    (fromBytes : List UInt8 → Option P) (hread : ∀ p, fromBytes (env.toBytes p) = some p)
    (hcut : ∀ p n, n < (env.toBytes p).length → fromBytes ((env.toBytes p).take n) = none)
    (secret : String) (rng : Rng) (check : Bool) (ops : List (WorkerOp P))
    (b : WorkerAssignmentBuilder P Key Rng) (log : List (WorkerOp P × WorkerResult))
    (a : WorkerAssignment)
    (hrun : runScript (step profile env) ((newWithRng env secret rng).setCheckContinuity check)
      ops = .ok (b, log))
    (haccept : WorkerAssignment.fromOwned fb (fb.finish b.finish) = .ok a) (hcounted : a.Counted) :
    ((addedWorkers log).length ≤ 65536 → NotAliased fromBytes check a log) ∧
    ((∀ added ∈ addedWorkers log, (env.toBytes added.1).length = 38) →
      (NotAliased fromBytes check a log ↔ (addedWorkers log).length ≤ 65536)) := by
  obtain ⟨hreader, hchecks⟩ := accepted_eq_finish haccept
  have hworkers := workersAdded_of_runScript hrun
  have hentries : a.workers = b.workerEntries := by
    rw [WorkerAssignment.workers, hreader]
    rfl
  have hdatasets : List.Forall₂ (RegisteredFrom check b.writeSchemas)
      (finishedWorkerDatasets log) a.datasets :=
    ((registeredBetween_of_runScript hrun).accepted haccept).imp fun _ _ h => h.1
  -- whoever is found was added at the position whose narrowing is the index
  have hfound : ∀ id w, a.getWorker fromBytes id = .ok (some w) → ∃ i status,
      (addedWorkers log)[i]? = some (id, status) ∧ w.assignment = a.reader ∧
        w.index = UInt16.ofNat i := by
    intro id w hget
    obtain ⟨i, entry, hentry, hparsed, rfl⟩ := found_of_getWorker hget
    rw [hentries] at hentry
    obtain ⟨status, hadded⟩ := hworkers.id_of_parsed hread hcut hentry hparsed
    exact ⟨i, status, hadded, rfl, rfl⟩
  have hfew : (addedWorkers log).length ≤ 65536 → NotAliased fromBytes check a log := by
    intro hcount
    have hlt : ∀ {i x}, (addedWorkers log)[i]? = some x → i < 65536 := fun hx =>
      Nat.lt_of_lt_of_le (List.getElem?_eq_some_iff.mp hx).1 hcount
    constructor
    · intro position id status hposition w held hget hheld
      obtain ⟨i, status', hadded, hw, hindex⟩ := hfound id w hget
      obtain rfl := position_unique hworkers.ascending hadded hposition rfl
      obtain ⟨held', hheld', hchunks, -, hplaces, -⟩ :=
        enumerates_of_registered hdatasets hchecks hcounted hw
      obtain rfl := Except.ok.inj (hheld.symm.trans hheld')
      rw [hindex, UInt16.toNat_ofNat_of_lt' (hlt hadded)] at hplaces
      refine ⟨hchunks, fun entry hentry => ?_⟩
      rw [← hplaces]
      exact List.mem_map_of_mem hentry
    · intro id id' w w' hne hget hget' hsame
      obtain ⟨i, status, hadded, -, hindex⟩ := hfound id w hget
      obtain ⟨j, status', hadded', -, hindex'⟩ := hfound id' w' hget'
      rw [hindex, hindex'] at hsame
      obtain rfl := ofNat_u16_inj (hlt hadded) (hlt hadded') hsame
      rw [hadded, Option.some.injEq, Prod.mk.injEq] at hadded'
      exact hne hadded'.1
  refine ⟨hfew, fun hsize => ⟨fun hapart => ?_, hfew⟩⟩
  by_contra hmany
  have hmany : 65536 < (addedWorkers log).length := Nat.lt_of_not_le hmany
  have hserved := fun id => (lookup_of_runScript hread hrun haccept hcounted hsize id).2
  obtain ⟨first, hfirst, hindex, -⟩ := hserved _ _ _
    (List.getElem?_eq_getElem (Nat.lt_trans (by decide : 0 < 65536) hmany))
  obtain ⟨late, hlate, hindex', -⟩ := hserved _ _ _ (List.getElem?_eq_getElem hmany)
  refine hapart.apart _ _ first late (fun hid => ?_) hfirst hlate ?_
  · exact absurd (position_unique hworkers.ascending (List.getElem?_eq_getElem _)
      (List.getElem?_eq_getElem hmany) hid) (by decide)
  · rw [hindex, hindex']
    rfl

/-- A cut-off identity multihash does not parse. -/
theorem IdentityPeer.fromBytes_take (p : IdentityPeer) (n : Nat) (hn : n < p.toBytes.length) :
    fromBytes (p.toBytes.take n) = none := by
  have hsize : (UInt8.ofNat p.digest.length).toNat = p.digest.length :=
    Nat.mod_eq_of_lt (Nat.lt_of_le_of_lt p.bound (by decide))
  rw [toBytes, List.length_cons, List.length_cons] at hn
  cases n with
  | zero => rfl
  | succ n =>
    cases n with
    | zero => rfl
    | succ n =>
      simp only [toBytes, List.take_succ_cons, fromBytes]
      rw [dif_neg]
      rw [hsize, List.length_take]
      omega

open WorkerAssignmentBuilder in
theorem worker_positions_unaliased_sample :
    ∃ b log a, runScript (step .release samplePeerSealing)
        ((newWithRng samplePeerSealing "" ()).setCheckContinuity false) sampleHoldingsRun =
          .ok (b, log) ∧
      WorkerAssignment.fromOwned (.plain _) b.finish = .ok a ∧
      (addedWorkers log).length = 2 ∧ NotAliased IdentityPeer.fromBytes false a log := by
  have hrun : (runScript (step .release samplePeerSealing)
      ((newWithRng samplePeerSealing "" ()).setCheckContinuity false)
        sampleHoldingsRun).passes (fun out =>
      (WorkerAssignment.fromOwned (.plain _) out.1.finish).toOption.any (fun a =>
        a.datasets.length < 2 ^ 32 ∧ ∀ d ∈ a.datasets, d.chunkCount < 2 ^ 32) ∧
      (addedWorkers out.2).length = 2) = true := by
    decide +kernel
  obtain ⟨⟨b, log⟩, hok, htest⟩ := Exec.exists_of_passes hrun
  obtain ⟨haccept, hcount⟩ := of_decide_eq_true htest
  obtain ⟨a, haccept, hcounted⟩ := Exec.exists_of_any haccept
  obtain ⟨hdatasets, hchunks⟩ := of_decide_eq_true hcounted
  have h := worker_positions_unaliased_iff .release samplePeerSealing (.plain _)
    IdentityPeer.fromBytes IdentityPeer.fromBytes_toBytes IdentityPeer.fromBytes_take "" () false
    sampleHoldingsRun b log a hok haccept ⟨hdatasets, hchunks⟩
  exact ⟨b, log, a, hok, haccept, hcount, h.1 ((Nat.le_of_eq hcount).trans (by decide))⟩

/-- Peers of 38 bytes in ascending order. -/
def numberedPeer (n : Nat) : IdentityPeer :=
  ⟨UInt8.ofNat (n / 65536) :: UInt8.ofNat (n / 256 % 256) :: UInt8.ofNat (n % 256) ::
    List.replicate 33 0, by simp⟩

theorem numberedPeer_lt {m n : Nat} (hmn : m < n) (hn : n < 2 ^ 24) :
    numberedPeer m < numberedPeer n := by
  have hbyte : ∀ k, k < 256 → (UInt8.ofNat k).toNat = k := fun k hk => Nat.mod_eq_of_lt hk
  have hdigits : (numberedPeer m).toBytes.map UInt8.toNat <
      (numberedPeer n).toBytes.map UInt8.toNat := by
    simp only [IdentityPeer.toBytes, numberedPeer, List.length_cons, List.length_replicate,
      List.map_cons, List.cons_lt_cons_iff, hbyte _ (show m / 65536 < 256 by omega),
      hbyte _ (show n / 65536 < 256 by omega), hbyte _ (show m / 256 % 256 < 256 by omega),
      hbyte _ (show n / 256 % 256 < 256 by omega), hbyte _ (show m % 256 < 256 by omega),
      hbyte _ (show n % 256 < 256 by omega), List.lt_irrefl, and_false, or_false, true_and]
    omega
  exact hdigits

/-- Add a numbered peer. -/
def sampleAdd (n : Nat) : WorkerOp IdentityPeer :=
  .addWorkerWithSealedHeaders (numberedPeer n) .ok [] [] []

/-- One chunk, routed to the worker at position 0. -/
def sampleRouted : List (WorkerOp IdentityPeer) :=
  [.registerWriteSchema 7 ["blocks"],
    .dataset "a" "s3://a" [.chunk [.id sampleIds.1, .blockRange ⟨0, 9⟩, .size 3,
      .writeSchemaId 7, .workerIndexes [0]] true] true]

open WorkerAssignmentBuilder in
/-- Numbered peers are added one after the other. -/
theorem sampleAdd_complete (n k : Nat) (hk : k + n < 2 ^ 24)
    (b : WorkerAssignmentBuilder IdentityPeer Unit Unit)
    (hlast : ∀ last, b.lastPeerId = some last → last < numberedPeer k) :
    ∃ b' log, runScript (step .release samplePeerSealing) b ((List.range' k n).map sampleAdd) =
        .ok (b', log) ∧
      b'.allDatasets = b.allDatasets ∧ finishedWorkerDatasets log = [] ∧
      addedWorkers log = (List.range' k n).map fun i => (numberedPeer i, .ok) := by
  induction n generalizing k b with
  | zero => exact ⟨b, [], rfl, rfl, rfl, rfl⟩
  | succ n ih =>
    have hasc : assertAscending b.lastPeerId (numberedPeer k) = .ok () := by
      unfold assertAscending
      cases hid : b.lastPeerId with
      | none => rfl
      | some last => simp [Exec.assert, hlast last hid]
    have hstep : step .release samplePeerSealing b (sampleAdd k) =
        .ok ({ b with lastPeerId := some (numberedPeer k) }.pushWorker
          ⟨(numberedPeer k).toBytes, rfl⟩ .ok (some ⟨[], [], []⟩), .added) := by
      simp only [step, sampleAdd, addWorkerWithSealedHeaders, hasc, Exec.ok_bind]
      rfl
    obtain ⟨b', log, hrun, hdatasets, hfinished, hadded⟩ := ih (k + 1) (by omega)
      ({ b with lastPeerId := some (numberedPeer k) }.pushWorker ⟨(numberedPeer k).toBytes, rfl⟩
        .ok (some ⟨[], [], []⟩)) (by
          rintro last ⟨⟩
          exact numberedPeer_lt (Nat.lt_succ_self k) (by omega))
    refine ⟨b', (sampleAdd k, .added) :: log, ?_, hdatasets, ?_, ?_⟩
    · rw [List.range'_succ, List.map_cons, runScript, hstep, Exec.ok_bind]
      dsimp only
      rw [hrun, Exec.ok_bind]
    · exact hfinished
    · rw [List.range'_succ, List.map_cons, ← hadded]
      rfl

open WorkerAssignmentBuilder in
/-- With 65537 workers, the one at position 65536 is handed the chunk that was routed to position
0 alone. -/
theorem worker_positions_aliased :
    ∃ b log a w, runScript (step .release samplePeerSealing)
        ((newWithRng samplePeerSealing "" ()).setCheckContinuity true)
        (sampleRouted ++ (List.range' 0 65537).map sampleAdd) = .ok (b, log) ∧
      WorkerAssignment.fromOwned (.plain _) b.finish = .ok a ∧
      (addedWorkers log)[65536]? = some (numberedPeer 65536, .ok) ∧
      a.getWorker IdentityPeer.fromBytes (numberedPeer 65536) = .ok (some w) ∧
      Enumerates a w [(0, 0)] ∧
      stagedPlaces true 65536 (finishedWorkerDatasets log) = [] := by
  have hrouted : (runScript (step .release samplePeerSealing)
      ((newWithRng samplePeerSealing "" ()).setCheckContinuity true) sampleRouted).passes
      (fun out => out.1.lastPeerId = none ∧ (∀ d ∈ out.1.allDatasets, d.check = .ok ()) ∧
      out.1.allDatasets.length < 2 ^ 32 ∧ (∀ d ∈ out.1.allDatasets, d.chunkCount < 2 ^ 32) ∧
      addedWorkers out.2 = [] ∧
      stagedPlaces true 0 (finishedWorkerDatasets out.2) = [(0, 0)] ∧
      stagedPlaces true 65536 (finishedWorkerDatasets out.2) = []) = true := by
    decide +kernel
  obtain ⟨⟨mid, before⟩, hmid, htest⟩ := Exec.exists_of_passes hrouted
  obtain ⟨hlast, hchecks, hdatasets, hchunks, hnone, hplaces, hlate⟩ := of_decide_eq_true htest
  obtain ⟨b, after, hafter, hsame, hfinished, hadded⟩ := sampleAdd_complete 65537 0 (by decide) mid
    (fun last h => by rw [hlast] at h; cases h)
  have hrun : runScript (step .release samplePeerSealing)
      ((newWithRng samplePeerSealing "" ()).setCheckContinuity true)
      (sampleRouted ++ (List.range' 0 65537).map sampleAdd) = .ok (b, before ++ after) := by
    rw [runScript_append, hmid, Exec.ok_bind]
    dsimp only
    rw [hafter, Exec.ok_bind]
  have hworkers : addedWorkers (before ++ after) =
      (List.range' 0 65537).map fun i => (numberedPeer i, .ok) := by
    rw [addedWorkers, List.filterMap_append]
    exact (congrArg₂ (· ++ ·) hnone hadded).trans (List.nil_append _)
  have hkept : finishedWorkerDatasets (before ++ after) = finishedWorkerDatasets before := by
    rw [finishedWorkerDatasets, List.filterMap_append]
    exact (congrArg (_ ++ ·) hfinished).trans (List.append_nil _)
  have haccept : WorkerAssignment.fromOwned (.plain _)
      ((FlatBuffers.plain WorkerAssignmentRoot).finish b.finish) = .ok ⟨b.finish⟩ :=
    WorkerAssignment.fromOwned_eq_ok.mpr ⟨rfl, fun d hd => hchecks d (hsame ▸ hd)⟩
  have hcounted : WorkerAssignment.Counted ⟨b.finish⟩ :=
    ⟨lt_of_eq_of_lt (congrArg List.length hsame) hdatasets,
      fun d hd => hchunks d (hsame ▸ hd)⟩
  have hposition : (addedWorkers (before ++ after))[65536]? = some (numberedPeer 65536, .ok) := by
    rw [hworkers, List.getElem?_map, List.getElem?_range' (by decide)]
    rfl
  have hsize : ∀ added ∈ addedWorkers (before ++ after),
      (samplePeerSealing.toBytes added.1).length = 38 := by
    rw [hworkers]
    intro added hmem
    obtain ⟨i, -, rfl⟩ := List.mem_map.mp hmem
    rfl
  obtain ⟨-, hserved⟩ :=
    lookup_of_runScript IdentityPeer.fromBytes_toBytes hrun haccept hcounted hsize _
  obtain ⟨w, hget, -, -, henum⟩ := hserved _ _ hposition
  refine ⟨b, _, _, w, hrun, haccept, hposition, hget, ?_, ?_⟩
  · rw [hkept] at henum
    rw [← hplaces]
    exact henum
  · rw [hkept]
    exact hlate

end SqdNetwork.Assignments
