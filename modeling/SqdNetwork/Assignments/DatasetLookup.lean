import SqdNetwork.Assignments.WorkerRoundTrip
import SqdNetwork.Assignments.Routing

/-!
# Datasets by id

Both builders emit their datasets in finishing order, and both readers bisect on
the id. The lookups are therefore exact only for ids finished in ascending order:
any other order hides at least one dataset from its own id.
-/

namespace SqdNetwork.Assignments

open SqdNetwork.Core

/-- Lookups by id are exact: every dataset is found under the id it was finished with, and no
other name finds one. -/
def FoundById {D : Type} (ids : List String) (datasets : List D)
    (getDataset : String → Exec (Option D)) : Prop :=
  (∀ (i : Nat) (id : String), ids[i]? = some id →
    ∃ dataset, datasets[i]? = some dataset ∧ getDataset id = .ok (some dataset)) ∧
  ∀ name, name ∉ ids → getDataset name = .ok none

/-- Bisecting on distinct ids is exact precisely when they ascend. -/
theorem foundById_iff {D : Type} {key : D → String} {datasets : List D} {ids : List String}
    (hids : ids = datasets.map key) (hnodup : ids.Nodup) :
    FoundById ids datasets (fun name => lookupByKey datasets fun d => compare (key d) name) ↔
      ids.Pairwise (· < ·) := by
  subst hids
  have hsorted : (datasets.map key).Pairwise (· < ·) ↔
      datasets.Pairwise fun a b => compare (key a) (key b) = .lt := by
    simp only [List.pairwise_map, compare_lt_iff_lt]
  rw [hsorted, ← lookupByKey_exact_iff hnodup]
  refine and_congr_left fun _ => ⟨fun h x hx => ?_, fun h i id hi => ?_⟩
  · obtain ⟨i, hi⟩ := List.mem_iff_getElem?.mp hx
    obtain ⟨dataset, hdataset, hget⟩ := h i (key x) (by rw [List.getElem?_map, hi, Option.map_some])
    rw [hi, Option.some.injEq] at hdataset
    exact hdataset ▸ hget
  · rw [List.getElem?_map, Option.map_eq_some_iff] at hi
    obtain ⟨dataset, hdataset, rfl⟩ := hi
    exact ⟨dataset, hdataset, h dataset (List.mem_of_getElem? hdataset)⟩

/-- Emitted worker datasets keep the ids of the finished ones. -/
theorem EmittedFrom.ids_eq {check : Bool} {ds : List FinishedWorkerDataset}
    {datasets : List WorkerAssignmentDataset} (h : List.Forall₂ (EmittedFrom check) ds datasets) :
    ds.map FinishedWorkerDataset.id = datasets.map WorkerAssignmentDataset.id := by
  refine StagedColumns.map_eq_map_of_forall₂ ?_ h
  rintro d dataset ⟨_, _, rfl, -⟩
  rfl

/-- In the blob of any run whose finished datasets have distinct ids, lookups by id are exact
precisely when the ids were finished in strictly ascending order. -/
theorem dataset_lookup_iff_ascending (P Key Rng : Type) [LT P] [DecidableLT P]
    (profile : Profile) (check : Bool) :
    (∀ (env : Sealing P Key Rng) (fb : FlatBuffers WorkerAssignmentRoot) (secret : String)
      (rng : Rng) (ops : List (WorkerOp P)) (b : WorkerAssignmentBuilder P Key Rng)
      (log : List (WorkerOp P × WorkerResult)) (a : WorkerAssignment),
      runScript (WorkerAssignmentBuilder.step profile env)
        ((WorkerAssignmentBuilder.newWithRng env secret rng).setCheckContinuity check) ops =
          .ok (b, log) →
      fb.root (fb.finish b.finish) = .ok a.reader →
      ((finishedWorkerDatasets log).map FinishedWorkerDataset.id).Nodup →
      (FoundById ((finishedWorkerDatasets log).map FinishedWorkerDataset.id) a.datasets
          a.getDataset ↔
        ((finishedWorkerDatasets log).map FinishedWorkerDataset.id).Pairwise (· < ·))) ∧
    ∀ (toBytes : P → List UInt8) (fb : FlatBuffers PortalAssignmentRoot) (ops : List (PortalOp P))
      (b : PortalAssignmentBuilder P) (log : List (PortalOp P × PortalResult))
      (a : PortalAssignment),
      runScript (PortalAssignmentBuilder.step profile toBytes)
        (PortalAssignmentBuilder.new.setCheckContinuity check) ops = .ok (b, log) →
      fb.root (fb.finish b.finish) = .ok a.reader →
      ((finishedPortalDatasets log).map FinishedPortalDataset.id).Nodup →
      (FoundById ((finishedPortalDatasets log).map FinishedPortalDataset.id) a.datasets
          a.getDataset ↔
        ((finishedPortalDatasets log).map FinishedPortalDataset.id).Pairwise (· < ·)) := by
  constructor
  · intro env fb secret rng ops b log a hrun hroot hnodup
    have hdatasets := (WorkerAssignmentBuilder.between_of_runScript hrun).datasets
    rw [fb.root_finish, Except.ok.injEq] at hroot
    refine foundById_iff ?_ hnodup
    rw [EmittedFrom.ids_eq hdatasets, WorkerAssignment.datasets, ← hroot]
    rfl
  · intro toBytes fb ops b log a hrun hroot hnodup
    have hdatasets := (PortalAssignmentBuilder.between_of_runScript hrun).datasets
    rw [fb.root_finish, Except.ok.injEq] at hroot
    refine foundById_iff ?_ hnodup
    rw [PortalEmittedFrom.ids_eq hdatasets, PortalAssignment.datasets, ← hroot]
    rfl

theorem dataset_lookup_sample_runs :
    (∃ b log, runScript (WorkerAssignmentBuilder.step .release sampleSealing)
        ((WorkerAssignmentBuilder.newWithRng sampleSealing "" ()).setCheckContinuity false)
        sampleWorkerRun = .ok (b, log) ∧
      FoundById ["a", "b"] b.finish.datasets (WorkerAssignment.mk b.finish).getDataset) ∧
    ∃ b log, runScript (PortalAssignmentBuilder.step .release fun n =>
        List.replicate 38 (UInt8.ofNat n))
        (PortalAssignmentBuilder.new.setCheckContinuity false) samplePortalRun = .ok (b, log) ∧
      FoundById ["a", "b"] b.finish.datasets (PortalAssignment.mk b.finish).getDataset := by
  have h := dataset_lookup_iff_ascending Nat Unit Unit .release false
  constructor
  · have hrun : (runScript (WorkerAssignmentBuilder.step .release sampleSealing)
        ((WorkerAssignmentBuilder.newWithRng sampleSealing "" ()).setCheckContinuity false)
        sampleWorkerRun).passes (fun out =>
          (finishedWorkerDatasets out.2).map FinishedWorkerDataset.id = ["a", "b"]) = true := by
      decide
    obtain ⟨⟨b, log⟩, hok, htest⟩ := Exec.exists_of_passes hrun
    have hids := of_decide_eq_true htest
    refine ⟨b, log, hok, ?_⟩
    have hfound := (h.1 sampleSealing (.plain _) "" () sampleWorkerRun b log ⟨b.finish⟩ hok rfl
      (by rw [hids]; decide)).mpr (by rw [hids]; decide)
    rwa [hids] at hfound
  · have hrun : (runScript (PortalAssignmentBuilder.step .release fun n =>
        List.replicate 38 (UInt8.ofNat n))
        (PortalAssignmentBuilder.new.setCheckContinuity false) samplePortalRun).passes (fun out =>
          (finishedPortalDatasets out.2).map FinishedPortalDataset.id = ["a", "b"]) = true := by
      decide
    obtain ⟨⟨b, log⟩, hok, htest⟩ := Exec.exists_of_passes hrun
    have hids := of_decide_eq_true htest
    refine ⟨b, log, hok, ?_⟩
    have hfound := (h.2 _ (.plain _) samplePortalRun b log ⟨b.finish⟩ hok rfl
      (by rw [hids]; decide)).mpr (by rw [hids]; decide)
    rwa [hids] at hfound

/-- Two worker datasets finished against the order of their ids. -/
def sampleSwappedWorkerRun : List (WorkerOp Nat) :=
  [.registerWriteSchema 7 ["blocks"],
    .dataset "b" "s3://b" [.chunk [.id sampleIds.1, .blockRange ⟨0, 9⟩, .size 3,
      .writeSchemaId 7] true] true,
    .dataset "a" "s3://a" [.chunk [.id sampleIds.2.1, .blockRange ⟨5, 6⟩, .size 4,
      .writeSchemaId 7] true] true]

/-- Two portal datasets finished against the order of their ids. -/
def sampleSwappedPortalRun : List (PortalOp Nat) :=
  [.dataset "b" 1 [⟨[.id sampleIds.1, .blockRange ⟨0, 9⟩], true⟩] (.finish none),
    .dataset "a" 2 [⟨[.id sampleIds.2.1, .blockRange ⟨5, 6⟩], true⟩] (.finish none)]

/-- Datasets finished as "b" and then "a" are both in the accepted blob, yet the lookup of "a"
stops at "b" and reports no dataset. -/
theorem dataset_finished_but_not_found :
    (∃ b log a, runScript (WorkerAssignmentBuilder.step .release sampleSealing)
        ((WorkerAssignmentBuilder.newWithRng sampleSealing "" ()).setCheckContinuity false)
        sampleSwappedWorkerRun = .ok (b, log) ∧
      (finishedWorkerDatasets log).map FinishedWorkerDataset.id = ["b", "a"] ∧
      WorkerAssignment.fromOwned (.plain _) b.finish = .ok a ∧
      a.datasets.map WorkerAssignmentDataset.id = ["b", "a"] ∧ a.getDataset "a" = .ok none) ∧
    ∃ b log a, runScript (PortalAssignmentBuilder.step .release fun n =>
        List.replicate 38 (UInt8.ofNat n))
        (PortalAssignmentBuilder.new.setCheckContinuity false) sampleSwappedPortalRun =
          .ok (b, log) ∧
      (finishedPortalDatasets log).map FinishedPortalDataset.id = ["b", "a"] ∧
      PortalAssignment.fromOwned (.plain _) b.finish = .ok a ∧
      a.datasets.map PortalAssignmentDataset.id = ["b", "a"] ∧ a.getDataset "a" = .ok none := by
  constructor
  · have hrun : (runScript (WorkerAssignmentBuilder.step .release sampleSealing)
        ((WorkerAssignmentBuilder.newWithRng sampleSealing "" ()).setCheckContinuity false)
        sampleSwappedWorkerRun).passes (fun out =>
          (finishedWorkerDatasets out.2).map FinishedWorkerDataset.id = ["b", "a"] ∧
          (WorkerAssignment.fromOwned (.plain _) out.1.finish).toOption.any fun a =>
            a.datasets.map WorkerAssignmentDataset.id = ["b", "a"] ∧
              (a.getDataset "a").passes Option.isNone) = true := by decide +kernel
    obtain ⟨⟨b, log⟩, hok, htest⟩ := Exec.exists_of_passes hrun
    obtain ⟨hids, htest⟩ := of_decide_eq_true htest
    obtain ⟨a, haccept, htest⟩ := Exec.exists_of_any htest
    obtain ⟨hdatasets, hget⟩ := of_decide_eq_true htest
    obtain ⟨r, hr, hnone⟩ := Exec.exists_of_passes hget
    exact ⟨b, log, a, hok, hids, haccept, hdatasets, Option.isNone_iff_eq_none.mp hnone ▸ hr⟩
  · have hrun : (runScript (PortalAssignmentBuilder.step .release fun n =>
        List.replicate 38 (UInt8.ofNat n))
        (PortalAssignmentBuilder.new.setCheckContinuity false) sampleSwappedPortalRun).passes
          (fun out =>
          (finishedPortalDatasets out.2).map FinishedPortalDataset.id = ["b", "a"] ∧
          (PortalAssignment.fromOwned (.plain _) out.1.finish).toOption.any fun a =>
            a.datasets.map PortalAssignmentDataset.id = ["b", "a"] ∧
              (a.getDataset "a").passes Option.isNone) = true := by decide +kernel
    obtain ⟨⟨b, log⟩, hok, htest⟩ := Exec.exists_of_passes hrun
    obtain ⟨hids, htest⟩ := of_decide_eq_true htest
    obtain ⟨a, haccept, htest⟩ := Exec.exists_of_any htest
    obtain ⟨hdatasets, hget⟩ := of_decide_eq_true htest
    obtain ⟨r, hr, hnone⟩ := Exec.exists_of_passes hget
    exact ⟨b, log, a, hok, hids, haccept, hdatasets, Option.isNone_iff_eq_none.mp hnone ▸ hr⟩

end SqdNetwork.Assignments
