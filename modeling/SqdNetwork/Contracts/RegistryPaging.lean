import SqdNetwork.Contracts.Client

/-!
# Every registry entry once

The client reads the registries in three ways: by offset until the total, by a page
number until a short page, and in fixed-size slices of ids whose results are paired
with the ids again. The page sizes come from the command line as they are. Each way
visits every entry once and in order, unless a page size is zero or the pages of a
legacy registry outrun the page number.
-/

namespace SqdNetwork.Contracts

open SqdNetwork.Core

/-- A worker as the registration contract stores it. -/
structure ContractWorker where
  creator : Address
  peerId : List UInt8
  bond : U256
  registeredAt : Nat
  deregisteredAt : Nat
  deriving DecidableEq

/-- A worker as the client returns it. -/
structure Worker (P : Type) where
  peerId : P
  onchainId : U256
  address : Address
  bond : U256
  registeredAt : Nat
  deregisteredAt : Option Nat
  deriving DecidableEq

/-- Read a stored worker; one whose peer id does not parse is no worker. -/
def Worker.new {P : Type} (fromBytes : List UInt8 → Option P) (worker : ContractWorker)
    (onchainId : U256) : Option (Worker P) :=
  (fromBytes worker.peerId).map fun peerId =>
    { peerId := peerId
      onchainId := onchainId
      address := worker.creator
      bond := worker.bond
      registeredAt := worker.registeredAt
      deregisteredAt := if 0 < worker.deregisteredAt then some worker.deregisteredAt else none }

/-- The worker registration. Many calls made at once are answered in their order. -/
structure WorkerRegistration where
  activeWorkerIds : List U256
  getWorker : U256 → ContractWorker
  callArray : List U256 → List ContractWorker
  called : ∀ ids, callArray ids = ids.map getWorker

/-- The legacy registry of portals. Pages are slices of the active ones. -/
structure GatewayRegistry where
  active : List (List UInt8)
  getActiveGateways : Nat → Nat → List (List UInt8)
  paged : ∀ page perPage, getActiveGateways page perPage =
    (active.drop (page * perPage)).take perPage

/-- The paging options of the command line, any number each. -/
structure RpcArgs where
  contractWorkersPerPage : Nat := 500
  contractPortalsPerPage : Nat := 5

/-- The client with all registries it pages through. -/
structure RegistryClient extends EthersClient where
  gatewayRegistry : GatewayRegistry
  workerRegistration : WorkerRegistration
  activeWorkersPerPage : Nat

/-- The client for the given registries; the page sizes are not checked. -/
def RegistryClient.new (args : RpcArgs) (portalRegistry : Option PortalRegistry)
    (allocationsViewer : AllocationsViewer) (gatewayRegistry : GatewayRegistry)
    (workerRegistration : WorkerRegistration) : RegistryClient where
  portalRegistry := portalRegistry
  allocationsViewer := allocationsViewer
  portalsPerPage := args.contractPortalsPerPage
  gatewayRegistry := gatewayRegistry
  workerRegistration := workerRegistration
  activeWorkersPerPage := args.contractWorkersPerPage

variable {P : Type} [DecidableEq P]

/-- The portals of both registries, each once. -/
def mergeActivePortals (newPortals legacyPortals : List P) : List P :=
  pushIds [] (newPortals ++ legacyPortals)

namespace RegistryClient

/-- The loop over the active clusters, with what is collected from each page. -/
def pageClusters {β : Type} (client : RegistryClient) (collect : ClusterPage → List β)
    (fuel : Nat) : Option (List β) :=
  match client.portalRegistry with
  | none => some []
  | some pr =>
    readOffsets (fun offset => pr.getActiveClusters offset client.portalsPerPage)
      (fun page => page.clusters.length) ClusterPage.totalActive collect fuel

/-- The loop over the active gateways. -/
def pageGateways (client : RegistryClient) (profile : Profile) (fuel : Nat) :
    Exec (Option (List (List UInt8))) :=
  readPagesI32 profile (client.gatewayRegistry.getActiveGateways · client.portalsPerPage)
    client.portalsPerPage fuel 0

/-- The loop over the legacy rows of a worker. -/
def pageAllocations (client : RegistryClient) (profile : Profile) (workerId : U256)
    (fuel : Nat) : Exec (Option (List Allocation)) :=
  readPagesI32 profile (client.allocationsViewer.getAllocations workerId · client.portalsPerPage)
    client.portalsPerPage fuel 0

/-- The portals of both registries. -/
def activePortals (fromBytes : List UInt8 → Option P) (client : RegistryClient)
    (profile : Profile) (fuel : Nat) : Exec (Option (List P)) :=
  match client.pageClusters (fun page => page.clusters.flatMap (·.portalIds fromBytes)) fuel with
  | none => .ok none
  | some newPortals => do
    let gateways ← client.pageGateways profile fuel
    .ok (gateways.map fun ids => mergeActivePortals newPortals (ids.filterMap fromBytes))

/-- The clusters of all operators for a worker. -/
def portalClusters (fromBytes : List UInt8 → Option P) (client : RegistryClient)
    (profile : Profile) (workerId : U256) (fuel : Nat) :
    Exec (Option (List (PortalCluster P))) :=
  match client.readClusters fromBytes fuel with
  | none => .ok none
  | some newClusters => do
    let allocations ← client.pageAllocations profile workerId fuel
    .ok (allocations.map fun rows => mergePortalClusters fromBytes newClusters rows)

/-- The active workers, asked for in slices. -/
def activeWorkers (fromBytes : List UInt8 → Option P) (client : RegistryClient) :
    Exec (List (Worker P)) := do
  let onchainIds := client.workerRegistration.activeWorkerIds
  let calls ← sliceChunks client.activeWorkersPerPage onchainIds
  let workers := (calls.map client.workerRegistration.callArray).flatten
  .ok ((workers.zip onchainIds).filterMap fun pair => Worker.new fromBytes pair.1 pair.2)

/-- The clusters of the new registry. -/
def clusterEntries (client : RegistryClient) : List (ClusterId × Cluster) :=
  match client.portalRegistry with
  | none => []
  | some pr => pr.active

/-- Every loop comes to its end and visits the entries of its registry once each, in order; the
results are those of the whole registries, every worker with its own id. -/
structure PagesCompletely (fromBytes : List UInt8 → Option P) (client : RegistryClient)
    (profile : Profile) (workerId : U256) : Prop where
  clusters : ∃ fuel, client.pageClusters (fun page => page.clusterIds.zip page.clusters) fuel =
    some client.clusterEntries
  gateways : ∃ fuel, client.pageGateways profile fuel = .ok (some client.gatewayRegistry.active)
  allocations : ∃ fuel, client.pageAllocations profile workerId fuel =
    .ok (some (client.allocationsViewer.rows workerId))
  activePortals : ∃ fuel, client.activePortals fromBytes profile fuel =
    .ok (some (mergeActivePortals
      (client.clusterEntries.flatMap fun entry => entry.2.portalIds fromBytes)
      (client.gatewayRegistry.active.filterMap fromBytes)))
  portalClusters : ∃ fuel, client.portalClusters fromBytes profile workerId fuel =
    .ok (some (mergePortalClusters fromBytes (client.newClusters fromBytes)
      (client.allocationsViewer.rows workerId)))
  activeWorkers : client.activeWorkers fromBytes =
    .ok (client.workerRegistration.activeWorkerIds.filterMap fun id =>
      Worker.new fromBytes (client.workerRegistration.getWorker id) id)

variable {client : RegistryClient} {profile : Profile}

/-- Reading by offset collects from every cluster. -/
theorem pageClusters_eq {β : Type} {collect : ClusterPage → List β}
    (each : ClusterId × Cluster → List β)
    (hcollect : ∀ (entries : List (ClusterId × Cluster)) total, collect
      ⟨entries.map Prod.fst, entries.map Prod.snd, total⟩ = entries.flatMap each)
    (hsize : 0 < client.portalsPerPage) {fuel : Nat}
    (hfuel : client.clusterEntries.length < fuel) :
    client.pageClusters collect fuel = some (client.clusterEntries.flatMap each) := by
  unfold pageClusters clusterEntries
  cases hpr : client.portalRegistry with
  | none => rfl
  | some pr =>
    simp only [clusterEntries, hpr] at hfuel
    apply readOffsets_eq _ _ _ _ hsize hfuel
    · intro offset
      rw [pr.paged, List.length_map]
    · intro offset
      rw [pr.paged]
    · intro offset
      rw [pr.paged, hcollect]
    · intro xs ys
      exact List.flatMap_append

omit [DecidableEq P] in
/-- The slices of ids are asked for in order, so every answer stands beside its id. -/
theorem activeWorkers_eq {fromBytes : List UInt8 → Option P}
    (hsize : 0 < client.activeWorkersPerPage) : client.activeWorkers fromBytes =
      .ok (client.workerRegistration.activeWorkerIds.filterMap fun id =>
        Worker.new fromBytes (client.workerRegistration.getWorker id) id) := by
  obtain ⟨calls, hcalls, hflat⟩ := sliceChunks_flatten (Nat.ne_of_gt hsize)
    client.workerRegistration.activeWorkerIds
  have hworkers : (calls.map client.workerRegistration.callArray).flatten =
      client.workerRegistration.activeWorkerIds.map client.workerRegistration.getWorker := by
    rw [funext client.workerRegistration.called, ← List.map_flatten, hflat]
  have hpairs : (client.workerRegistration.activeWorkerIds.map
      client.workerRegistration.getWorker).zip client.workerRegistration.activeWorkerIds =
      client.workerRegistration.activeWorkerIds.map fun id =>
        (client.workerRegistration.getWorker id, id) := by
    have hzip := @List.zip_map' _ _ _ client.workerRegistration.getWorker id
      client.workerRegistration.activeWorkerIds
    rwa [List.map_id] at hzip
  simp only [activeWorkers, hcalls, Exec.ok_bind, hworkers, hpairs, List.filterMap_map]
  rfl

/-- The clusters of a worker are the merge of both registries' whole contents, if pages hold
something and those of the rows can be counted. Otherwise there is no result. -/
theorem portalClusters_returns_iff {fromBytes : List UInt8 → Option P} {workerId : U256}
    {result : List (PortalCluster P)} :
    Returns (client.portalClusters fromBytes profile workerId) result ↔
      (0 < client.portalsPerPage ∧ (client.allocationsViewer.rows workerId).length /
        client.portalsPerPage < pageLimit profile) ∧
      result = mergePortalClusters fromBytes (client.newClusters fromBytes)
        (client.allocationsViewer.rows workerId) := by
  have hpaged := (client.allocationsViewer.paged workerId · client.portalsPerPage)
  constructor
  · rintro ⟨fuel, h⟩
    unfold portalClusters at h
    cases hclusters : client.readClusters fromBytes fuel with
    | none =>
      rw [hclusters] at h
      cases h
    | some newClusters =>
      rw [hclusters] at h
      obtain ⟨allocations, hallocations, h⟩ := Exec.bind_eq_ok.mp h
      obtain ⟨rows, rfl, rfl⟩ := Option.map_eq_some_iff.mp (Except.ok.inj h)
      obtain ⟨hlimits, rfl⟩ := (readPagesI32_returns_iff hpaged).mp ⟨fuel, hallocations⟩
      have hnew := (client.readClusters_steady fromBytes).unique ⟨fuel, hclusters⟩
        ⟨_, client.readClusters_eq fromBytes hlimits.1 (Nat.lt_succ_self _)⟩
      exact ⟨hlimits, by rw [hnew]⟩
  · rintro ⟨⟨hsize, hpages⟩, rfl⟩
    refine ⟨client.activeClusters.length +
      (client.allocationsViewer.rows workerId).length + 1, ?_⟩
    rw [portalClusters, client.readClusters_eq fromBytes hsize (by omega)]
    dsimp only
    rw [pageAllocations, readPagesI32_all hpaged hsize hpages (by omega), Exec.ok_bind,
      Option.map_some]

/-- Within the limits every loop is complete. -/
theorem pagesCompletely_of_limits (fromBytes : List UInt8 → Option P) {workerId : U256}
    (hportals : 0 < client.portalsPerPage) (hworkers : 0 < client.activeWorkersPerPage)
    (hgateways : client.gatewayRegistry.active.length / client.portalsPerPage < pageLimit profile)
    (hrows : (client.allocationsViewer.rows workerId).length / client.portalsPerPage <
      pageLimit profile) : client.PagesCompletely fromBytes profile workerId := by
  have hread : ∀ fuel > client.gatewayRegistry.active.length,
      client.pageGateways profile fuel = .ok (some client.gatewayRegistry.active) :=
    fun fuel hfuel => readPagesI32_all (client.gatewayRegistry.paged · client.portalsPerPage)
      hportals hgateways hfuel
  refine ⟨⟨client.clusterEntries.length + 1, ?_⟩, ⟨_, hread _ (Nat.lt_succ_self _)⟩,
    ⟨_, readPagesI32_all (client.allocationsViewer.paged workerId · client.portalsPerPage)
      hportals hrows (Nat.lt_succ_self _)⟩,
    ⟨client.clusterEntries.length + client.gatewayRegistry.active.length + 1, ?_⟩,
    portalClusters_returns_iff.mpr ⟨⟨hportals, hrows⟩, rfl⟩, activeWorkers_eq hworkers⟩
  · rw [pageClusters_eq (fun entry => [entry]) ?_ hportals (Nat.lt_succ_self _)]
    · rw [List.flatMap_singleton']
    · intro entries total
      rw [List.zip_map', List.flatMap_singleton']
      exact List.map_id entries
  · rw [activePortals, pageClusters_eq (fun entry => entry.2.portalIds fromBytes) ?_ hportals
      (by omega)]
    · dsimp only
      rw [hread _ (by omega), Exec.ok_bind, Option.map_some]
    · intro entries total
      rw [List.flatMap_map]

end RegistryClient

/-- The paging loops come to their end and visit every entry of the registries once and in order,
each worker with its own id, exactly when neither page size is zero and the pages of the legacy
registries can be counted. -/
theorem registry_paging_complete_iff {P : Type} [DecidableEq P]
    (fromBytes : List UInt8 → Option P) (args : RpcArgs) (portalRegistry : Option PortalRegistry)
    (allocationsViewer : AllocationsViewer) (gatewayRegistry : GatewayRegistry)
    (workerRegistration : WorkerRegistration) (profile : Profile) (workerId : U256) :
    (RegistryClient.new args portalRegistry allocationsViewer gatewayRegistry
      workerRegistration).PagesCompletely fromBytes profile workerId ↔
    0 < args.contractPortalsPerPage ∧ 0 < args.contractWorkersPerPage ∧
      gatewayRegistry.active.length / args.contractPortalsPerPage < pageLimit profile ∧
      (allocationsViewer.rows workerId).length / args.contractPortalsPerPage <
        pageLimit profile := by
  constructor
  · intro h
    obtain ⟨⟨hportals, hpages⟩, -⟩ := (readPagesI32_returns_iff
      (gatewayRegistry.paged · args.contractPortalsPerPage)).mp h.gateways
    obtain ⟨⟨-, hpages'⟩, -⟩ := (readPagesI32_returns_iff
      (allocationsViewer.paged workerId · args.contractPortalsPerPage)).mp h.allocations
    refine ⟨hportals, Nat.pos_of_ne_zero fun hzero => ?_, hpages, hpages'⟩
    have hworkers := h.activeWorkers
    simp [RegistryClient.activeWorkers, RegistryClient.new, sliceChunks, hzero] at hworkers
  · rintro ⟨hportals, hworkers, hgateways, hrows⟩
    exact RegistryClient.pagesCompletely_of_limits fromBytes hportals hworkers hgateways hrows

/-- A client of registries with one gateway and one worker. -/
def sampleRegistries (args : RpcArgs) : RegistryClient :=
  .new args none (.ofRows fun _ => [])
    ⟨[[7]], fun page perPage => ([[7]].drop (page * perPage)).take perPage, fun _ _ => rfl⟩
    ⟨[1], fun _ => ⟨0, [8], 0, 0, 0⟩, List.map fun _ => ⟨0, [8], 0, 0, 0⟩, fun _ => rfl⟩

/-- With a page size of zero the portals are never read to the end, and the workers not at all. -/
theorem registry_paging_stuck :
    (∀ fuel portals, (sampleRegistries ⟨1, 0⟩).activePortals some .release fuel ≠
      .ok (some portals)) ∧
    (sampleRegistries ⟨0, 1⟩).activeWorkers some =
      .error (.assertFailed "chunk size must be non-zero") := by
  refine ⟨fun fuel portals h => ?_, rfl⟩
  obtain ⟨gateways, hgateways, h⟩ := Exec.bind_eq_ok.mp h
  obtain ⟨ids, rfl, -⟩ := Option.map_eq_some_iff.mp (Except.ok.inj h)
  exact readPagesI32_zero fuel 0 ids hgateways

end SqdNetwork.Contracts
