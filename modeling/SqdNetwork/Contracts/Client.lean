import SqdNetwork.Contracts.Accounting
import SqdNetwork.Core.Paging

/-!
# Reading the registries

The client reads the active clusters of the new registry and the rows of the legacy one
page by page and merges them. Peers are taken as migrated if a cluster with compute units
lists them, whereas a request about one portal asks the new registry alone.
-/

namespace SqdNetwork.Contracts

open SqdNetwork.Core

/-- The id of a cluster in the new registry. -/
abbrev ClusterId := BitVec 256

/-- The id that stands for no cluster. -/
def zeroClusterId : ClusterId := 0

/-- A portal as the new registry stores it. -/
structure Portal where
  peerId : List UInt8
  deriving DecidableEq

/-- A cluster as the new registry stores it. -/
structure Cluster where
  operator : Address
  portals : List Portal
  deriving DecidableEq

/-- The response to a request for active clusters. -/
structure ClusterPage where
  clusterIds : List ClusterId
  clusters : List Cluster
  totalActive : Nat

/-- The new registry. Pages are slices of the active clusters, and the portals of an
active cluster belong to some cluster. -/
structure PortalRegistry where
  active : List (ClusterId × Cluster)
  getActiveClusters : Nat → Nat → ClusterPage
  getComputationUnits : ClusterId → U256
  getClusterIdByPeerId : List UInt8 → ClusterId
  paged : ∀ offset limit, getActiveClusters offset limit =
    ⟨((active.drop offset).take limit).map Prod.fst,
      ((active.drop offset).take limit).map Prod.snd, active.length⟩
  registered : ∀ entry ∈ active, ∀ portal ∈ entry.2.portals,
    getClusterIdByPeerId portal.peerId ≠ zeroClusterId

/-- The legacy registry. Pages are slices of the rows of a worker. -/
structure AllocationsViewer where
  rows : U256 → List Allocation
  getAllocations : U256 → Nat → Nat → List Allocation
  paged : ∀ workerId page perPage, getAllocations workerId page perPage =
    ((rows workerId).drop (page * perPage)).take perPage

/-- The legacy registry with given rows. -/
def AllocationsViewer.ofRows (rows : U256 → List Allocation) : AllocationsViewer where
  rows := rows
  getAllocations workerId page perPage := ((rows workerId).drop (page * perPage)).take perPage
  paged _ _ _ := rfl

/-- The client's contracts and its page size. -/
structure EthersClient where
  portalRegistry : Option PortalRegistry
  allocationsViewer : AllocationsViewer
  portalsPerPage : Nat

/-- Where a portal's allocations come from. -/
inductive ResolvedVia where
  | portalRegistry
  | gatewayRegistry
  deriving DecidableEq

variable {P : Type}

/-- The readable ids among a cluster's portals. -/
def Cluster.portalIds (fromBytes : List UInt8 → Option P) (cluster : Cluster) : List P :=
  cluster.portals.filterMap fun portal => fromBytes portal.peerId

/-- The cluster kept for the merge: one with compute units and a readable portal. -/
def Cluster.keep (fromBytes : List UInt8 → Option P) (cluster : Cluster) (cusTotal : U256) :
    Option (PortalCluster P) :=
  if cusTotal = 0 then none
  else
    let portalIds := cluster.portalIds fromBytes
    if portalIds.isEmpty then none else some ⟨cluster.operator, portalIds, cusTotal⟩

/-- The clusters kept of one page. -/
def PortalRegistry.readPage (fromBytes : List UInt8 → Option P) (pr : PortalRegistry)
    (page : ClusterPage) : List (PortalCluster P) :=
  let clusterCus := page.clusterIds.map pr.getComputationUnits
  (page.clusters.zip clusterCus).filterMap fun pair => pair.1.keep fromBytes pair.2

namespace EthersClient

/-- Collect the clusters of the new registry that are kept for the merge. -/
def readClusters (fromBytes : List UInt8 → Option P) (client : EthersClient) (fuel : Nat) :
    Option (List (PortalCluster P)) :=
  match client.portalRegistry with
  | none => some []
  | some pr =>
    readOffsets (fun offset => pr.getActiveClusters offset client.portalsPerPage)
      (fun page => page.clusters.length) ClusterPage.totalActive (pr.readPage fromBytes) fuel

/-- Which registry answers a request about the allocations of one portal. -/
def resolvedVia (client : EthersClient) (idBytes : List UInt8) : ResolvedVia :=
  match client.portalRegistry with
  | none => .gatewayRegistry
  | some pr =>
    if pr.getClusterIdByPeerId idBytes ≠ zeroClusterId then .portalRegistry else .gatewayRegistry

/-- The active clusters of the new registry with their compute units. -/
def activeClusters (client : EthersClient) : List (Cluster × U256) :=
  match client.portalRegistry with
  | none => []
  | some pr => pr.active.map fun entry => (entry.2, pr.getComputationUnits entry.1)

/-- The clusters that the client hands to the merge. -/
def newClusters (fromBytes : List UInt8 → Option P) (client : EthersClient) :
    List (PortalCluster P) :=
  client.activeClusters.filterMap fun pair => pair.1.keep fromBytes pair.2

/-- The portals of active clusters. -/
def activePortals (fromBytes : List UInt8 → Option P) (client : EthersClient) : List P :=
  client.activeClusters.flatMap fun pair => pair.1.portalIds fromBytes

end EthersClient

/-! ## What the loops collect -/

/-- A page of clusters is read entry by entry. -/
theorem PortalRegistry.readPage_paged (fromBytes : List UInt8 → Option P) (pr : PortalRegistry)
    (offset limit : Nat) :
    pr.readPage fromBytes (pr.getActiveClusters offset limit) =
      ((pr.active.drop offset).take limit).filterMap fun entry =>
        entry.2.keep fromBytes (pr.getComputationUnits entry.1) := by
  rw [pr.paged, PortalRegistry.readPage, List.map_map, List.zip_map', List.filterMap_map]
  rfl

namespace EthersClient

/-- With enough fuel the whole new registry is read. -/
theorem readClusters_eq (fromBytes : List UInt8 → Option P) (client : EthersClient)
    (hsize : 0 < client.portalsPerPage) {fuel : Nat}
    (hfuel : client.activeClusters.length < fuel) :
    client.readClusters fromBytes fuel = some (client.newClusters fromBytes) := by
  cases hpr : client.portalRegistry with
  | none => simp only [readClusters, newClusters, activeClusters, hpr, List.filterMap_nil]
  | some pr =>
    simp only [activeClusters, hpr, List.length_map] at hfuel
    simp only [readClusters, newClusters, activeClusters, hpr, List.filterMap_map]
    apply readOffsets_eq _ _ (pr.readPage_paged fromBytes · client.portalsPerPage) _ hsize hfuel
    · intro offset
      rw [pr.paged, List.length_map]
    · intro offset
      rw [pr.paged]
    · intro xs ys
      exact List.filterMap_append

theorem readClusters_steady (fromBytes : List UInt8 → Option P) (client : EthersClient) :
    Steady (client.readClusters fromBytes) := by
  unfold readClusters
  cases client.portalRegistry with
  | none => exact fun _ _ hrun => hrun
  | some pr => exact readLoop_steady 0

end EthersClient

end SqdNetwork.Contracts
