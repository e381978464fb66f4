import SqdNetwork.Contracts.RegistryPaging

/-!
# Portals that moved to the new registry

A portal of an active cluster is answered for by the new registry. Its legacy rows are
dropped from the clusters of a worker only if some cluster that lists it has compute
units, because clusters without any are left out before peers are compared.
-/

namespace SqdNetwork.Contracts

open SqdNetwork.Core

variable {P : Type} [DecidableEq P]

/-- A new registry with given clusters, all of them with an id of their own. -/
def PortalRegistry.ofActive (active : List (ClusterId × Cluster)) (units : ClusterId → U256)
    (hid : ∀ entry ∈ active, entry.1 ≠ zeroClusterId) : PortalRegistry where
  active := active
  getActiveClusters offset limit :=
    ⟨((active.drop offset).take limit).map Prod.fst,
      ((active.drop offset).take limit).map Prod.snd, active.length⟩
  getComputationUnits := units
  getClusterIdByPeerId peerId :=
    ((active.find? fun entry => entry.2.portals.any fun portal => portal.peerId = peerId).map
      Prod.fst).getD zeroClusterId
  paged _ _ := rfl
  registered := by
    intro entry hentry portal hportal
    have hlisted : (entry.2.portals.any fun other => other.peerId = portal.peerId) = true :=
      List.any_eq_true.mpr ⟨portal, hportal, decide_eq_true rfl⟩
    cases hfind : active.find? fun entry =>
        entry.2.portals.any fun other => other.peerId = portal.peerId with
    | none => exact absurd hlisted (List.find?_eq_none.mp hfind entry hentry)
    | some found => exact hid found (List.mem_of_find?_eq_some hfind)

namespace EthersClient

/-- Whether a legacy row is about a portal of an active cluster. -/
def migratedRow (fromBytes : List UInt8 → Option P) (client : EthersClient)
    (allocation : Allocation) : Bool :=
  (fromBytes allocation.gatewayId).any fun peer => peer ∈ client.activePortals fromBytes

/-- The client of a legacy registry without the rows of active clusters' portals. -/
def withoutMigrated (fromBytes : List UInt8 → Option P) (client : EthersClient) : EthersClient :=
  { client with
    allocationsViewer := .ofRows fun workerId =>
      (client.allocationsViewer.rows workerId).filter fun allocation =>
        !client.migratedRow fromBytes allocation }

/-- Some active cluster with compute units lists the peer. -/
def Funded (fromBytes : List UInt8 → Option P) (client : EthersClient) (peer : P) : Prop :=
  ∃ pair ∈ client.activeClusters, pair.2 ≠ 0 ∧ peer ∈ pair.1.portalIds fromBytes

/-- Every legacy row of an active cluster's portal is about one of a cluster with units. -/
def RowsFunded (fromBytes : List UInt8 → Option P) (client : EthersClient) (workerId : U256) :
    Prop :=
  ∀ allocation ∈ client.allocationsViewer.rows workerId, ∀ peer,
    fromBytes allocation.gatewayId = some peer → peer ∈ client.activePortals fromBytes →
      client.Funded fromBytes peer

end EthersClient

omit [DecidableEq P] in
theorem Cluster.keep_eq_some {fromBytes : List UInt8 → Option P} {cluster : Cluster}
    {cusTotal : U256} {kept : PortalCluster P} :
    cluster.keep fromBytes cusTotal = some kept ↔
      cusTotal ≠ 0 ∧ cluster.portalIds fromBytes ≠ [] ∧
        kept = ⟨cluster.operator, cluster.portalIds fromBytes, cusTotal⟩ := by
  unfold Cluster.keep
  split
  · next hzero =>
    constructor
    · intro h
      cases h
    · rintro ⟨hne, _⟩
      exact absurd hzero hne
  · next hne =>
    cases hids : cluster.portalIds fromBytes with
    | nil => simp
    | cons id ids =>
      constructor
      · intro h
        exact ⟨hne, List.cons_ne_nil id ids, (Option.some.inj h).symm⟩
      · rintro ⟨_, _, rfl⟩
        rfl

/-- Rows without a surviving peer do not matter. -/
theorem survivors_filter {fromBytes : List UInt8 → Option P}
    {newClusters : List (PortalCluster P)} {legacyAllocations : List Allocation}
    {keep : Allocation → Bool} (h : ∀ allocation ∈ legacyAllocations, keep allocation = false →
      survivingPeer fromBytes newClusters allocation = none) :
    survivors fromBytes newClusters (legacyAllocations.filter keep) =
      survivors fromBytes newClusters legacyAllocations := by
  induction legacyAllocations with
  | nil => rfl
  | cons allocation rest ih =>
    have hrest := ih fun other hother => h other (List.mem_cons_of_mem _ hother)
    unfold survivors at hrest ⊢
    rw [List.filter_cons]
    cases hkeep : keep allocation with
    | false =>
      rw [if_neg Bool.false_ne_true, hrest,
        List.filterMap_cons_none (by rw [h allocation List.mem_cons_self hkeep]; rfl)]
    | true => rw [if_pos rfl, List.filterMap_cons, List.filterMap_cons, hrest]

namespace EthersClient

variable {fromBytes : List UInt8 → Option P} {client : EthersClient}

omit [DecidableEq P] in
/-- The peers that the merge takes as migrated are those of clusters with units. -/
theorem exists_newCluster_iff {peer : P} :
    (∃ cluster ∈ client.newClusters fromBytes, peer ∈ cluster.portalIds) ↔
      client.Funded fromBytes peer := by
  constructor
  · rintro ⟨cluster, hcluster, hpeer⟩
    obtain ⟨pair, hpair, hkeep⟩ := List.mem_filterMap.mp hcluster
    obtain ⟨hunits, -, rfl⟩ := Cluster.keep_eq_some.mp hkeep
    exact ⟨pair, hpair, hunits, hpeer⟩
  · rintro ⟨pair, hpair, hunits, hpeer⟩
    have hkeep := Cluster.keep_eq_some.mpr ⟨hunits, List.ne_nil_of_mem hpeer, rfl⟩
    exact ⟨_, List.mem_filterMap.mpr ⟨pair, hpair, hkeep⟩, hpeer⟩

omit [DecidableEq P] in
/-- Requests about a portal of an active cluster go to the new registry. -/
theorem resolvedVia_of_mem_activePortals {toBytes : P → List UInt8} {peer : P}
    (hbytes : ∀ bytes peer, fromBytes bytes = some peer → toBytes peer = bytes)
    (h : peer ∈ client.activePortals fromBytes) :
    client.resolvedVia (toBytes peer) = .portalRegistry := by
  obtain ⟨pair, hpair, hpeer⟩ := List.mem_flatMap.mp h
  obtain ⟨portal, hportal, hread⟩ := List.mem_filterMap.mp hpeer
  cases hpr : client.portalRegistry with
  | none =>
    rw [activeClusters, hpr] at hpair
    cases hpair
  | some pr =>
    simp only [activeClusters, hpr] at hpair
    obtain ⟨entry, hentry, rfl⟩ := List.mem_map.mp hpair
    have hid := pr.registered entry hentry portal hportal
    simp only [resolvedVia, hpr]
    rw [hbytes _ _ hread, if_pos hid]

/-- A row is about a portal of an active cluster if its peer is one. -/
theorem migratedRow_eq_true {allocation : Allocation} :
    client.migratedRow fromBytes allocation = true ↔
      ∃ peer, fromBytes allocation.gatewayId = some peer ∧
        peer ∈ client.activePortals fromBytes := by
  simp only [migratedRow, Option.any_eq_true, decide_eq_true_eq]

/-- A funded portal's rows change nothing in the merge. -/
theorem merge_withoutMigrated {workerId : U256} (h : client.RowsFunded fromBytes workerId) :
    mergePortalClusters fromBytes (client.newClusters fromBytes)
      ((client.withoutMigrated fromBytes).allocationsViewer.rows workerId) =
      mergePortalClusters fromBytes (client.newClusters fromBytes)
        (client.allocationsViewer.rows workerId) := by
  have hsurvivors : survivors fromBytes (client.newClusters fromBytes)
      ((client.allocationsViewer.rows workerId).filter fun allocation =>
        !client.migratedRow fromBytes allocation) =
      survivors fromBytes (client.newClusters fromBytes)
        (client.allocationsViewer.rows workerId) := by
    apply survivors_filter
    intro allocation hrow hkeep
    obtain ⟨peer, hread, hactive⟩ := migratedRow_eq_true.mp (by simpa using hkeep)
    obtain ⟨cluster, hcluster, hpeer⟩ :=
      exists_newCluster_iff.mpr (h allocation hrow peer hread hactive)
    rw [Option.eq_none_iff_forall_ne_some]
    intro survivor hsurvivor
    obtain ⟨hread', hfree⟩ := survivingPeer_eq_some.mp hsurvivor
    obtain rfl := Option.some.inj (hread.symm.trans hread')
    exact hfree cluster hcluster hpeer
  rw [mergePortalClusters_eq, mergePortalClusters_eq, contributions, contributions, ← hsurvivors]
  rfl

/-- A row whose portal is in no cluster with units puts the portal into the merge. -/
theorem exists_merged_of_unfunded {workerId : U256} {allocation : Allocation} {peer : P}
    (hrow : allocation ∈ client.allocationsViewer.rows workerId)
    (hread : fromBytes allocation.gatewayId = some peer)
    (hunfunded : ¬ client.Funded fromBytes peer) :
    ∃ merged ∈ mergePortalClusters fromBytes (client.newClusters fromBytes)
      (client.allocationsViewer.rows workerId), peer ∈ merged.portalIds := by
  have hsurvives : survivingPeer fromBytes (client.newClusters fromBytes) allocation =
      some peer := by
    refine survivingPeer_eq_some.mpr ⟨hread, ?_⟩
    intro cluster hcluster hpeer
    exact hunfunded (exists_newCluster_iff.mp ⟨cluster, hcluster, hpeer⟩)
  obtain ⟨cluster, hcluster, hop, hpeer⟩ := (exists_contribution_iff (q := (peer ∈ ·))).mpr
    (Or.inr ⟨allocation, hrow, rfl, peer, hsurvives, List.mem_singleton_self peer⟩)
  obtain ⟨merged, hmerged, hop'⟩ := exists_merged_iff.mpr ⟨cluster, hcluster, hop⟩
  exact ⟨merged, hmerged,
    (mem_merged_portalIds hmerged peer).mpr ⟨cluster, hcluster, hop.trans hop'.symm, hpeer⟩⟩

/-- Without the rows of active clusters' portals an unfunded one is not in the merge. -/
theorem not_mem_merged_withoutMigrated {workerId : U256} {peer : P} {merged : PortalCluster P}
    (hactive : peer ∈ client.activePortals fromBytes)
    (hunfunded : ¬ client.Funded fromBytes peer)
    (hmerged : merged ∈ mergePortalClusters fromBytes (client.newClusters fromBytes)
      ((client.withoutMigrated fromBytes).allocationsViewer.rows workerId)) :
    peer ∉ merged.portalIds := by
  intro hpeer
  rcases (exists_contribution_iff (q := (peer ∈ ·))).mp
    ((mem_merged_portalIds hmerged peer).mp hpeer) with
    ⟨cluster, hcluster, -, hlisted⟩ | ⟨allocation, hrow, -, survivor, hsurvivor, hlisted⟩
  · exact hunfunded (exists_newCluster_iff.mp ⟨cluster, hcluster, hlisted⟩)
  · obtain rfl := List.mem_singleton.mp hlisted
    have hmigrated : client.migratedRow fromBytes allocation = true :=
      migratedRow_eq_true.mpr ⟨peer, (survivingPeer_eq_some.mp hsurvivor).1, hactive⟩
    have hkept := (List.mem_filter.mp hrow).2
    rw [hmigrated] at hkept
    cases hkept

end EthersClient

namespace RegistryClient

/-- The client of a legacy registry without the rows of active clusters' portals. -/
def withoutMigrated (fromBytes : List UInt8 → Option P) (client : RegistryClient) :
    RegistryClient :=
  { client with toEthersClient := client.toEthersClient.withoutMigrated fromBytes }

/-- Rows that are left out make no more pages. -/
theorem pages_withoutMigrated_le (fromBytes : List UInt8 → Option P) (client : RegistryClient)
    (workerId : U256) :
    ((client.withoutMigrated fromBytes).allocationsViewer.rows workerId).length /
        client.portalsPerPage ≤
      (client.allocationsViewer.rows workerId).length / client.portalsPerPage :=
  Nat.div_le_div_right (List.length_filter_le _ _)

/-- Requests about portals of active clusters go to the new registry. The clusters of a worker
that the client returns are those without such portals' legacy rows exactly if every such row is
about a portal of a cluster with compute units, or there is no result: pages have no room, or the
rows have more pages than can be counted. -/
theorem migrated_rows_ignored_iff (fromBytes : List UInt8 → Option P) (toBytes : P → List UInt8)
    (client : RegistryClient) (profile : Profile) (workerId : U256)
    (hbytes : ∀ bytes peer, fromBytes bytes = some peer → toBytes peer = bytes) :
    ((∀ peer ∈ client.toEthersClient.activePortals fromBytes,
        client.resolvedVia (toBytes peer) = .portalRegistry) ∧
      ∀ result, Returns (client.portalClusters fromBytes profile workerId) result →
        Returns ((client.withoutMigrated fromBytes).portalClusters fromBytes profile workerId)
          result) ↔
      client.portalsPerPage = 0 ∨
        pageLimit profile ≤
          (client.allocationsViewer.rows workerId).length / client.portalsPerPage ∨
        client.RowsFunded fromBytes workerId := by
  simp only [portalClusters_returns_iff]
  constructor
  · rintro ⟨-, hsame⟩
    refine (Nat.eq_zero_or_pos client.portalsPerPage).imp_right fun hsize => ?_
    refine (Nat.lt_or_ge _ (pageLimit profile)).symm.imp_right fun hpages => ?_
    intro allocation hrow peer hread hactive
    by_contra hunfunded
    obtain ⟨merged, hmerged, hpeer⟩ := EthersClient.exists_merged_of_unfunded hrow hread hunfunded
    rw [(hsame _ ⟨⟨hsize, hpages⟩, rfl⟩).2] at hmerged
    exact EthersClient.not_mem_merged_withoutMigrated hactive hunfunded hmerged hpeer
  · intro h
    refine ⟨fun peer hactive =>
      EthersClient.resolvedVia_of_mem_activePortals hbytes hactive, ?_⟩
    rintro result ⟨⟨hsize, hpages⟩, rfl⟩
    have hfunded := (h.resolve_left (Nat.ne_of_gt hsize)).resolve_left (Nat.not_le.mpr hpages)
    refine ⟨⟨hsize, (client.pages_withoutMigrated_le fromBytes workerId).trans_lt hpages⟩, ?_⟩
    exact (EthersClient.merge_withoutMigrated hfunded).symm

/-- One cluster with one portal, and a legacy row of the portal under another operator. -/
def oneMigrated (units : U256) : RegistryClient :=
  { sampleRegistries ⟨1, 5⟩ with
    portalRegistry := some (.ofActive [(1, ⟨10, [⟨[7]⟩]⟩)] (fun _ => units) (by decide))
    allocationsViewer := .ofRows fun _ => [⟨[7], 3, 20⟩] }

/-- With compute units the cluster's portal draws nothing from its legacy row. -/
theorem migrated_rows_ignored_sample :
    (∀ peer ∈ (oneMigrated 4).toEthersClient.activePortals some,
        (oneMigrated 4).resolvedVia (id peer) = .portalRegistry) ∧
      ∀ result, Returns ((oneMigrated 4).portalClusters some .debug 1) result →
        Returns (((oneMigrated 4).withoutMigrated some).portalClusters some .debug 1) result := by
  refine (migrated_rows_ignored_iff some id (oneMigrated 4) .debug 1 ?_).mpr (.inr (.inr ?_))
  · intro bytes peer hread
    exact (Option.some.inj hread).symm
  · intro allocation _ peer _ hactive
    obtain ⟨pair, hpair, hpeer⟩ := List.mem_flatMap.mp hactive
    obtain rfl := List.mem_singleton.mp hpair
    exact ⟨_, hpair, by decide, hpeer⟩

/-- Without compute units it is answered for by the new registry, and its legacy row still
gives the portal and the row's units to a worker. -/
theorem migrated_row_counted :
    [7] ∈ (oneMigrated 0).toEthersClient.activePortals some ∧
    (oneMigrated 0).resolvedVia [7] = .portalRegistry ∧
    Returns ((oneMigrated 0).portalClusters some .release 1) [⟨20, [[7]], 3⟩] ∧
    ¬ Returns (((oneMigrated 0).withoutMigrated some).portalClusters some .release 1)
      [⟨20, [[7]], 3⟩] := by
  refine ⟨by decide +kernel, by decide +kernel, ⟨2, by decide +kernel⟩, ?_⟩
  rw [portalClusters_returns_iff]
  decide +kernel

end RegistryClient

end SqdNetwork.Contracts
