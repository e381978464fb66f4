import SqdNetwork.Core.SortedMap
import Mathlib.Algebra.BigOperators.Group.List.Basic
import Mathlib.Algebra.Order.Ring.Nat
import Mathlib.Data.Finset.Dedup
import Mathlib.Data.Finset.Insert

/-!
# Merging the portal clusters of two registries

Clusters of the new registry and rows of the legacy one are added up by operator. Rows
of peers that some new cluster lists are dropped, and of an operator's other rows only
the first adds compute units. The two loops are one walk over a list of contributions,
so every operator ends up with the total of its own ones.
-/

namespace SqdNetwork.Contracts

open SqdNetwork.Core

/-- An account address. -/
abbrev Address := BitVec 160

/-- A 256-bit number. -/
abbrev U256 := BitVec 256

/-- The portals of an operator and the compute units they may use. -/
structure PortalCluster (P : Type) where
  operatorAddr : Address
  portalIds : List P
  allocatedComputationUnits : U256
  deriving DecidableEq

/-- A row of the legacy registry. -/
structure Allocation where
  gatewayId : List UInt8
  allocated : U256
  operator : Address
  deriving DecidableEq

/-- Addition that stops at the largest number. -/
def saturatingAdd (a b : U256) : U256 :=
  if a.toNat + b.toNat < 2 ^ 256 then a + b else BitVec.allOnes 256

theorem toNat_saturatingAdd (a b : U256) :
    (saturatingAdd a b).toNat = min (2 ^ 256 - 1) (a.toNat + b.toNat) := by
  unfold saturatingAdd
  split
  · rw [BitVec.toNat_add_of_lt ‹_›]
    omega
  · rw [BitVec.toNat_allOnes]
    omega

variable {P : Type} [DecidableEq P]

/-- Append the ids that are not there yet. -/
def pushIds (existing portalIds : List P) : List P :=
  portalIds.foldl (fun ids pid => if pid ∈ ids then ids else ids ++ [pid]) existing

/-- The cluster an operator has after a contribution. The first one is taken as it is. -/
def contribute (operator : Address) (portalIds : List P) (cus : U256) :
    Option (PortalCluster P) → PortalCluster P
  | some existing =>
    { existing with
      portalIds := pushIds existing.portalIds portalIds
      allocatedComputationUnits := saturatingAdd existing.allocatedComputationUnits cus }
  | none => ⟨operator, portalIds, cus⟩

/-- Add a contribution to an operator's cluster. -/
def upsertCluster (map : SortedMap Address (PortalCluster P)) (operator : Address)
    (portalIds : List P) (cus : U256) : SortedMap Address (PortalCluster P) :=
  map.alter operator (contribute operator portalIds cus)

/-- Add a legacy row; only the first one of an operator adds its compute units. -/
def upsertLegacyAllocation
    (s : SortedMap Address (PortalCluster P) × Finset Address) (operator : Address) (peer : P)
    (cus : U256) : SortedMap Address (PortalCluster P) × Finset Address :=
  let contribution := if operator ∈ s.2 then 0 else cus
  (upsertCluster s.1 operator [peer] contribution, insert operator s.2)

/-- One cluster for each operator, in the order of their addresses. -/
def mergePortalClusters (fromBytes : List UInt8 → Option P) (newClusters : List (PortalCluster P))
    (legacyAllocations : List Allocation) : List (PortalCluster P) :=
  let migratedPeers := (newClusters.flatMap PortalCluster.portalIds).toFinset
  let byOperator := newClusters.foldl (fun map cluster => upsertCluster map cluster.operatorAddr
    cluster.portalIds cluster.allocatedComputationUnits) SortedMap.empty
  let out := legacyAllocations.foldl (fun s allocation =>
    match fromBytes allocation.gatewayId with
    | none => s
    | some peer =>
      if peer ∈ migratedPeers then s
      else upsertLegacyAllocation s allocation.operator peer allocation.allocated)
    (byOperator, ∅)
  out.1.entries.map Prod.snd

/-! ## The ids of a cluster -/

theorem mem_pushIds {existing portalIds : List P} {pid : P} :
    pid ∈ pushIds existing portalIds ↔ pid ∈ existing ∨ pid ∈ portalIds := by
  induction portalIds generalizing existing with
  | nil => simp [pushIds]
  | cons head rest ih =>
    rw [pushIds, List.foldl_cons, ← pushIds, ih, List.mem_cons]
    split
    · next hmem =>
      constructor
      · exact Or.imp_right Or.inr
      · rintro (h | rfl | h)
        · exact Or.inl h
        · exact Or.inl hmem
        · exact Or.inr h
    · rw [List.mem_append, List.mem_singleton, or_assoc]

/-- Pushing ids neither introduces nor removes a repetition. -/
theorem nodup_pushIds {existing portalIds : List P} :
    (pushIds existing portalIds).Nodup ↔ existing.Nodup := by
  induction portalIds generalizing existing with
  | nil => rfl
  | cons head rest ih =>
    rw [pushIds, List.foldl_cons, ← pushIds, ih]
    split
    · rfl
    · next hmem =>
      rw [← List.concat_eq_append, List.nodup_concat]
      exact and_iff_right hmem

/-! ## Contributions to one operator -/

/-- What a cluster becomes when another one of its operator is added. -/
def absorb (cluster contribution : PortalCluster P) : PortalCluster P :=
  contribute contribution.operatorAddr contribution.portalIds
    contribution.allocatedComputationUnits (some cluster)

/-- The compute units of several clusters together. -/
def unitsOf (clusters : List (PortalCluster P)) : Nat :=
  (clusters.map fun cluster => cluster.allocatedComputationUnits.toNat).sum

/-- Absorbing keeps the operator and gathers the ids and, up to the largest number, the units. -/
theorem foldl_absorb_spec (cluster : PortalCluster P) (rest : List (PortalCluster P)) :
    (rest.foldl absorb cluster).operatorAddr = cluster.operatorAddr ∧
    (∀ pid, pid ∈ (rest.foldl absorb cluster).portalIds ↔
      ∃ contribution ∈ cluster :: rest, pid ∈ contribution.portalIds) ∧
    ((rest.foldl absorb cluster).portalIds.Nodup ↔ cluster.portalIds.Nodup) ∧
    (rest.foldl absorb cluster).allocatedComputationUnits.toNat =
      min (2 ^ 256 - 1) (unitsOf (cluster :: rest)) := by
  induction rest generalizing cluster with
  | nil =>
    refine ⟨rfl, ?_, Iff.rfl, ?_⟩
    · intro pid
      simp
    · have hlt := cluster.allocatedComputationUnits.isLt
      simp only [List.foldl_nil, unitsOf, List.map_cons, List.map_nil, List.sum_cons, List.sum_nil]
      omega
  | cons next rest ih =>
    obtain ⟨hop, hids, hnodup, hunits⟩ := ih (absorb cluster next)
    refine ⟨hop, ?_, hnodup.trans nodup_pushIds, ?_⟩
    · intro pid
      rw [List.foldl_cons, hids]
      simp only [List.exists_mem_cons_iff, absorb, contribute, mem_pushIds, or_assoc]
    · rw [List.foldl_cons, hunits]
      simp only [unitsOf, List.map_cons, List.sum_cons, absorb, contribute, toNat_saturatingAdd]
      omega

/-- Adding contributions one after the other to a map. -/
def addAll (map : SortedMap Address (PortalCluster P)) (contributions : List (PortalCluster P)) :
    SortedMap Address (PortalCluster P) :=
  contributions.foldl (fun map cluster => upsertCluster map cluster.operatorAddr
    cluster.portalIds cluster.allocatedComputationUnits) map

theorem foldl_contribute_some (cluster : PortalCluster P) (rest : List (PortalCluster P)) :
    rest.foldl (fun value contribution => some (contribute contribution.operatorAddr
      contribution.portalIds contribution.allocatedComputationUnits value)) (some cluster) =
      some (rest.foldl absorb cluster) := by
  induction rest generalizing cluster with
  | nil => rfl
  | cons next rest ih => exact ih (absorb cluster next)

/-- An operator's entry is its first contribution with the later ones absorbed. -/
theorem get?_addAll_eq_some {contributions : List (PortalCluster P)} {operator : Address}
    {merged : PortalCluster P} :
    (addAll SortedMap.empty contributions).get? operator = some merged ↔
      ∃ cluster rest, (contributions.filter fun cluster => cluster.operatorAddr = operator) =
        cluster :: rest ∧ merged = rest.foldl absorb cluster := by
  have h := SortedMap.get?_foldl_alter PortalCluster.operatorAddr
    (fun cluster : PortalCluster P => contribute cluster.operatorAddr cluster.portalIds
      cluster.allocatedComputationUnits) SortedMap.empty contributions operator
  unfold addAll upsertCluster
  rw [h]
  cases contributions.filter fun cluster => cluster.operatorAddr = operator with
  | nil =>
    constructor
    · intro hnone
      cases hnone
    · rintro ⟨_, _, hnil, _⟩
      cases hnil
  | cons cluster rest =>
    have hfold := foldl_contribute_some cluster rest
    constructor
    · intro hsome
      exact ⟨cluster, rest, rfl, (Option.some.inj (hfold.symm.trans hsome)).symm⟩
    · rintro ⟨_, _, hcons, rfl⟩
      obtain ⟨rfl, rfl⟩ := List.cons.inj hcons
      exact hfold

/-- Entries are stored under their own operator. -/
theorem operatorAddr_of_get?_addAll {contributions : List (PortalCluster P)} {operator : Address}
    {merged : PortalCluster P}
    (h : (addAll SortedMap.empty contributions).get? operator = some merged) :
    merged.operatorAddr = operator := by
  obtain ⟨cluster, rest, hfilter, rfl⟩ := get?_addAll_eq_some.mp h
  have hmem : cluster ∈ contributions.filter fun cluster => cluster.operatorAddr = operator :=
    hfilter ▸ List.mem_cons_self
  rw [(foldl_absorb_spec cluster rest).1]
  exact of_decide_eq_true (List.mem_filter.mp hmem).2

/-! ## The merge as one walk -/

/-- The peer of a legacy row, if it is readable and no new cluster lists it. -/
def survivingPeer (fromBytes : List UInt8 → Option P) (newClusters : List (PortalCluster P))
    (allocation : Allocation) : Option P :=
  (fromBytes allocation.gatewayId).filter fun peer =>
    ∀ cluster ∈ newClusters, peer ∉ cluster.portalIds

/-- The legacy rows that count, with their peers. -/
def survivors (fromBytes : List UInt8 → Option P) (newClusters : List (PortalCluster P))
    (legacyAllocations : List Allocation) : List (Allocation × P) :=
  legacyAllocations.filterMap fun allocation =>
    (survivingPeer fromBytes newClusters allocation).map (Prod.mk allocation)

/-- What each surviving row adds, given the operators that had one before. -/
def legacyContributions (seen : Finset Address) : List (Allocation × P) → List (PortalCluster P)
  | [] => []
  | (allocation, peer) :: rest =>
    ⟨allocation.operator, [peer],
      if allocation.operator ∈ seen then 0 else allocation.allocated⟩ ::
      legacyContributions (insert allocation.operator seen) rest

/-- Everything that is added up, in order. -/
def contributions (fromBytes : List UInt8 → Option P) (newClusters : List (PortalCluster P))
    (legacyAllocations : List Allocation) : List (PortalCluster P) :=
  newClusters ++ legacyContributions ∅ (survivors fromBytes newClusters legacyAllocations)

variable {fromBytes : List UInt8 → Option P} {newClusters : List (PortalCluster P)}
  {legacyAllocations : List Allocation}

theorem survivingPeer_eq_some {allocation : Allocation} {peer : P} :
    survivingPeer fromBytes newClusters allocation = some peer ↔
      fromBytes allocation.gatewayId = some peer ∧
        ∀ cluster ∈ newClusters, peer ∉ cluster.portalIds := by
  rw [survivingPeer, Option.filter_eq_some_iff, decide_eq_true_iff]

theorem mem_survivors {allocation : Allocation} {peer : P} :
    (allocation, peer) ∈ survivors fromBytes newClusters legacyAllocations ↔
      allocation ∈ legacyAllocations ∧
        survivingPeer fromBytes newClusters allocation = some peer := by
  simp only [survivors, List.mem_filterMap, Option.map_eq_some_iff, Prod.mk.injEq]
  constructor
  · rintro ⟨_, hmem, _, hpeer, rfl, rfl⟩
    exact ⟨hmem, hpeer⟩
  · rintro ⟨hmem, hpeer⟩
    exact ⟨allocation, hmem, peer, hpeer, rfl, rfl⟩

/-- The rows that are skipped could as well be absent. -/
theorem foldl_legacy_eq {β : Type} (fromBytes : List UInt8 → Option P)
    (newClusters : List (PortalCluster P)) (legacyAllocations : List Allocation)
    (add : β → Allocation → P → β) (init : β) :
    legacyAllocations.foldl (fun s allocation =>
      match fromBytes allocation.gatewayId with
      | none => s
      | some peer =>
        if peer ∈ (newClusters.flatMap PortalCluster.portalIds).toFinset then s
        else add s allocation peer) init =
      (survivors fromBytes newClusters legacyAllocations).foldl
        (fun s row => add s row.1 row.2) init := by
  rw [survivors, List.foldl_filterMap]
  refine congrArg (fun step => List.foldl step init legacyAllocations) ?_
  funext s allocation
  cases hpeer : fromBytes allocation.gatewayId with
  | none => simp [survivingPeer, hpeer]
  | some peer =>
    by_cases hmem : ∃ cluster ∈ newClusters, peer ∈ cluster.portalIds
    · have hnone : survivingPeer fromBytes newClusters allocation = none := by
        simpa [survivingPeer, hpeer] using hmem
      simp [hnone, hmem]
    · have hsome : survivingPeer fromBytes newClusters allocation = some peer := by
        rw [survivingPeer_eq_some]
        exact ⟨hpeer, fun cluster hcluster hp => hmem ⟨cluster, hcluster, hp⟩⟩
      simp [hsome, hmem]

/-- Adding the surviving rows is adding their contributions. -/
theorem foldl_upsertLegacyAllocation (rows : List (Allocation × P))
    (map : SortedMap Address (PortalCluster P)) (seen : Finset Address) :
    (rows.foldl (fun s row => upsertLegacyAllocation s row.1.operator row.2 row.1.allocated)
      (map, seen)).1 = addAll map (legacyContributions seen rows) := by
  induction rows generalizing map seen with
  | nil => rfl
  | cons row rest ih => exact ih _ _

/-- The merge lists the entries that all contributions add up to. -/
theorem mergePortalClusters_eq (fromBytes : List UInt8 → Option P)
    (newClusters : List (PortalCluster P)) (legacyAllocations : List Allocation) :
    mergePortalClusters fromBytes newClusters legacyAllocations =
      (addAll SortedMap.empty (contributions fromBytes newClusters legacyAllocations)).entries.map
        Prod.snd := by
  simp only [mergePortalClusters]
  rw [foldl_legacy_eq fromBytes newClusters legacyAllocations
      (fun s allocation peer =>
        upsertLegacyAllocation s allocation.operator peer allocation.allocated),
    foldl_upsertLegacyAllocation]
  simp only [addAll, contributions, List.foldl_append]

/-- The merged clusters are the totals of the operators that have contributions. -/
theorem mem_mergePortalClusters {merged : PortalCluster P} :
    merged ∈ mergePortalClusters fromBytes newClusters legacyAllocations ↔
      ∃ cluster rest, ((contributions fromBytes newClusters legacyAllocations).filter
        fun contribution => contribution.operatorAddr = merged.operatorAddr) = cluster :: rest ∧
        merged = rest.foldl absorb cluster := by
  rw [mergePortalClusters_eq, List.mem_map, ← get?_addAll_eq_some]
  constructor
  · rintro ⟨⟨operator, _⟩, hentry, rfl⟩
    have hget := SortedMap.get?_eq_some_iff.mpr hentry
    rwa [operatorAddr_of_get?_addAll hget]
  · intro hget
    exact ⟨(merged.operatorAddr, merged), SortedMap.get?_eq_some_iff.mp hget, rfl⟩

/-- The contributions to one operator make one of the merged clusters. -/
theorem foldl_absorb_mem {operator : Address} {cluster : PortalCluster P}
    {rest : List (PortalCluster P)}
    (h : ((contributions fromBytes newClusters legacyAllocations).filter
      fun contribution => contribution.operatorAddr = operator) = cluster :: rest) :
    rest.foldl absorb cluster ∈ mergePortalClusters fromBytes newClusters legacyAllocations ∧
      (rest.foldl absorb cluster).operatorAddr = operator := by
  have hop := operatorAddr_of_get?_addAll (get?_addAll_eq_some.mpr ⟨cluster, rest, h, rfl⟩)
  refine ⟨mem_mergePortalClusters.mpr ⟨cluster, rest, ?_, rfl⟩, hop⟩
  rw [hop]
  exact h

/-- The merged clusters come in the order of their operators, one for each. -/
theorem mergePortalClusters_ascending (fromBytes : List UInt8 → Option P)
    (newClusters : List (PortalCluster P)) (legacyAllocations : List Allocation) :
    (mergePortalClusters fromBytes newClusters legacyAllocations).Pairwise
      fun a b => a.operatorAddr < b.operatorAddr := by
  rw [mergePortalClusters_eq, List.pairwise_map]
  refine (SortedMap.sorted _).imp_of_mem ?_
  intro a b ha hb hlt
  rwa [operatorAddr_of_get?_addAll (SortedMap.get?_eq_some_iff.mpr ha),
    operatorAddr_of_get?_addAll (SortedMap.get?_eq_some_iff.mpr hb)]

end SqdNetwork.Contracts
