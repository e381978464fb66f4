import SqdNetwork.Contracts.Merge

/-!
# Accounting of the merged clusters

An operator's merged cluster lists the portals of its new clusters and of its surviving
legacy rows, and its compute units are the new ones plus those of one legacy row. Ids
are compared when they join a cluster that is already there, so a repetition inside the
first new cluster of an operator is kept.
-/

namespace SqdNetwork.Contracts

open SqdNetwork.Core

variable {P : Type} [DecidableEq P]

/-- An operator's legacy row whose compute units count. -/
def firstSurviving (fromBytes : List UInt8 → Option P) (newClusters : List (PortalCluster P))
    (legacyAllocations : List Allocation) (operator : Address) : Option Allocation :=
  legacyAllocations.find? fun allocation =>
    allocation.operator = operator && (survivingPeer fromBytes newClusters allocation).isSome

variable {fromBytes : List UInt8 → Option P} {newClusters : List (PortalCluster P)}
  {legacyAllocations : List Allocation}

omit [DecidableEq P] in
/-- Each surviving row contributes its own peer to its own operator. -/
theorem exists_legacyContribution_iff {seen : Finset Address} {rows : List (Allocation × P)}
    {operator : Address} {q : List P → Prop} :
    (∃ cluster ∈ legacyContributions seen rows,
      cluster.operatorAddr = operator ∧ q cluster.portalIds) ↔
      ∃ row ∈ rows, row.1.operator = operator ∧ q [row.2] := by
  induction rows generalizing seen with
  | nil => simp [legacyContributions]
  | cons row rest ih =>
    obtain ⟨allocation, peer⟩ := row
    simp only [legacyContributions, List.exists_mem_cons_iff, ih]

omit [DecidableEq P] in
/-- The rows of one operator contribute the compute units of the first one. -/
theorem unitsOf_legacyContributions (seen : Finset Address) (rows : List (Allocation × P))
    (operator : Address) :
    unitsOf ((legacyContributions seen rows).filter fun cluster =>
      cluster.operatorAddr = operator) =
      if operator ∈ seen then 0
      else (rows.find? fun row => row.1.operator = operator).elim 0
        fun row => row.1.allocated.toNat := by
  induction rows generalizing seen with
  | nil => simp [legacyContributions, unitsOf]
  | cons row rest ih =>
    obtain ⟨allocation, peer⟩ := row
    rw [legacyContributions, List.filter_cons, List.find?_cons]
    by_cases hop : allocation.operator = operator
    · have hseen : operator ∈ insert allocation.operator seen := by
        rw [hop]
        exact Finset.mem_insert_self operator seen
      have hrest := ih (insert allocation.operator seen)
      rw [if_pos hseen] at hrest
      rw [if_pos (decide_eq_true hop), unitsOf, List.map_cons, List.sum_cons, ← unitsOf, hrest]
      simp only [hop, decide_true, Option.elim_some]
      split
      · rfl
      · rfl
    · have hiff : operator ∈ insert allocation.operator seen ↔ operator ∈ seen := by
        rw [Finset.mem_insert]
        exact or_iff_right fun he => hop he.symm
      rw [if_neg (by simpa using hop), ih]
      simp only [hiff, hop, decide_false]

/-- The first surviving row is found before or after the others are dropped. -/
theorem find?_survivors (fromBytes : List UInt8 → Option P)
    (newClusters : List (PortalCluster P)) (legacyAllocations : List Allocation)
    (operator : Address) :
    ((survivors fromBytes newClusters legacyAllocations).find? fun row =>
      row.1.operator = operator).elim 0 (fun row => row.1.allocated.toNat) =
      (firstSurviving fromBytes newClusters legacyAllocations operator).elim 0
        fun allocation => allocation.allocated.toNat := by
  induction legacyAllocations with
  | nil => rfl
  | cons allocation rest ih =>
    unfold survivors firstSurviving at ih ⊢
    rw [List.filterMap_cons, List.find?_cons]
    cases hpeer : survivingPeer fromBytes newClusters allocation with
    | none => simpa using ih
    | some peer =>
      by_cases hop : allocation.operator = operator
      · simp [hop]
      · simpa [hop] using ih

/-- Who contributes what to an operator's portals. -/
theorem exists_contribution_iff {operator : Address} {q : List P → Prop} :
    (∃ cluster ∈ contributions fromBytes newClusters legacyAllocations,
      cluster.operatorAddr = operator ∧ q cluster.portalIds) ↔
      (∃ cluster ∈ newClusters, cluster.operatorAddr = operator ∧ q cluster.portalIds) ∨
      ∃ allocation ∈ legacyAllocations, allocation.operator = operator ∧
        ∃ peer, survivingPeer fromBytes newClusters allocation = some peer ∧ q [peer] := by
  simp only [contributions, List.mem_append, or_and_right, exists_or,
    exists_legacyContribution_iff]
  refine or_congr_right ?_
  constructor
  · rintro ⟨⟨allocation, peer⟩, hrow, hop, hids⟩
    obtain ⟨hmem, hpeer⟩ := mem_survivors.mp hrow
    exact ⟨allocation, hmem, hop, peer, hpeer, hids⟩
  · rintro ⟨allocation, hmem, hop, peer, hpeer, hids⟩
    exact ⟨(allocation, peer), mem_survivors.mpr ⟨hmem, hpeer⟩, hop, hids⟩

omit [DecidableEq P] in
/-- An operator with a contribution has a first one. -/
theorem exists_filter_cons {clusters : List (PortalCluster P)} {cluster : PortalCluster P}
    {operator : Address} (hmem : cluster ∈ clusters) (hop : cluster.operatorAddr = operator) :
    ∃ first rest, (clusters.filter fun contribution => contribution.operatorAddr = operator) =
      first :: rest := by
  have hcluster : cluster ∈ clusters.filter fun contribution =>
      contribution.operatorAddr = operator :=
    List.mem_filter.mpr ⟨hmem, decide_eq_true hop⟩
  exact List.exists_cons_of_ne_nil (List.ne_nil_of_mem hcluster)

/-- The operators of the merged clusters are those with a contribution. -/
theorem exists_merged_iff {operator : Address} :
    (∃ merged ∈ mergePortalClusters fromBytes newClusters legacyAllocations,
      merged.operatorAddr = operator) ↔
      ∃ cluster ∈ contributions fromBytes newClusters legacyAllocations,
        cluster.operatorAddr = operator := by
  constructor
  · rintro ⟨merged, hmem, rfl⟩
    obtain ⟨cluster, rest, hfilter, -⟩ := mem_mergePortalClusters.mp hmem
    have hcluster := List.mem_filter.mp (hfilter ▸ List.mem_cons_self : cluster ∈ _)
    exact ⟨cluster, hcluster.1, of_decide_eq_true hcluster.2⟩
  · rintro ⟨cluster, hmem, hop⟩
    obtain ⟨first, rest, hfilter⟩ := exists_filter_cons hmem hop
    exact ⟨_, foldl_absorb_mem hfilter⟩

/-- A merged cluster lists the portals of its operator's contributions. -/
theorem mem_merged_portalIds {merged : PortalCluster P}
    (h : merged ∈ mergePortalClusters fromBytes newClusters legacyAllocations) (pid : P) :
    pid ∈ merged.portalIds ↔
      ∃ cluster ∈ contributions fromBytes newClusters legacyAllocations,
        cluster.operatorAddr = merged.operatorAddr ∧ pid ∈ cluster.portalIds := by
  obtain ⟨first, rest, hfilter, hmerged⟩ := mem_mergePortalClusters.mp h
  have hids := (foldl_absorb_spec first rest).2.1 pid
  rw [← hmerged, ← hfilter] at hids
  rw [hids]
  constructor
  · rintro ⟨cluster, hcluster, hpid⟩
    obtain ⟨hmem, hop⟩ := List.mem_filter.mp hcluster
    exact ⟨cluster, hmem, of_decide_eq_true hop, hpid⟩
  · rintro ⟨cluster, hmem, hop, hpid⟩
    exact ⟨cluster, List.mem_filter.mpr ⟨hmem, decide_eq_true hop⟩, hpid⟩

/-- The compute units of a merged cluster add up, as far as the number reaches. -/
theorem merged_units {merged : PortalCluster P}
    (h : merged ∈ mergePortalClusters fromBytes newClusters legacyAllocations) :
    merged.allocatedComputationUnits.toNat = min (2 ^ 256 - 1)
      (unitsOf (newClusters.filter fun cluster => cluster.operatorAddr = merged.operatorAddr) +
        (firstSurviving fromBytes newClusters legacyAllocations merged.operatorAddr).elim 0
          fun allocation => allocation.allocated.toNat) := by
  obtain ⟨first, rest, hfilter, hmerged⟩ := mem_mergePortalClusters.mp h
  have hunits := (foldl_absorb_spec first rest).2.2.2
  rw [← hmerged, ← hfilter] at hunits
  have hlegacy := unitsOf_legacyContributions ∅
    (survivors fromBytes newClusters legacyAllocations) merged.operatorAddr
  rw [if_neg (Finset.notMem_empty _), find?_survivors] at hlegacy
  rw [hunits, ← hlegacy, contributions, List.filter_append]
  simp only [unitsOf, List.map_append, List.sum_append]

/-- Merging gives one cluster for each operator that a new cluster or a surviving legacy
row names, in ascending order. It lists exactly the portals of those clusters and rows,
and its compute units are the new ones plus those of the first surviving row, whatever
the order of the new clusters. -/
theorem cluster_merge_accounting (fromBytes : List UInt8 → Option P)
    (newClusters : List (PortalCluster P)) (legacyAllocations : List Allocation) :
    (mergePortalClusters fromBytes newClusters legacyAllocations).Pairwise
      (fun a b => a.operatorAddr < b.operatorAddr) ∧
    (∀ operator, (∃ merged ∈ mergePortalClusters fromBytes newClusters legacyAllocations,
        merged.operatorAddr = operator) ↔
      (∃ cluster ∈ newClusters, cluster.operatorAddr = operator) ∨
      ∃ allocation ∈ legacyAllocations, allocation.operator = operator ∧
        ∃ peer, survivingPeer fromBytes newClusters allocation = some peer) ∧
    (∀ merged ∈ mergePortalClusters fromBytes newClusters legacyAllocations,
      (∀ pid, pid ∈ merged.portalIds ↔
        (∃ cluster ∈ newClusters,
          cluster.operatorAddr = merged.operatorAddr ∧ pid ∈ cluster.portalIds) ∨
        ∃ allocation ∈ legacyAllocations, allocation.operator = merged.operatorAddr ∧
          survivingPeer fromBytes newClusters allocation = some pid) ∧
      merged.allocatedComputationUnits.toNat = min (2 ^ 256 - 1)
        (((newClusters.filter fun cluster => cluster.operatorAddr = merged.operatorAddr).map
            fun cluster => cluster.allocatedComputationUnits.toNat).sum +
          (firstSurviving fromBytes newClusters legacyAllocations merged.operatorAddr).elim 0
            fun allocation => allocation.allocated.toNat)) ∧
    (∀ reordered, reordered.Perm newClusters →
      ∀ merged ∈ mergePortalClusters fromBytes newClusters legacyAllocations,
      ∀ merged' ∈ mergePortalClusters fromBytes reordered legacyAllocations,
        merged.operatorAddr = merged'.operatorAddr →
          merged.allocatedComputationUnits = merged'.allocatedComputationUnits) := by
  refine ⟨mergePortalClusters_ascending _ _ _, ?_, ?_, ?_⟩
  · intro operator
    rw [exists_merged_iff]
    simpa using exists_contribution_iff (q := fun _ => True)
  · intro merged hmerged
    refine ⟨?_, merged_units hmerged⟩
    intro pid
    rw [mem_merged_portalIds hmerged, exists_contribution_iff (q := fun ids => pid ∈ ids)]
    simp only [List.mem_singleton, exists_eq_right']
  · intro reordered hperm merged hmerged merged' hmerged' hop
    have hpeer : survivingPeer fromBytes reordered = survivingPeer fromBytes newClusters := by
      funext allocation
      simp only [survivingPeer, hperm.mem_iff]
    have hunits := merged_units hmerged'
    rw [← hop, firstSurviving, hpeer, ← firstSurviving, unitsOf,
      ((hperm.filter _).map _).sum_eq, ← unitsOf, ← merged_units hmerged] at hunits
    exact BitVec.eq_of_toNat_eq hunits.symm

/-! ## Repeated ids -/

/-- An operator's first contribution is its first new cluster, or a legacy row without
repetition. -/
theorem first_contribution_nodup {operator : Address} {first : PortalCluster P}
    {rest : List (PortalCluster P)}
    (hfilter : ((contributions fromBytes newClusters legacyAllocations).filter
      fun contribution => contribution.operatorAddr = operator) = first :: rest) :
    first.portalIds.Nodup ↔ ∀ cluster,
      newClusters.find? (fun cluster => cluster.operatorAddr = operator) = some cluster →
        cluster.portalIds.Nodup := by
  have hhead : (contributions fromBytes newClusters legacyAllocations).find?
      (fun contribution => contribution.operatorAddr = operator) = some first := by
    rw [← List.head?_filter, hfilter, List.head?_cons]
  rw [contributions, List.find?_append] at hhead
  cases hnew : newClusters.find? fun cluster => cluster.operatorAddr = operator with
  | none =>
    rw [hnew, Option.none_or] at hhead
    obtain ⟨row, -, -, hids⟩ := (exists_legacyContribution_iff (q := (first.portalIds = ·))).mp
      ⟨first, List.mem_of_find?_eq_some hhead, rfl, rfl⟩
    constructor
    · intro _ cluster hcluster
      cases hcluster
    · intro _
      rw [hids]
      exact List.nodup_singleton row.2
  | some cluster =>
    rw [hnew, Option.some_or] at hhead
    obtain rfl := Option.some.inj hhead
    constructor
    · intro hnodup cluster hcluster
      exact Option.some.inj hcluster ▸ hnodup
    · intro hnodup
      exact hnodup cluster rfl

/-- No merged cluster repeats an id exactly if no operator's first new cluster does. -/
theorem merged_portal_ids_nodup_iff (fromBytes : List UInt8 → Option P)
    (newClusters : List (PortalCluster P)) (legacyAllocations : List Allocation) :
    (∀ merged ∈ mergePortalClusters fromBytes newClusters legacyAllocations,
      merged.portalIds.Nodup) ↔
      ∀ operator cluster,
        newClusters.find? (fun cluster => cluster.operatorAddr = operator) = some cluster →
          cluster.portalIds.Nodup := by
  constructor
  · intro hnodup operator cluster hfind
    have hmem : cluster ∈ contributions fromBytes newClusters legacyAllocations :=
      List.mem_append_left _ (List.mem_of_find?_eq_some hfind)
    have hop : cluster.operatorAddr = operator := by
      have hfound := List.find?_some hfind
      exact of_decide_eq_true hfound
    obtain ⟨first, rest, hfilter⟩ := exists_filter_cons hmem hop
    have htotal := hnodup _ (foldl_absorb_mem hfilter).1
    rw [(foldl_absorb_spec first rest).2.2.1, first_contribution_nodup hfilter] at htotal
    exact htotal cluster hfind
  · intro hfirst merged hmerged
    obtain ⟨first, rest, hfilter, hmerged⟩ := mem_mergePortalClusters.mp hmerged
    rw [hmerged, (foldl_absorb_spec first rest).2.2.1, first_contribution_nodup hfilter]
    exact hfirst merged.operatorAddr

/-- A cluster that lists a portal twice is returned as it is. -/
theorem merged_portal_ids_repeated :
    ∃ merged ∈ mergePortalClusters (fun _ => none) [⟨1, [7, 7], 5⟩] [],
      ¬ (merged.portalIds : List Nat).Nodup := by
  refine ⟨⟨1, [7, 7], 5⟩, ?_, ?_⟩
  · decide +kernel
  · decide

end SqdNetwork.Contracts
