import SqdNetwork.Transport.Bookkeeping

/-!
# The registered workers a node knows

The allow list passes a retrieved node set on only when the union of portals and
workers changed, while the node keeps the workers alone. What it keeps is current
exactly as long as the union tells retrieved sets with different workers apart.
-/

namespace SqdNetwork.Transport

open SqdNetwork.Core

namespace BaseBehaviour

variable {P Addr E : Type} [DecidableEq P] {b : BaseBehaviour P Addr}

/-- The node set as the allow list knows it and the workers as the node knows them. -/
def registry (b : BaseBehaviour P Addr) := (b.whitelist.registeredNodes, b.registeredWorkers)

omit [DecidableEq P] in
theorem registry_of_surroundings {b' : BaseBehaviour P Addr}
    (h : b'.surroundings = b.surroundings) : b'.registry = b.registry :=
  congrArg (fun s : WhitelistBehavior P × Finset P × Bool × (P → Option UInt32) =>
    (s.1.registeredNodes, s.2.1)) h

/-- A retrieved node set is adopted when its union is new, and otherwise ignored. -/
theorem registry_onWhitelistUpdate (b : BaseBehaviour P Addr) (nodes : RetrievedNodes P) :
    (b.onWhitelistUpdate (.ok nodes : Except E _)).registry =
      if nodes.all = b.whitelist.registeredNodes then b.registry
      else (nodes.all, nodes.workers) := by
  split
  · next hsame => rw [onWhitelistUpdate_same hsame]
  · next hchanged =>
    obtain ⟨allow, he⟩ := onWhitelistUpdate_changed (E := E) hchanged
    rw [he, onNodesUpdate]
    dsimp only
    split
    · exact registry_of_surroundings (surroundings_foldl_sweep _ _)
    · rfl

theorem registry_connectionClosed (b : BaseBehaviour P Addr) (peer : P)
    (endpoint : ConnectedPoint Addr) :
    (b.onConnectionClosed peer endpoint).registry = b.registry := by
  cases endpoint with
  | dialer address =>
    exact (registry_of_surroundings (surroundings_scheduleReconnect _ peer)).trans rfl
  | listener => rfl

/-- Only a retrieved node set changes what is known of the nodes. -/
theorem registry_handle [DecidableEq Addr] (rules : AddressRules P Addr)
    (event : BaseEvent P Addr E) (hevent : ∀ nodes, event ≠ .nodes (.ok nodes)) :
    (b.handle rules event).1.registry = b.registry := by
  cases event with
  | nodes result =>
    cases result with
    | error e => rfl
    | ok nodes => exact absurd rfl (hevent nodes)
  | kademlia event => exact registry_of_surroundings (surroundings_onKademliaEvent b rules event)
  | connectionEstablished peer endpoint => cases endpoint <;> rfl
  | connectionClosed peer endpoint => exact registry_connectionClosed b peer endpoint
  | dialFailure peer error =>
    exact registry_of_surroundings (surroundings_onDialFailure b peer error)
  | poll => exact registry_of_surroundings (surroundings_poll b)
  | allowPeer _ | identifyReceived _ _ | queryStarted | newExternalAddrOfPeer _ _
  | pendingOutboundConnection _ | cooldownExpires _ => rfl

end BaseBehaviour

/-- The behaviour beside the nodes that were retrieved last. -/
structure NodesRun (P Addr : Type) where
  base : BaseBehaviour P Addr
  retrieved : NetworkNodes P

namespace NodesRun

variable {P Addr E : Type} [DecidableEq P] [DecidableEq Addr] {rules : AddressRules P Addr}

/-- At startup no nodes have been retrieved. -/
def start (config : BaseConfig) (bootNodes : List P) (maintain : Bool) : NodesRun P Addr :=
  ⟨.start config bootNodes maintain, ⟨∅, ∅⟩⟩

def step (rules : AddressRules P Addr) (r : NodesRun P Addr) (event : BaseEvent P Addr E) :
    NodesRun P Addr where
  base := (r.base.handle rules event).1
  retrieved := match event with
    | .nodes (.ok nodes) => nodes.toNetworkNodes
    | _ => r.retrieved

/-- The node knows the workers that were retrieved last. -/
def Current (r : NodesRun P Addr) : Prop := r.base.registeredWorkers = r.retrieved.workers

/-- Retrieved nodes with the same union as the last ones also have the same workers. -/
def TellsWorkersApart (r : NodesRun P Addr) : BaseEvent P Addr E → Prop
  | .nodes (.ok nodes) => nodes.all = r.retrieved.all → nodes.workers = r.retrieved.workers
  | _ => True

/-- The allow list knows the nodes retrieved last. -/
def Whitelisted (r : NodesRun P Addr) : Prop :=
  r.base.whitelist.registeredNodes = r.retrieved.all

/-- Other events leave alone what the two properties compare. -/
theorem step_other (rules : AddressRules P Addr) (r : NodesRun P Addr) {event : BaseEvent P Addr E}
    (hevent : ¬ ∃ nodes, event = .nodes (.ok nodes)) :
    (r.step rules event).base.registry = r.base.registry ∧
      (r.step rules event).retrieved = r.retrieved := by
  refine ⟨r.base.registry_handle rules event (not_exists.mp hevent), ?_⟩
  unfold step
  dsimp only
  split
  · next nodes => exact absurd ⟨nodes, rfl⟩ hevent
  · rfl

theorem whitelisted_step {r : NodesRun P Addr} (h : r.Whitelisted) (event : BaseEvent P Addr E) :
    (r.step rules event).Whitelisted := by
  by_cases hevent : ∃ nodes, event = .nodes (.ok nodes)
  · obtain ⟨nodes, rfl⟩ := hevent
    refine (congrArg Prod.fst (r.base.registry_onWhitelistUpdate (E := E) nodes)).trans ?_
    split
    · next hsame => exact hsame.symm
    · rfl
  · obtain ⟨hregistry, hretrieved⟩ := step_other rules r hevent
    rw [Whitelisted, hretrieved]
    exact (congrArg Prod.fst hregistry).trans h

/-- A node that knows the current workers keeps knowing them exactly if the union tells the
workers apart. -/
theorem current_step_iff {r : NodesRun P Addr} (hwhitelisted : r.Whitelisted) (h : r.Current)
    (event : BaseEvent P Addr E) : (r.step rules event).Current ↔ r.TellsWorkersApart event := by
  by_cases hevent : ∃ nodes, event = .nodes (.ok nodes)
  · obtain ⟨nodes, rfl⟩ := hevent
    have hworkers := congrArg Prod.snd (r.base.registry_onWhitelistUpdate (E := E) nodes)
    have hstep : (r.step rules (.nodes (.ok nodes) : BaseEvent P Addr E)).Current ↔
        (r.base.onWhitelistUpdate (.ok nodes : Except E _)).registry.2 = nodes.workers := Iff.rfl
    rw [hstep, hworkers, TellsWorkersApart, ← hwhitelisted]
    split
    · next hsame =>
      have hbase : r.base.registry.2 = r.retrieved.workers := h
      rw [hbase]
      exact ⟨fun he _ => he.symm, fun himp => (himp hsame).symm⟩
    · next hchanged => exact iff_of_true rfl fun hsame => absurd hsame hchanged
  · obtain ⟨hregistry, hretrieved⟩ := step_other rules r hevent
    refine iff_of_true ?_ ?_
    · rw [Current, hretrieved]
      exact (congrArg Prod.snd hregistry).trans h
    · unfold TellsWorkersApart
      split
      · next nodes => exact absurd ⟨nodes, rfl⟩ hevent
      · trivial

end NodesRun

/-- Throughout a run the node knows exactly the workers retrieved last, if and only if no two
consecutive retrieved node sets have the same union but different workers. -/
theorem registered_workers_current_iff {P Addr E : Type} [DecidableEq P] [DecidableEq Addr]
    (rules : AddressRules P Addr) (config : BaseConfig) (bootNodes : List P) (maintain : Bool)
    (events : List (BaseEvent P Addr E)) :
    Throughout (NodesRun.step rules) NodesRun.Current
        (NodesRun.start config bootNodes maintain : NodesRun P Addr) events ↔
      EveryStep (NodesRun.step rules) NodesRun.TellsWorkersApart
        (NodesRun.start config bootNodes maintain) events := by
  refine throughout_iff_everyStep (fun _ event h => NodesRun.whitelisted_step h event)
    (fun _ event hwhitelisted h => NodesRun.current_step_iff hwhitelisted h event) events ?_ ?_
  · cases maintain <;> exact WhitelistBehavior.registeredNodes_foldl_allowPeer bootNodes .new
  · cases maintain <;> rfl

/-- A worker and a portal that trade places go unnoticed. -/
theorem registered_workers_miss_a_swap :
    ¬ Throughout (NodesRun.step (AddressRules.plain Nat Nat)) NodesRun.Current
      (NodesRun.start ⟨20, 16, by decide⟩ [] true)
      ([.nodes (.ok (.single {1} 2)), .nodes (.ok (.single {2} 1))] :
        List (BaseEvent Nat Nat Unit)) := by
  simp only [Throughout, NodesRun.Current]
  decide

end SqdNetwork.Transport
