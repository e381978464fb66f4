import SqdNetwork.Contracts.Merge
import SqdNetwork.Core.Outcome
import SqdNetwork.Transport.RegisteredWorkers

/-!
# A new worker and the nodes that know it

A worker asks the chain for its registration until there is one, and then waits until the
registration is as old as the time between two requests of a node for the registered nodes.
Nodes drop connections to peers they do not know, so a worker that started earlier would be
turned away. Here one node and one starting worker share a clock, and everything else may
happen in any order.
-/

namespace SqdNetwork.Transport

open SqdNetwork.Core SqdNetwork.Contracts

/-- A time in seconds on the clock, which counts nanoseconds. -/
def nanos (secs : Nat) : Nat := secs * 10 ^ 9

/-- What the contracts and the chain answer about a worker. -/
structure RegistrationView where
  workerId : U256
  registeredAt : Nat
  blockTimestamp : Nat → Option Nat

/-- When the worker was registered; a block that is still to come is no registration. -/
def workerRegistrationTime (view : RegistrationView) : Exec (Option Nat) :=
  if view.workerId = 0 then .ok none
  else if view.registeredAt < 2 ^ 64 then
    match view.blockTimestamp view.registeredAt with
    | none => .ok none
    | some timestamp =>
      if timestamp < 2 ^ 64 then .ok (some (nanos timestamp))
      else .error (.expectFailed "Integer overflow when casting to u64")
  else .error (.expectFailed "Block number should not exceed u64 range")

/-- How far a worker is with its start. -/
inductive WorkerStart (E : Type) where
  /-- The chain was asked for the registration. -/
  | asking
  /-- The worker is not registered and asks again later. -/
  | unregistered (wake : Nat)
  /-- The worker is registered and waits for the others. -/
  | catchingUp (wake : Nat)
  | built (startedAt : Nat)
  | failed (error : E)
  | crashed (panic : Panic)

namespace WorkerStart

variable {E : Type}

/-- The answer about the registration. -/
def answered (onchainUpdateInterval now : Nat) : Except E RegistrationView → WorkerStart E
  | .error e => .failed e
  | .ok view =>
    match workerRegistrationTime view with
    | .error panic => .crashed panic
    | .ok none => .unregistered (now + nanos 60)
    | .ok (some regTime) =>
      -- a registration in the future counts as one of this moment
      let elapsed := now - regTime
      if elapsed < onchainUpdateInterval then
        .catchingUp (now + (onchainUpdateInterval - elapsed))
      else .built now

/-- The timer runs; a sleep is never shorter than asked for. -/
def woken (now : Nat) : WorkerStart E → WorkerStart E
  | .unregistered wake => if wake ≤ now then .asking else .unregistered wake
  | .catchingUp wake => if wake ≤ now then .built now else .catchingUp wake
  | state => state

/-- The worker does not start before a time. -/
def NotBefore (time : Nat) : WorkerStart E → Prop
  | .catchingUp wake => time ≤ wake
  | .built startedAt => time ≤ startedAt
  | _ => True

end WorkerStart

/-- A starting worker and a node, with the times at which the node asked for the nodes that it
waits for and for those that it retrieved last. -/
structure Joining (P Addr E : Type) where
  clock : Nat
  worker : WorkerStart E
  node : NodesRun P Addr
  fetching : Option Nat
  retrievedAt : Option Nat

/-- What can happen next. -/
inductive JoiningEvent (P Addr E : Type) where
  | elapse (time : Nat)
  | answer (result : Except E RegistrationView)
  | woken
  /-- The node asks for the registered nodes. -/
  | fetch
  | node (event : BaseEvent P Addr E)

namespace Joining

variable {P Addr E : Type} [DecidableEq P] [DecidableEq Addr]

/-- The node runs and the worker has just asked. -/
def start (config : BaseConfig) (bootNodes : List P) (maintain : Bool) : Joining P Addr E :=
  ⟨0, .asking, .start config bootNodes maintain, none, none⟩

/-- One event of the node; nodes that arrive were asked for before. -/
def stepNode (rules : AddressRules P Addr) (s : Joining P Addr E) (event : BaseEvent P Addr E) :
    Joining P Addr E :=
  let s := { s with node := s.node.step rules event }
  match event with
  | .nodes (.ok _) => { s with fetching := none, retrievedAt := s.fetching }
  | .nodes (.error _) => { s with fetching := none }
  | _ => s

def step (rules : AddressRules P Addr) (onchainUpdateInterval : Nat) (s : Joining P Addr E) :
    JoiningEvent P Addr E → Joining P Addr E
  | .elapse time => { s with clock := s.clock + time }
  | .answer result =>
    match s.worker with
    | .asking => { s with worker := .answered onchainUpdateInterval s.clock result }
    | _ => s
  | .woken => { s with worker := s.worker.woken s.clock }
  | .fetch => { s with fetching := some s.clock }
  | .node event => s.stepNode rules event

/-- The answers are those of a chain that lists the worker from a time on: a registration is not
reported earlier or for an earlier time, and nodes that are asked for later include the worker. -/
def Truthful (peer : P) (since : Nat) (s : Joining P Addr E) : JoiningEvent P Addr E → Prop
  | .answer (.ok view) =>
    ∀ regTime, workerRegistrationTime view = .ok (some regTime) →
      since ≤ s.clock ∧ since ≤ regTime
  | .node (.nodes (.ok nodes)) => ∀ asked, s.fetching = some asked → since ≤ asked →
      peer ∈ nodes.all
  | _ => True

end Joining

/-! ## Registered nodes are allowed -/

/-- All registered nodes are allowed. -/
def WhitelistBehavior.Covers {P : Type} (w : WhitelistBehavior P) : Prop :=
  w.registeredNodes ⊆ w.allow

namespace WhitelistBehavior.Covers

variable {P E : Type} [DecidableEq P] {w : WhitelistBehavior P}

theorem allowPeer (h : w.Covers) (peer : P) : (w.allowPeer peer).Covers :=
  h.trans (Finset.subset_insert peer w.allow)

theorem onNodesUpdate (h : w.Covers) (result : Except E (NetworkNodes P)) :
    (w.onNodesUpdate result).1.Covers := by
  cases result with
  | error e => exact h
  | ok nodes =>
    unfold WhitelistBehavior.onNodesUpdate
    dsimp only
    split
    · exact h
    · intro peer hpeer
      simp only [Finset.mem_union, Finset.mem_sdiff]
      by_cases hknown : peer ∈ w.registeredNodes
      · exact .inl ⟨h hknown, fun hgone => hgone.2 hpeer⟩
      · exact .inr ⟨hpeer, hknown⟩

theorem foldl_allowPeer (peers : List P) (h : w.Covers) :
    (peers.foldl WhitelistBehavior.allowPeer w).Covers := by
  induction peers generalizing w with
  | nil => exact h
  | cons peer peers ih => exact ih (h.allowPeer peer)

end WhitelistBehavior.Covers

namespace BaseBehaviour

variable {P Addr E : Type} [DecidableEq P] {b : BaseBehaviour P Addr}

omit [DecidableEq P] in
theorem whitelist_of_surroundings {b' : BaseBehaviour P Addr}
    (h : b'.surroundings = b.surroundings) : b'.whitelist = b.whitelist :=
  congrArg (fun s : WhitelistBehavior P × Finset P × Bool × (P → Option UInt32) => s.1) h

theorem whitelist_onNodesUpdate (b : BaseBehaviour P Addr) (nodes : RetrievedNodes P) :
    (b.onNodesUpdate nodes).whitelist = b.whitelist := by
  unfold onNodesUpdate
  dsimp only
  split
  · exact (whitelist_of_surroundings (surroundings_foldl_sweep _ _)).trans rfl
  · rfl

/-- The node has the allow list's own view of retrieved nodes. -/
theorem whitelist_onWhitelistUpdate (b : BaseBehaviour P Addr)
    (result : Except E (RetrievedNodes P)) : (b.onWhitelistUpdate result).whitelist =
      (b.whitelist.onNodesUpdate (result.map RetrievedNodes.toNetworkNodes)).1 := by
  unfold onWhitelistUpdate
  dsimp only
  split
  · exact whitelist_onNodesUpdate _ _
  · rfl

/-- No event makes a registered node unwelcome. -/
theorem covers_handle [DecidableEq Addr] (h : b.whitelist.Covers) (rules : AddressRules P Addr)
    (event : BaseEvent P Addr E) : (b.handle rules event).1.whitelist.Covers := by
  cases event with
  | nodes result =>
    change (b.onWhitelistUpdate result).whitelist.Covers
    rw [whitelist_onWhitelistUpdate]
    exact h.onNodesUpdate _
  | allowPeer peer => exact h.allowPeer peer
  | kademlia event =>
    exact (whitelist_of_surroundings (surroundings_onKademliaEvent b rules event)).symm ▸ h
  | connectionEstablished peer endpoint => cases endpoint <;> exact h
  | connectionClosed peer endpoint =>
    cases endpoint with
    | dialer address =>
      exact (whitelist_of_surroundings (surroundings_scheduleReconnect _ peer)).symm ▸ h
    | listener => exact h
  | dialFailure peer error =>
    exact (whitelist_of_surroundings (surroundings_onDialFailure b peer error)).symm ▸ h
  | poll => exact (whitelist_of_surroundings (surroundings_poll b)).symm ▸ h
  | identifyReceived _ _ | queryStarted | newExternalAddrOfPeer _ _
  | pendingOutboundConnection _ | cooldownExpires _ => exact h

end BaseBehaviour

/-! ## When the worker starts -/

namespace WorkerStart

variable {E : Type} {since interval now : Nat}

/-- Whatever the clocks say of a registration, a whole interval passes after it. -/
theorem NotBefore.answered {result : Except E RegistrationView}
    (htrue : ∀ view, result = .ok view → ∀ regTime,
      workerRegistrationTime view = .ok (some regTime) → since ≤ now ∧ since ≤ regTime) :
    NotBefore (since + interval) (WorkerStart.answered interval now result) := by
  cases result with
  | error e => trivial
  | ok view =>
    cases hview : workerRegistrationTime view with
    | error panic =>
      simp only [WorkerStart.answered, hview]
      trivial
    | ok reported =>
      cases reported with
      | none =>
        simp only [WorkerStart.answered, hview]
        trivial
      | some regTime =>
        obtain ⟨hnow, hreg⟩ := htrue view rfl regTime hview
        simp only [WorkerStart.answered, hview]
        split
        · change since + interval ≤ now + (interval - (now - regTime))
          omega
        · change since + interval ≤ now
          omega

theorem NotBefore.woken {time : Nat} {state : WorkerStart E} (h : NotBefore time state) :
    NotBefore time (state.woken now) := by
  cases state with
  | unregistered wake =>
    simp only [WorkerStart.woken]
    split <;> trivial
  | catchingUp wake =>
    simp only [WorkerStart.woken]
    split
    · next hwake => exact Nat.le_trans h hwake
    · exact h
  | asking | built _ | failed _ | crashed _ => exact h

end WorkerStart

namespace Joining

variable {P Addr E : Type} [DecidableEq P] [DecidableEq Addr] {peer : P} {since interval : Nat}
  {s : Joining P Addr E} {rules : AddressRules P Addr}

/-- The worker starts a whole interval after it is listed, and the node allows whom it retrieved,
which includes the worker once it asked late enough. -/
structure Sound (peer : P) (since interval : Nat) (s : Joining P Addr E) : Prop where
  notBefore : s.worker.NotBefore (since + interval)
  listed : ∀ asked, s.retrievedAt = some asked → since ≤ asked → peer ∈ s.node.retrieved.all
  whitelisted : s.node.Whitelisted
  covers : s.node.base.whitelist.Covers

omit [DecidableEq Addr] in
theorem sound_start (config : BaseConfig) (bootNodes : List P) (maintain : Bool) :
    (start config bootNodes maintain : Joining P Addr E).Sound peer since interval := by
  have hcovers := WhitelistBehavior.Covers.foldl_allowPeer bootNodes
    (w := .new) (Finset.Subset.refl ∅)
  refine ⟨trivial, fun _ h => absurd h (by simp [start]), ?_, ?_⟩
  · cases maintain <;> exact WhitelistBehavior.registeredNodes_foldl_allowPeer bootNodes .new
  · cases maintain <;> exact hcovers

namespace Sound

theorem stepNode (h : s.Sound peer since interval) {event : BaseEvent P Addr E}
    (htrue : s.Truthful peer since (.node event)) :
    (s.stepNode rules event).Sound peer since interval := by
  have hwhitelisted : (s.node.step rules event).Whitelisted :=
    NodesRun.whitelisted_step h.whitelisted event
  have hcovers := BaseBehaviour.covers_handle h.covers rules event
  by_cases hevent : ∃ nodes, event = .nodes (.ok nodes)
  · obtain ⟨nodes, rfl⟩ := hevent
    exact ⟨h.notBefore, htrue, hwhitelisted, hcovers⟩
  · have hretrieved := (NodesRun.step_other rules s.node hevent).2
    unfold Joining.stepNode
    dsimp only
    split
    · next nodes => exact absurd ⟨nodes, rfl⟩ hevent
    · exact ⟨h.notBefore, hretrieved.symm ▸ h.listed, hwhitelisted, hcovers⟩
    · exact ⟨h.notBefore, hretrieved.symm ▸ h.listed, hwhitelisted, hcovers⟩

theorem step (event : JoiningEvent P Addr E) (htrue : s.Truthful peer since event)
    (h : s.Sound peer since interval) :
    (s.step rules interval event).Sound peer since interval := by
  cases event with
  | elapse time => exact ⟨h.notBefore, h.listed, h.whitelisted, h.covers⟩
  | answer result =>
    unfold Joining.step
    dsimp only
    split
    · refine ⟨.answered ?_, h.listed, h.whitelisted, h.covers⟩
      rintro view rfl
      exact htrue
    · exact h
  | woken => exact ⟨h.notBefore.woken, h.listed, h.whitelisted, h.covers⟩
  | fetch => exact ⟨h.notBefore, h.listed, h.whitelisted, h.covers⟩
  | node event => exact h.stepNode htrue

end Sound

/-- However the start of a worker and the events of a node interleave, a worker that has started
is allowed by the node, if the nodes that the node retrieved last were asked for no longer than
one interval before the start. -/
theorem started_worker_is_allowed (rules : AddressRules P Addr) (config : BaseConfig)
    (bootNodes : List P) (maintain : Bool) (interval : Nat) (peer : P) (since : Nat)
    (events : List (JoiningEvent P Addr E))
    (htrue : EveryStep (step rules interval) (Truthful peer since)
      (start config bootNodes maintain) events) (startedAt asked : Nat)
    (hstarted : (events.foldl (step rules interval) (start config bootNodes maintain)).worker =
      .built startedAt)
    (hasked : (events.foldl (step rules interval) (start config bootNodes maintain)).retrievedAt =
      some asked) (hrecent : startedAt ≤ asked + interval) :
    peer ∈ (events.foldl (step rules interval)
      (start config bootNodes maintain)).node.base.whitelist.allow := by
  have hsound := (throughout_of_everyStep (I := fun s => s.Sound peer since interval)
    (fun _ event htrue h => h.step event htrue) htrue
    (sound_start config bootNodes maintain)).last
  have hstart := hsound.notBefore
  rw [hstarted] at hstart
  have hlate : since ≤ asked := by
    change since + interval ≤ startedAt at hstart
    omega
  have hretrieved := hsound.listed asked hasked hlate
  rw [← hsound.whitelisted] at hretrieved
  exact hsound.covers hretrieved

/-- A worker of the first block asks at 30 and starts at 60, and the node asks at 30. -/
def sampleJoining : List (JoiningEvent Nat Nat Unit) :=
  [.elapse 30, .answer (.ok ⟨1, 5, fun _ => some 0⟩), .fetch,
    .node (.nodes (.ok (.single ∅ 7))), .elapse 30, .woken]

theorem started_worker_is_allowed_sample :
    7 ∈ (sampleJoining.foldl (step (AddressRules.plain Nat Nat) 60)
      (start ⟨20, 16, by decide⟩ [] false)).node.base.whitelist.allow := by
  refine started_worker_is_allowed _ _ _ _ _ 7 0 sampleJoining ?_ 60 30 rfl rfl (by decide)
  refine ⟨trivial, fun _ _ => ⟨Nat.zero_le _, Nat.zero_le _⟩, trivial, fun _ _ _ => ?_, trivial,
    trivial, trivial⟩
  decide

end Joining

end SqdNetwork.Transport
