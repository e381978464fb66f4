import SqdNetwork.Core.BiMap
import SqdNetwork.Transport.AddressCache
import SqdNetwork.Transport.NodeWhitelist

/-!
# The base behaviour of a node

A node that maintains its connections dials every registered worker it has no
outbound connection to: by a cached address, or after a DHT lookup. A worker
waits in `pending_lookups` for its turn, or first in `reconnect_queue` for a
cooldown. One event is handled at a time.
-/

namespace SqdNetwork.Transport

open SqdNetwork.Core

/-- A Kademlia query. -/
abbrev QueryId := Nat

/-- A request to dial a peer. -/
structure DialOpts (P : Type) where
  peer : P
  condition : PeerCondition := .disconnectedAndNotDialing
  deriving DecidableEq

/-- How a connection came about. -/
inductive ConnectedPoint (Addr : Type) where
  | dialer (address : Addr)
  | listener

/-- Retrieved nodes, with the order in which the set of workers happens to be iterated. -/
structure RetrievedNodes (P : Type) extends NetworkNodes P where
  order : List P
  nodup : order.Nodup
  mem_order : ∀ p, p ∈ order ↔ p ∈ workers

/-- Retrieved nodes with one worker. -/
def RetrievedNodes.single {P : Type} (portals : Finset P) (worker : P) : RetrievedNodes P where
  portals := portals
  workers := {worker}
  order := [worker]
  nodup := List.nodup_singleton worker
  mem_order := fun p => by rw [List.mem_singleton, Finset.mem_singleton]

/-- A peer found by a DHT lookup. -/
structure PeerInfo (P Addr : Type) where
  peer : P
  addrs : List Addr

/-- Kademlia events; those the node does not act on are one case. -/
inductive KadEvent (P Addr : Type) where
  /-- Progress of a lookup, successful or timed out. -/
  | closestPeers (query : QueryId) (peers : List (PeerInfo P Addr)) (last : Bool)
  | routablePeer (peer : P) (address : Addr)
  | pendingRoutablePeer (peer : P) (address : Addr)
  | routingUpdated (peer : P) (addresses : List Addr)
  | other

/-- Peers waiting for a deadline, and those whose deadline has passed. -/
structure DelayQueue (P : Type) where
  waiting : List P
  expired : List P

namespace DelayQueue

variable {P : Type} [DecidableEq P]

/-- All peers in the queue. -/
def peers (q : DelayQueue P) : List P := q.waiting ++ q.expired

/-- Add a peer. -/
def insert (q : DelayQueue P) (p : P) : DelayQueue P := { q with waiting := q.waiting ++ [p] }

/-- The deadline of a waiting peer passes. -/
def expire (q : DelayQueue P) (p : P) : DelayQueue P :=
  if p ∈ q.waiting then ⟨q.waiting.erase p, q.expired ++ [p]⟩ else q

end DelayQueue

/-- The configuration the model depends on. -/
structure BaseConfig where
  maxConcurrentLookups : Nat
  addrCacheSize : Nat
  addrCacheSize_pos : 0 < addrCacheSize

/-- The state of the behaviour, with what it uses of the behaviours inside it. -/
structure BaseBehaviour (P Addr : Type) where
  whitelist : WhitelistBehavior P
  addressCache : AddressCache P Addr
  /-- The id of the next Kademlia query; ids are never reused. -/
  nextQuery : QueryId
  pendingEvents : List (DialOpts P)
  ongoingLookups : BiMap P QueryId
  outboundConns : P → Option UInt32
  registeredWorkers : Finset P
  maintainWorkerConnections : Bool
  pendingLookups : List P
  maxConcurrentLookups : Nat
  reconnectQueue : DelayQueue P
  reconnectScheduled : Finset P

/-- What the behaviour is told: by the behaviours inside it, by its timers and by the swarm. -/
inductive BaseEvent (P Addr E : Type) where
  /-- The node set was retrieved, or could not be. -/
  | nodes (result : Except E (RetrievedNodes P))
  | allowPeer (peer : P)
  | identifyReceived (peer : P) (listenAddrs : List Addr)
  | kademlia (event : KadEvent P Addr)
  /-- Kademlia starts a query of its own or for another caller. -/
  | queryStarted
  | newExternalAddrOfPeer (peer : P) (address : Addr)
  /-- The swarm asks for the addresses of a peer. -/
  | pendingOutboundConnection (peer : Option P)
  /-- The cooldown of a peer ends. -/
  | cooldownExpires (peer : P)
  | connectionEstablished (peer : P) (endpoint : ConnectedPoint Addr)
  | connectionClosed (peer : P) (endpoint : ConnectedPoint Addr)
  | dialFailure (peer : Option P) (error : DialError)
  | poll

namespace BaseBehaviour

variable {P Addr E : Type} [DecidableEq P]

/-- The behaviour at startup; boot nodes are allowed. -/
def new (config : BaseConfig) (bootNodes : List P) : BaseBehaviour P Addr where
  whitelist := bootNodes.foldl WhitelistBehavior.allowPeer .new
  addressCache := .new config.addrCacheSize
  nextQuery := 0
  pendingEvents := []
  ongoingLookups := .empty
  outboundConns := fun _ => none
  registeredWorkers := ∅
  maintainWorkerConnections := false
  pendingLookups := []
  maxConcurrentLookups := config.maxConcurrentLookups
  reconnectQueue := ⟨[], []⟩
  reconnectScheduled := ∅

/-- Keep a connection to every registered worker from now on. -/
def setMaintainWorkerConnections (b : BaseBehaviour P Addr) : BaseBehaviour P Addr :=
  { b with maintainWorkerConnections := true }

def outboundConnExists (b : BaseBehaviour P Addr) (peer : P) : Bool :=
  (b.outboundConns peer).any (0 < ·)

/-- Dial a peer by a cached address, or look it up unless that is already happening. -/
def findAndDial (b : BaseBehaviour P Addr) (peer : P) : BaseBehaviour P Addr :=
  if b.addressCache.contains peer then
    { b with pendingEvents := b.pendingEvents ++ [{ peer := peer }] }
  else if b.ongoingLookups.containsLeft peer then b
  else
    { b with
      nextQuery := b.nextQuery + 1
      ongoingLookups := b.ongoingLookups.insert peer b.nextQuery }

/-- Take the first expired peer out of the queue. -/
def takeExpired (b : BaseBehaviour P Addr) (peer : P) (rest : List P) : BaseBehaviour P Addr :=
  let b := { b with reconnectQueue := { b.reconnectQueue with expired := rest } }
  if ¬ b.outboundConnExists peer ∧ peer ∈ b.registeredWorkers then
    { b with pendingLookups := b.pendingLookups ++ [peer] }
  else { b with reconnectScheduled := b.reconnectScheduled.erase peer }

/-- Empty the queue of expired peers. -/
def drainExpired (b : BaseBehaviour P Addr) : List P → BaseBehaviour P Addr
  | [] => b
  | peer :: rest => (b.takeExpired peer rest).drainExpired rest

/-- Take the first peer out of the pending lookups. -/
def popPending (b : BaseBehaviour P Addr) (peer : P) (rest : List P) : BaseBehaviour P Addr :=
  { b with
    pendingLookups := rest
    reconnectScheduled := b.reconnectScheduled.erase peer }

/-- Look up or dial the first pending peer, unless it got connected meanwhile. -/
def takeLookup (b : BaseBehaviour P Addr) (peer : P) (rest : List P) : BaseBehaviour P Addr :=
  if ¬ b.outboundConnExists peer then (b.popPending peer rest).findAndDial peer
  else b.popPending peer rest

/-- Start pending lookups as long as the number of ongoing ones allows. -/
def startLookups (b : BaseBehaviour P Addr) : List P → BaseBehaviour P Addr
  | [] => b
  | peer :: rest =>
    if b.ongoingLookups.length < b.maxConcurrentLookups then
      (b.takeLookup peer rest).startLookups rest
    else b

/-- Move waiting peers on and emit the next event. -/
def poll (b : BaseBehaviour P Addr) : BaseBehaviour P Addr × Option (DialOpts P) :=
  let b := b.drainExpired b.reconnectQueue.expired
  let b := b.startLookups b.pendingLookups
  match b.pendingEvents with
  | [] => (b, none)
  | ev :: rest => ({ b with pendingEvents := rest }, some ev)

/-- Reconnect to a registered worker after a cooldown, once per peer at a time. -/
def scheduleReconnect (b : BaseBehaviour P Addr) (peer : P) : BaseBehaviour P Addr :=
  if b.maintainWorkerConnections ∧ peer ∈ b.registeredWorkers ∧ ¬ b.outboundConnExists peer ∧
      peer ∉ b.reconnectScheduled then
    { b with
      reconnectScheduled := insert peer b.reconnectScheduled
      reconnectQueue := b.reconnectQueue.insert peer }
  else b

/-- Count an outbound connection, caching the address it was made on. -/
def onConnectionEstablished [DecidableEq Addr] (rules : AddressRules P Addr)
    (b : BaseBehaviour P Addr) (peer : P) : ConnectedPoint Addr → BaseBehaviour P Addr
  | .dialer address =>
    { b with
      addressCache := b.addressCache.put rules peer [address]
      outboundConns :=
        Function.update b.outboundConns peer (some ((b.outboundConns peer).getD 0 + 1)) }
  | .listener => b

/-- One outbound connection fewer, if any was counted. -/
def uncount (b : BaseBehaviour P Addr) (peer : P) : BaseBehaviour P Addr :=
  { b with
    outboundConns := Function.update b.outboundConns peer ((b.outboundConns peer).map (· - 1)) }

/-- Uncount an outbound connection and reconnect; the end of an inbound one is ignored. -/
def onConnectionClosed (b : BaseBehaviour P Addr) (peer : P) :
    ConnectedPoint Addr → BaseBehaviour P Addr
  | .dialer _ => (b.uncount peer).scheduleReconnect peer
  | .listener => b

/-- Retry a peer that could not be reached; the cache has dropped its addresses by then. -/
def onDialFailure (b : BaseBehaviour P Addr) (peer : Option P) (error : DialError) :
    BaseBehaviour P Addr :=
  let b := { b with addressCache := b.addressCache.onDialFailure peer error }
  match peer with
  | none => b
  | some peer => if error.unreachable then b.scheduleReconnect peer else b

/-- Cache what a peer announces. -/
def onIdentifyEvent [DecidableEq Addr] (rules : AddressRules P Addr) (b : BaseBehaviour P Addr)
    (peer : P) (listenAddrs : List Addr) : BaseBehaviour P Addr :=
  { b with
    addressCache := b.addressCache.put rules peer (listenAddrs.filter rules.addrIsReachable) }

/-- Cache what Kademlia learns, and dial once a lookup is over. An inbound connection does not
stand in the way of that dial. -/
def onKademliaEvent [DecidableEq Addr] (rules : AddressRules P Addr) (b : BaseBehaviour P Addr) :
    KadEvent P Addr → BaseBehaviour P Addr × Option (DialOpts P)
  | .closestPeers query peers last =>
    match b.ongoingLookups.getByRight query with
    | none => (b, none)
    | some peer =>
      let peerInfo := peers.find? fun info => info.peer = peer
      let queryFinished := last || peerInfo.isSome
      let b := if queryFinished then
          { b with ongoingLookups := b.ongoingLookups.removeByRight query }
        else b
      let b := match peerInfo with
        | some info => { b with addressCache := b.addressCache.put rules peer info.addrs }
        | none => b
      (b, if queryFinished then some { peer := peer, condition := .notDialing } else none)
  | .routablePeer peer address | .pendingRoutablePeer peer address =>
    ({ b with addressCache := b.addressCache.put rules peer [address] }, none)
  | .routingUpdated peer addresses =>
    let cache := addresses.foldl (fun cache address => cache.put rules peer [address])
      b.addressCache
    ({ b with addressCache := cache }, none)
  | .other => (b, none)

/-- Queue a worker of the new set that is neither connected to nor waiting. -/
def sweep (b : BaseBehaviour P Addr) (peer : P) : BaseBehaviour P Addr :=
  if ¬ b.outboundConnExists peer ∧ peer ∉ b.reconnectScheduled then
    { b with
      reconnectScheduled := insert peer b.reconnectScheduled
      pendingLookups := b.pendingLookups ++ [peer] }
  else b

/-- Adopt the registered workers. -/
def onNodesUpdate (b : BaseBehaviour P Addr) (nodes : RetrievedNodes P) : BaseBehaviour P Addr :=
  let b := { b with registeredWorkers := nodes.workers }
  if b.maintainWorkerConnections then nodes.order.foldl sweep b else b

/-- Retrieved nodes reach the allow list, which passes a changed set on. -/
def onWhitelistUpdate (b : BaseBehaviour P Addr) (result : Except E (RetrievedNodes P)) :
    BaseBehaviour P Addr :=
  let (whitelist, changed) :=
    b.whitelist.onNodesUpdate (result.map RetrievedNodes.toNetworkNodes)
  let b := { b with whitelist := whitelist }
  match result, changed with
  | .ok nodes, some _ => b.onNodesUpdate nodes
  | _, _ => b

/-- Handle one event; what it emits is a dial. -/
def handle [DecidableEq Addr] (rules : AddressRules P Addr) (b : BaseBehaviour P Addr) :
    BaseEvent P Addr E → BaseBehaviour P Addr × Option (DialOpts P)
  | .nodes result => (b.onWhitelistUpdate result, none)
  | .allowPeer peer => ({ b with whitelist := b.whitelist.allowPeer peer }, none)
  | .identifyReceived peer listenAddrs => (b.onIdentifyEvent rules peer listenAddrs, none)
  | .kademlia event => b.onKademliaEvent rules event
  | .queryStarted => ({ b with nextQuery := b.nextQuery + 1 }, none)
  | .newExternalAddrOfPeer peer address =>
    ({ b with addressCache := b.addressCache.put rules peer [address] }, none)
  | .pendingOutboundConnection peer =>
    ({ b with addressCache := (b.addressCache.handlePendingOutboundConnection peer).1 }, none)
  | .cooldownExpires peer => ({ b with reconnectQueue := b.reconnectQueue.expire peer }, none)
  | .connectionEstablished peer endpoint => (b.onConnectionEstablished rules peer endpoint, none)
  | .connectionClosed peer endpoint => (b.onConnectionClosed peer endpoint, none)
  | .dialFailure peer error => (b.onDialFailure peer error, none)
  | .poll => b.poll

section WhitelistUpdate

variable {b : BaseBehaviour P Addr} {nodes : RetrievedNodes P}

/-- A node set with the same union as before is ignored. -/
theorem onWhitelistUpdate_same (h : nodes.all = b.whitelist.registeredNodes) :
    b.onWhitelistUpdate (.ok nodes : Except E (RetrievedNodes P)) = b := by
  simp only [onWhitelistUpdate, Except.map, WhitelistBehavior.onNodesUpdate, if_pos h]

/-- A node set with another union is adopted. -/
theorem onWhitelistUpdate_changed (h : nodes.all ≠ b.whitelist.registeredNodes) :
    ∃ allow, b.onWhitelistUpdate (.ok nodes : Except E (RetrievedNodes P)) =
      { b with whitelist := ⟨allow, nodes.all⟩ }.onNodesUpdate nodes := by
  simp only [onWhitelistUpdate, Except.map, WhitelistBehavior.onNodesUpdate, if_neg h]
  exact ⟨_, rfl⟩

end WhitelistUpdate

/-- A Kademlia event fills the cache, and may end one lookup and emit its dial. -/
theorem onKademliaEvent_cases [DecidableEq Addr] (rules : AddressRules P Addr)
    (b : BaseBehaviour P Addr) (event : KadEvent P Addr) :
    (∃ cache, b.onKademliaEvent rules event = ({ b with addressCache := cache }, none)) ∨
    ∃ cache peer query, (peer, query) ∈ b.ongoingLookups.entries ∧
      b.onKademliaEvent rules event =
        ({ b with
            addressCache := cache
            ongoingLookups := b.ongoingLookups.removeByRight query },
          some { peer := peer, condition := .notDialing }) := by
  cases event with
  | closestPeers query peers last =>
    cases hget : b.ongoingLookups.getByRight query with
    | none =>
      left
      simp only [onKademliaEvent, hget]
      exact ⟨b.addressCache, rfl⟩
    | some peer =>
      have hmem := BiMap.mem_of_getByRight hget
      cases hfind : peers.find? fun info => info.peer = peer with
      | some info =>
        right
        simp only [onKademliaEvent, hget, hfind, Option.isSome_some, Bool.or_true, if_true]
        exact ⟨_, peer, query, hmem, rfl⟩
      | none =>
        cases last with
        | true =>
          right
          simp only [onKademliaEvent, hget, hfind, Bool.true_or, if_true]
          exact ⟨b.addressCache, peer, query, hmem, rfl⟩
        | false =>
          left
          simp only [onKademliaEvent, hget, hfind]
          exact ⟨b.addressCache, rfl⟩
  | routablePeer _ _ | pendingRoutablePeer _ _ | routingUpdated _ _ | other =>
    exact Or.inl ⟨_, rfl⟩

/-- What only node sets and connections change. -/
def surroundings (b : BaseBehaviour P Addr) :=
  (b.whitelist, b.registeredWorkers, b.maintainWorkerConnections, b.outboundConns)

section Surroundings

variable (b : BaseBehaviour P Addr) (peer : P)

@[simp] theorem surroundings_findAndDial : (b.findAndDial peer).surroundings = b.surroundings := by
  unfold findAndDial
  split
  · rfl
  · split <;> rfl

@[simp] theorem surroundings_takeExpired (rest : List P) :
    (b.takeExpired peer rest).surroundings = b.surroundings := by
  unfold takeExpired
  dsimp only
  split <;> rfl

@[simp] theorem surroundings_drainExpired (expired : List P) :
    (b.drainExpired expired).surroundings = b.surroundings := by
  induction expired generalizing b with
  | nil => rfl
  | cons peer rest ih => rw [drainExpired, ih, surroundings_takeExpired]

@[simp] theorem surroundings_takeLookup (rest : List P) :
    (b.takeLookup peer rest).surroundings = b.surroundings := by
  unfold takeLookup
  split
  · exact surroundings_findAndDial _ _
  · rfl

@[simp] theorem surroundings_startLookups (pending : List P) :
    (b.startLookups pending).surroundings = b.surroundings := by
  induction pending generalizing b with
  | nil => rfl
  | cons peer rest ih =>
    rw [startLookups]
    split
    · rw [ih, surroundings_takeLookup]
    · rfl

@[simp] theorem surroundings_poll : b.poll.1.surroundings = b.surroundings := by
  have hmid : ∀ mid : BaseBehaviour P Addr, mid.surroundings = b.surroundings →
      (mid.startLookups mid.pendingLookups).surroundings = b.surroundings :=
    fun mid h => (surroundings_startLookups mid _).trans h
  have hlast := hmid _ (surroundings_drainExpired b b.reconnectQueue.expired)
  unfold poll
  dsimp only
  split <;> exact hlast

@[simp] theorem surroundings_scheduleReconnect :
    (b.scheduleReconnect peer).surroundings = b.surroundings := by
  unfold scheduleReconnect
  split <;> rfl

@[simp] theorem surroundings_onDialFailure (peer : Option P) (error : DialError) :
    (b.onDialFailure peer error).surroundings = b.surroundings := by
  unfold onDialFailure
  dsimp only
  split
  · rfl
  · split
    · exact surroundings_scheduleReconnect _ _
    · rfl

@[simp] theorem surroundings_onKademliaEvent [DecidableEq Addr]
    (rules : AddressRules P Addr) (event : KadEvent P Addr) :
    (b.onKademliaEvent rules event).1.surroundings = b.surroundings := by
  rcases onKademliaEvent_cases rules b event with ⟨cache, he⟩ | ⟨cache, peer, query, -, he⟩ <;>
  · rw [he]
    rfl

@[simp] theorem surroundings_sweep : (b.sweep peer).surroundings = b.surroundings := by
  unfold sweep
  split <;> rfl

@[simp] theorem surroundings_foldl_sweep (order : List P) :
    (order.foldl sweep b).surroundings = b.surroundings := by
  induction order generalizing b with
  | nil => rfl
  | cons peer rest ih => rw [List.foldl_cons, ih, surroundings_sweep]

end Surroundings

end BaseBehaviour

end SqdNetwork.Transport
