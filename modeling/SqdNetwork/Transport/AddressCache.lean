import Mathlib.Data.Finset.Basic
import SqdNetwork.Core.LruCache

/-!
# The cache of peer addresses

Addresses learned from peers are kept for dialing. Only addresses that can be
reached are kept, with the peer they belong to, and a peer whose dial failed on
an address loses its entry.
-/

namespace SqdNetwork.Transport

open SqdNetwork.Core

/-- When a dial may start. -/
inductive PeerCondition where
  | disconnected
  | notDialing
  | disconnectedAndNotDialing
  | always
  deriving DecidableEq

/-- Why a dial failed. -/
inductive DialError where
  | localPeerId
  | noAddresses
  | dialPeerConditionFalse (condition : PeerCondition)
  | aborted
  | wrongPeerId
  | denied
  | transport
  deriving DecidableEq

/-- The errors after which the addresses of a peer are given up and the peer is retried. -/
def DialError.unreachable : DialError → Bool
  | .transport | .wrongPeerId | .noAddresses => true
  | .localPeerId | .dialPeerConditionFalse _ | .aborted | .denied => false

/-- What the cache uses of multiaddresses. -/
structure AddressRules (P Addr : Type) where
  addrIsReachable : Addr → Bool
  /-- The address with the peer appended, or unchanged when it names another peer. -/
  withP2p : P → Addr → Except Addr Addr

/-- Addresses that are all reachable and never name a peer. -/
def AddressRules.plain (P Addr : Type) : AddressRules P Addr := ⟨fun _ => true, fun _ a => .ok a⟩

/-- The form in which an address is kept for a peer. -/
def AddressRules.stored {P Addr : Type} (rules : AddressRules P Addr) (peer : P) (addr : Addr) :
    Addr :=
  match rules.withP2p peer addr with
  | .ok a => a
  | .error a => a

/-- What the swarm tells the cache; what it does not act on is one case. -/
inductive FromSwarm (P Addr : Type) where
  | newExternalAddrOfPeer (peer : P) (addr : Addr)
  | dialFailure (peer : Option P) (error : DialError)
  | other

/-- Addresses by peer. -/
structure AddressCache (P Addr : Type) where
  cache : LruCache P (Finset Addr)

namespace AddressCache

variable {P Addr : Type} [DecidableEq P]

/-- A cache for so many peers. -/
def new (size : Nat) : AddressCache P Addr := ⟨.new size⟩

/-- Add the reachable addresses of a peer; an entry without addresses is never made. -/
def put [DecidableEq Addr] (rules : AddressRules P Addr) (c : AddressCache P Addr) (peer : P)
    (addrs : List Addr) : AddressCache P Addr :=
  let addrs := (addrs.filter rules.addrIsReachable).map fun a =>
    match rules.withP2p peer a with
    | .ok a => a
    | .error a => a
  if addrs.isEmpty then c
  else ⟨c.cache.getOrInsert peer ∅ fun known => known ∪ addrs.toFinset⟩

/-- Forget a peer. -/
def evict (c : AddressCache P Addr) (peer : P) : AddressCache P Addr := ⟨c.cache.pop peer⟩

/-- Whether addresses of the peer are known. -/
def contains (c : AddressCache P Addr) (peer : P) : Bool := c.cache.contains peer

/-- A dial failed; on an unreachable peer its entry is dropped. -/
def onDialFailure (c : AddressCache P Addr) (peer : Option P) (error : DialError) :
    AddressCache P Addr :=
  match error with
  | .wrongPeerId | .transport | .noAddresses =>
    match peer with
    | some peer => c.evict peer
    | none => c
  | _ => c

/-- The addresses to dial, which counts as use of the entry. -/
def handlePendingOutboundConnection (c : AddressCache P Addr) (peer : Option P) :
    AddressCache P Addr × Finset Addr :=
  match peer with
  | none => (c, ∅)
  | some peer => (⟨(c.cache.get peer).1⟩, (c.cache.get peer).2.getD ∅)

/-- Keep the address an outbound connection was made on. -/
def handleEstablishedOutboundConnection [DecidableEq Addr] (rules : AddressRules P Addr)
    (c : AddressCache P Addr) (peer : P) (addr : Addr) : AddressCache P Addr :=
  c.put rules peer [addr]

def onSwarmEvent [DecidableEq Addr] (rules : AddressRules P Addr) (c : AddressCache P Addr) :
    FromSwarm P Addr → AddressCache P Addr
  | .newExternalAddrOfPeer peer addr => c.put rules peer [addr]
  | .dialFailure peer error => c.onDialFailure peer error
  | .other => c

end AddressCache

end SqdNetwork.Transport
