import SqdNetwork.Transport.Bookkeeping

/-!
# A node in its swarm

The behaviour talks to the swarm through one queue of events. The swarm takes a
dial from it, checks the condition of the dial, and reports an outcome some time
later: a connection or a failure. Meanwhile connections come and go, in both
directions and by the dials of other behaviours.
-/

namespace SqdNetwork.Transport

open SqdNetwork.Core

/-- A dial the swarm has not reported on yet. -/
structure SwarmDial (P : Type) where
  peer : P
  /-- Emitted by the base behaviour. -/
  own : Bool
  condition : PeerCondition
  /-- Whether the condition held when the dial was handed over. -/
  admitted : Bool

/-- How a dial ends. -/
inductive DialOutcome (Addr : Type) where
  | established (address : Addr)
  | failed (error : DialError)

/-- What the swarm reports: a dial whose condition failed ends in just that error. -/
def SwarmDial.reported {P Addr : Type} (d : SwarmDial P) (outcome : DialOutcome Addr) :
    DialOutcome Addr :=
  if d.admitted then outcome else .failed (.dialPeerConditionFalse d.condition)

/-- A base behaviour and the swarm around it. -/
structure Node (P Addr : Type) where
  base : BaseBehaviour P Addr
  /-- Events emitted to the swarm and not yet taken by it. -/
  pendingEvents : List (DialOpts P)
  dials : List (SwarmDial P)
  /-- Open inbound connections. -/
  inbound : P → Nat
  /-- Open outbound connections. -/
  outbound : P → Nat

/-- What happens to a node. -/
inductive NodeAction (P Addr E : Type) where
  /-- Something inside the node: a behaviour, a timer, the node set. -/
  | inner (event : BaseEvent P Addr E)
  | inboundEstablished (peer : P)
  | inboundClosed (peer : P)
  /-- A connection by a dial of another behaviour that did not name the peer. -/
  | outboundEstablished (peer : P) (address : Addr)
  | outboundClosed (peer : P) (address : Addr)
  /-- Another behaviour dials a peer. -/
  | otherDial (peer : P) (condition : PeerCondition)
  /-- The swarm polls the behaviour and takes a dial from it. -/
  | poll
  /-- The swarm reports on one of its dials. -/
  | report (index : Nat) (outcome : DialOutcome Addr)

/-- Events that reach the behaviour through the swarm. -/
def BaseEvent.fromSwarm {P Addr E : Type} : BaseEvent P Addr E → Bool
  | .connectionEstablished _ _ | .connectionClosed _ _ | .dialFailure _ _ | .poll => true
  | _ => false

namespace Node

variable {P Addr E : Type} [DecidableEq P]

/-- A node that maintains its connections, at startup. -/
def start (config : BaseConfig) (bootNodes : List P) : Node P Addr where
  base := .start config bootNodes true
  pendingEvents := []
  dials := []
  inbound := fun _ => 0
  outbound := fun _ => 0

/-- Whether the swarm lets a dial start. -/
def admits (n : Node P Addr) (peer : P) : PeerCondition → Bool
  | .always => true
  | .disconnected => ¬ (0 < n.inbound peer ∨ 0 < n.outbound peer)
  | .notDialing => ¬ n.dials.any fun d => d.admitted && d.peer = peer
  | .disconnectedAndNotDialing => ¬ (n.dials.any fun d => d.admitted && d.peer = peer) ∧
      ¬ (0 < n.inbound peer ∨ 0 < n.outbound peer)

/-- The swarm takes a dial. -/
def handOver (n : Node P Addr) (own : Bool) (opts : DialOpts P) : Node P Addr :=
  { n with dials := n.dials ++
      [⟨opts.peer, own, opts.condition, n.admits opts.peer opts.condition⟩] }

/-- The next event for the swarm: one emitted before, or what polling the behaviour gives. -/
def nextEvent (n : Node P Addr) : Node P Addr × Option (DialOpts P) :=
  match n.pendingEvents with
  | ev :: rest => ({ n with pendingEvents := rest }, some ev)
  | [] => ({ n with base := n.base.poll.1 }, n.base.poll.2)

/-- Poll the behaviour. -/
def poll (n : Node P Addr) : Node P Addr :=
  match n.nextEvent with
  | (n, some ev) => n.handOver true ev
  | (n, none) => n

/-- The swarm is done with a dial. -/
def withoutDial (n : Node P Addr) (index : Nat) : Node P Addr :=
  { n with dials := n.dials.eraseIdx index }

/-- One more outbound connection is open. -/
def openOutbound (n : Node P Addr) (peer : P) : Node P Addr :=
  { n with outbound := Function.update n.outbound peer (n.outbound peer + 1) }

/-- One outbound connection fewer is open. -/
def closeOutbound (n : Node P Addr) (peer : P) : Node P Addr :=
  { n with outbound := Function.update n.outbound peer (n.outbound peer - 1) }

variable [DecidableEq Addr]

/-- Let the behaviour handle an event and queue what it emits. -/
def deliver (rules : AddressRules P Addr) (n : Node P Addr) (event : BaseEvent P Addr E) :
    Node P Addr :=
  { n with
    base := (n.base.handle rules event).1
    pendingEvents := n.pendingEvents ++ (n.base.handle rules event).2.toList }

/-- Report the outcome of a dial. -/
def report (rules : AddressRules P Addr) (n : Node P Addr) (index : Nat)
    (outcome : DialOutcome Addr) : Node P Addr :=
  match n.dials[index]? with
  | none => n
  | some d =>
    match d.reported outcome with
    | .established address => ((n.withoutDial index).openOutbound d.peer).deliver rules
        (.connectionEstablished d.peer (.dialer address) : BaseEvent P Addr Empty)
    | .failed error => (n.withoutDial index).deliver rules
        (.dialFailure (some d.peer) error : BaseEvent P Addr Empty)

/-- One thing happens. A connection can only close while it is open. -/
def step (rules : AddressRules P Addr) (n : Node P Addr) : NodeAction P Addr E → Node P Addr
  | .inner event => if event.fromSwarm then n else n.deliver rules event
  | .inboundEstablished peer =>
    let n := { n with inbound := Function.update n.inbound peer (n.inbound peer + 1) }
    n.deliver rules (.connectionEstablished peer .listener : BaseEvent P Addr E)
  | .inboundClosed peer =>
    if n.inbound peer = 0 then n
    else
      let n := { n with inbound := Function.update n.inbound peer (n.inbound peer - 1) }
      n.deliver rules (.connectionClosed peer .listener : BaseEvent P Addr E)
  | .outboundEstablished peer address => (n.openOutbound peer).deliver rules
      (.connectionEstablished peer (.dialer address) : BaseEvent P Addr E)
  | .outboundClosed peer address =>
    if n.outbound peer = 0 then n
    else (n.closeOutbound peer).deliver rules
      (.connectionClosed peer (.dialer address) : BaseEvent P Addr E)
  | .otherDial peer condition => n.handOver false ⟨peer, condition⟩
  | .poll => n.poll
  | .report index outcome => n.report rules index outcome

end Node

end SqdNetwork.Transport
