import SqdNetwork.Transport.StreamShared

/-!
# A stream behaviour in its swarm

The requests, the polls of the behaviour and the events of the swarm interleave
freely: only the lock of the shared state orders them, and neither a poll nor the
start of a dial takes it. A connection gets its handler first and is reported
later, and when it ends its handler is gone before the swarm reports it closed; a
dial is skipped when the peer is connected or being dialed, by this behaviour or
another.
-/

namespace SqdNetwork.Transport

open SqdNetwork.Core

/-- The end of a behaviour: it closes its dial queue, then drops the pending channels. -/
inductive Stage where
  | alive
  | closing
  | dropped
  deriving DecidableEq

/-- The handler of a connection and the channel it receives requests from. -/
structure StreamHandler (P : Type) where
  connection : Nat
  peer : P
  channel : Nat

/-- How the swarm answers a dial whose condition holds. -/
inductive DialAnswer where
  | starts
  | refused (error : DialError) (reason : String)

/-- A stream behaviour, its controls and the swarm around it. -/
structure StreamNode (P R : Type) where
  shared : Shared P R
  /-- The request that holds the lock, having queued a dial, and its peer. -/
  locked : Option (R × P)
  stage : Stage
  /-- Dials the behaviour has emitted and the swarm has not answered. -/
  emitted : List P
  /-- Dials the swarm has started, whoever asked for them, and not reported on. -/
  dialing : List P
  /-- Connections whose handler exists and which are not reported yet. -/
  halfOpen : List (StreamHandler P)
  /-- Connections reported as established, with their handlers. -/
  established : List (StreamHandler P)
  /-- Connections whose handler is gone and which are not reported closed yet. -/
  closing : List (StreamHandler P)
  /-- The number of the next connection. -/
  nextConnection : Nat
  /-- Requests that have a sender and have not sent. -/
  holding : List (R × Nat)
  /-- The request each handler is negotiating a stream for. -/
  pendingUpgrade : Nat → Option R

/-- What happens to a node. -/
inductive StreamAction (P R : Type) where
  /-- A control asks for a sender; `pick` is the random choice of a connection. -/
  | openStream (request : R) (peer : P) (pick : Nat)
  /-- The request that holds the lock makes its pending channel. -/
  | insertPending
  /-- A request with a sender sends itself. -/
  | sendRequest (index : Nat)
  /-- The swarm polls the behaviour. -/
  | poll
  /-- The swarm answers a dial emitted by the behaviour. -/
  | answer (index : Nat) (pick : Nat) (answer : DialAnswer)
  /-- A dial of another behaviour starts. -/
  | otherDial (peer : P)
  /-- A dial of another behaviour does not start. -/
  | otherDialRefused (peer : Option P) (error : DialError) (reason : String) (pick : Nat)
  /-- A dial ends without a connection. -/
  | dialFailed (index : Nat) (error : DialError) (reason : String)
  /-- A dial ends in a connection, and a handler is made for it. -/
  | dialConnected (index : Nat)
  /-- A handler is made for a connection that no dial to a known peer led to. -/
  | connected (peer : P)
  /-- A connection is reported. -/
  | reported (index : Nat)
  /-- Another behaviour denies a connection after its handler was made. A connection that was
  dialed is reported as a failed dial. -/
  | denied (index : Nat) (dialed : Bool) (reason : String)
  /-- The task of a connection ends, and its handler goes away. -/
  | ended (index : Nat)
  /-- A connection that has ended is reported closed. -/
  | closed (index : Nat)
  /-- A handler takes a request from its channel. -/
  | handlerPoll (index : Nat)
  /-- A handler has negotiated a stream, or failed to. -/
  | negotiated (index : Nat) (error : Option OpenStreamError)
  /-- The behaviour is dropped: it closes the dial queue. -/
  | closeQueue
  /-- The behaviour is dropped: it drops the pending channels. -/
  | dropPending

namespace StreamNode

variable {P R : Type} [DecidableEq P]

def start : StreamNode P R where
  shared := .new
  locked := none
  stage := .alive
  emitted := []
  dialing := []
  halfOpen := []
  established := []
  closing := []
  nextConnection := 0
  holding := []
  pendingUpgrade := fun _ => none

/-- The connections between their two reports. -/
def reported (n : StreamNode P R) : List (StreamHandler P) := n.established ++ n.closing

/-- The swarm has a connection to the peer, as far as it knows. -/
def isConnected (n : StreamNode P R) (peer : P) : Bool :=
  n.reported.any fun h => h.peer = peer

/-- The condition of the dials of this behaviour: disconnected and not dialing. -/
def admits (n : StreamNode P R) (peer : P) : Bool :=
  !n.isConnected peer && !decide (peer ∈ n.dialing)

/-- A control asks for a sender. -/
def openStream (n : StreamNode P R) (request : R) (peer : P) (pick : Nat) : StreamNode P R :=
  match n.shared.sender pick peer with
  | .returns (.ok channel) => { n with holding := n.holding ++ [(request, channel)] }
  | .returns (.error error) => { n with shared := n.shared.fail [request] error }
  | .dials shared => { n with shared := shared, locked := some (request, peer) }

/-- The request that holds the lock makes its pending channel and lets go of the lock. -/
def insertPending (n : StreamNode P R) : StreamNode P R :=
  match n.locked with
  | none => n
  | some (request, peer) =>
    { n with shared := n.shared.insertPending peer
             locked := none
             holding := n.holding ++ [(request, n.shared.channels.fresh)] }

/-- A request with a sender sends itself. -/
def sendRequest (n : StreamNode P R) (index : Nat) : StreamNode P R :=
  match n.holding[index]? with
  | none => n
  | some (request, channel) =>
    { n with shared := n.shared.trySend channel request
             holding := n.holding.eraseIdx index }

/-- The behaviour emits a dial from its queue. -/
def poll (n : StreamNode P R) : StreamNode P R :=
  match n.shared.dialQueue with
  | [] => n
  | peer :: queue =>
    { n with shared := { n.shared with dialQueue := queue }
             emitted := n.emitted ++ [peer] }

/-- The swarm answers a dial emitted by the behaviour: it skips the dial if its condition does
not hold, and else starts it or ends it at once. Only a start needs no lock. -/
def answerDial (n : StreamNode P R) (index : Nat) (pick : Nat) (answer : DialAnswer) :
    StreamNode P R :=
  match n.emitted[index]? with
  | none => n
  | some peer =>
    if n.admits peer then
      match answer with
      | .starts => { n with emitted := n.emitted.eraseIdx index, dialing := n.dialing ++ [peer] }
      | .refused error reason =>
        if n.locked.isNone && error.terminal then
          { n with emitted := n.emitted.eraseIdx index
                   shared := n.shared.onSwarmDialFailure pick (some peer) error reason }
        else n
    else if n.locked.isNone then
      { n with
        emitted := n.emitted.eraseIdx index
        shared := n.shared.onSwarmDialFailure pick (some peer)
          (.dialPeerConditionFalse .disconnectedAndNotDialing) "" }
    else n

/-- A dial ends without a connection. -/
def failDial (n : StreamNode P R) (index : Nat) (error : DialError) (reason : String) :
    StreamNode P R :=
  match n.dialing[index]? with
  | none => n
  | some peer =>
    if error.terminal then
      { n with dialing := n.dialing.eraseIdx index
               shared := n.shared.onSwarmDialFailure 0 (some peer) error reason }
    else n

/-- A handler is made for a connection. -/
def makeHandler (n : StreamNode P R) (peer : P) : StreamNode P R :=
  { n with
    shared := (n.shared.receiver peer n.nextConnection).1
    halfOpen :=
      n.halfOpen ++ [⟨n.nextConnection, peer, (n.shared.receiver peer n.nextConnection).2⟩]
    nextConnection := n.nextConnection + 1 }

/-- A dial ends in a connection. -/
def connectDial (n : StreamNode P R) (index : Nat) : StreamNode P R :=
  match n.dialing[index]? with
  | none => n
  | some peer => { n with dialing := n.dialing.eraseIdx index }.makeHandler peer

/-- A connection is reported. -/
def report (n : StreamNode P R) (index : Nat) : StreamNode P R :=
  match n.halfOpen[index]? with
  | none => n
  | some h =>
    { n with halfOpen := n.halfOpen.eraseIdx index
             established := n.established ++ [h]
             shared := n.shared.onConnectionEstablished h.connection h.peer }

/-- A handler goes away, with its channel and the request it is negotiating for. -/
def dropHandler (n : StreamNode P R) (h : StreamHandler P) : StreamNode P R :=
  { n with
    shared := (n.shared.dropReceiver h.channel).fail (n.pendingUpgrade h.connection).toList .reset
    pendingUpgrade := Function.update n.pendingUpgrade h.connection none }

/-- A connection is denied after its handler was made. -/
def deny (n : StreamNode P R) (index : Nat) (dialed : Bool) (reason : String) : StreamNode P R :=
  match n.halfOpen[index]? with
  | none => n
  | some h =>
    let n := { n with halfOpen := n.halfOpen.eraseIdx index }.dropHandler h
    if dialed then
      { n with shared := n.shared.onSwarmDialFailure 0 (some h.peer) .denied reason }
    else n

/-- A connection ends: until it is reported closed, the senders still name its channel. -/
def endConnection (n : StreamNode P R) (index : Nat) : StreamNode P R :=
  match n.established[index]? with
  | none => n
  | some h =>
    { n with established := n.established.eraseIdx index
             closing := n.closing ++ [h] }.dropHandler h

/-- A connection is reported closed. -/
def close (n : StreamNode P R) (index : Nat) : StreamNode P R :=
  match n.closing[index]? with
  | none => n
  | some h =>
    { n with closing := n.closing.eraseIdx index
             shared := n.shared.onConnectionClosed h.connection }

/-- A handler without a stream to negotiate takes the next request from its channel. -/
def handlerPoll (n : StreamNode P R) (index : Nat) : StreamNode P R :=
  match n.established[index]? with
  | none => n
  | some h =>
    match n.pendingUpgrade h.connection, n.shared.channels.messages h.channel with
    | none, request :: _ =>
      { n with
        shared := { n.shared with channels := n.shared.channels.receive h.channel }
        pendingUpgrade := Function.update n.pendingUpgrade h.connection (some request) }
    | _, _ => n

/-- A handler answers the request it has negotiated for. -/
def negotiated (n : StreamNode P R) (index : Nat) (error : Option OpenStreamError) :
    StreamNode P R :=
  match n.established[index]? with
  | none => n
  | some h =>
    match n.pendingUpgrade h.connection with
    | none => n
    | some request =>
      { n with
        shared :=
          { n.shared with
            answers := n.shared.answers ++
              [(request, error.elim (.ok h.connection) .error)] }
        pendingUpgrade := Function.update n.pendingUpgrade h.connection none }

/-- The behaviour is there to take an event of the swarm, and the lock is free. -/
def attends (n : StreamNode P R) : Bool := n.locked.isNone && n.stage = .alive

/-- The behaviour closes its dial queue. -/
def closeQueue (n : StreamNode P R) : StreamNode P R :=
  { n with stage := .closing, shared := { n.shared with dialClosed := true } }

/-- The behaviour drops the pending channels. -/
def dropPending (n : StreamNode P R) : StreamNode P R :=
  { n with stage := .dropped, shared := n.shared.onBehaviourDropped }

/-- One step: a step that needs the lock waits while another request holds it. -/
def step (n : StreamNode P R) : StreamAction P R → StreamNode P R
  | .openStream request peer pick =>
    if n.locked.isNone then n.openStream request peer pick else n
  | .insertPending => n.insertPending
  | .sendRequest index => n.sendRequest index
  | .poll => if n.stage = .alive then n.poll else n
  | .answer index pick answer =>
    if n.stage = .alive then n.answerDial index pick answer else n
  | .otherDial peer => { n with dialing := n.dialing ++ [peer] }
  | .otherDialRefused peer error reason pick =>
    if n.attends then { n with shared := n.shared.onSwarmDialFailure pick peer error reason }
    else n
  | .dialFailed index error reason => if n.attends then n.failDial index error reason else n
  | .dialConnected index => if n.attends then n.connectDial index else n
  | .connected peer => if n.attends then n.makeHandler peer else n
  | .reported index => if n.attends then n.report index else n
  | .denied index dialed reason => if n.attends then n.deny index dialed reason else n
  | .ended index => n.endConnection index
  | .closed index => if n.attends then n.close index else n
  | .handlerPoll index => n.handlerPoll index
  | .negotiated index error => n.negotiated index error
  | .closeQueue => if n.stage = .alive then n.closeQueue else n
  | .dropPending => if n.locked.isNone && n.stage = .closing then n.dropPending else n

end StreamNode

end SqdNetwork.Transport
