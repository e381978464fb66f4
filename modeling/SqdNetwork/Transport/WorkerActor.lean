import SqdNetwork.Core.Mailbox
import SqdNetwork.Core.Placement
import SqdNetwork.Transport.Exchange
import Mathlib.Logic.Function.Basic

/-!
# The worker's servers and its events

A worker serves four protocols. For each, inbound streams wait in a buffer until the
swarm is polled; a task then reads the request of each, and queues it for the next
poll; polling turns a request into an event, which goes to a queue of events that the
worker's own code takes from. Every queue has a fixed size and drops what does not
fit, with its stream.
-/

namespace SqdNetwork.Transport

open SqdNetwork.Core

/-- The protocols a worker serves. -/
inductive WorkerProtocol where
  | query
  | sqlQuery
  | logs
  | status
  deriving DecidableEq

def maxQueryMsgSize : UInt64 := 4 * 1024 * 1024 + 1024
def maxSqlQueryMsgSize : UInt64 := 257 * 1024
def maxQueryResultSize : UInt64 := 250 * 1024 * 1024
def maxLogsRequestSize : UInt64 := 100
def maxLogsResponseSize : UInt64 := 10 * 1024 * 1024
def maxHeartbeatSize : UInt64 := 10 * 1024 * 1024

/-- The settings of the server of each protocol. -/
def WorkerProtocol.serverConfig : WorkerProtocol → ServerConfig
  | .query => { maxRequestSize := maxQueryMsgSize, maxResponseSize := maxQueryResultSize }
  | .sqlQuery => { maxRequestSize := maxSqlQueryMsgSize, maxResponseSize := maxQueryResultSize }
  | .logs => { maxRequestSize := maxLogsRequestSize, maxResponseSize := maxLogsResponseSize }
  | .status => { maxRequestSize := 0, maxResponseSize := maxHeartbeatSize }

/-- The settings of the clients of each protocol. -/
def WorkerProtocol.clientConfig : WorkerProtocol → ClientConfig
  | .query => { maxResponseSize := maxQueryResultSize }
  | .sqlQuery => { maxResponseSize := maxQueryResultSize }
  | .logs => { maxResponseSize := maxLogsResponseSize }
  | .status => { maxConcurrentStreams := none, maxResponseSize := maxHeartbeatSize }

/-- A handle for sending the response to a request; it owns the stream. -/
structure ResponseSender where
  stream : Nat
  maxResponseSize : UInt64

/-- A request that was read. -/
structure Request (P : Type) where
  peerId : P
  request : List UInt8
  responseSender : ResponseSender

/-- The queues of a server. -/
structure ServerBehaviour (P : Type) where
  /-- The inbound streams, by number. -/
  incoming : Mailbox Nat
  /-- The requests read from them. -/
  requests : Mailbox (Request P)

/-- A server without streams. The buffer of inbound streams has one sender. -/
def ServerBehaviour.new {P : Type} (config : ServerConfig) : ServerBehaviour P where
  incoming := .new config.incomingCapacity.succPNat
  requests := .new config.requestsQueueSize

/-- What a worker is told. -/
inductive WorkerEvent (P : Type) where
  | query (peerId : P) (request : List UInt8) (respChan : ResponseSender)
  | sqlQuery (peerId : P) (request : List UInt8) (respChan : ResponseSender)
  | logsRequest (peerId : P) (request : List UInt8) (respChan : ResponseSender)
  | statusRequest (peerId : P) (respChan : ResponseSender)

namespace WorkerEvent

variable {P : Type}

def protocol : WorkerEvent P → WorkerProtocol
  | .query .. => .query
  | .sqlQuery .. => .sqlQuery
  | .logsRequest .. => .logs
  | .statusRequest .. => .status

def peerId : WorkerEvent P → P
  | .query peerId .. | .sqlQuery peerId .. | .logsRequest peerId .. | .statusRequest peerId _ =>
    peerId

/-- The bytes of the request; an event for a status request has none. -/
def request : WorkerEvent P → List UInt8
  | .query _ request _ | .sqlQuery _ request _ | .logsRequest _ request _ => request
  | .statusRequest .. => []

def respChan : WorkerEvent P → ResponseSender
  | .query _ _ respChan | .sqlQuery _ _ respChan | .logsRequest _ _ respChan
  | .statusRequest _ respChan => respChan

/-- The stream the response goes to. -/
def stream (e : WorkerEvent P) : Nat := e.respChan.stream

end WorkerEvent

section Requests

variable {P : Type}

/-- Queries without bytes are dropped. -/
def onQuery (req : Request P) : Option (WorkerEvent P) :=
  if req.request = [] then none else some (.query req.peerId req.request req.responseSender)

def onSqlQuery (req : Request P) : Option (WorkerEvent P) :=
  if req.request = [] then none else some (.sqlQuery req.peerId req.request req.responseSender)

/-- A logs request may be empty: all its fields have defaults. -/
def onLogsRequest (req : Request P) : Option (WorkerEvent P) :=
  some (.logsRequest req.peerId req.request req.responseSender)

def onStatusRequest (req : Request P) : Option (WorkerEvent P) :=
  some (.statusRequest req.peerId req.responseSender)

/-- The event for a request of a server. -/
def onInnerEvent : WorkerProtocol → Request P → Option (WorkerEvent P)
  | .query => onQuery
  | .sqlQuery => onSqlQuery
  | .logs => onLogsRequest
  | .status => onStatusRequest

end Requests

/-- A worker, the streams opened to it and the events its own code has taken. -/
structure Worker (P : Type) where
  /-- Every stream that was opened, with its protocol; streams are known by their numbers. -/
  streams : List (WorkerProtocol × Exchange P)
  servers : WorkerProtocol → ServerBehaviour P
  events : Mailbox (WorkerEvent P)
  consumed : List (WorkerEvent P)

/-- What happens to a worker. -/
inductive WorkerAction (P : Type) where
  /-- A client opens a stream for a request. -/
  | openStream (protocol : WorkerProtocol) (peer : P) (request : List UInt8)
  /-- Something happens to a stream outside of the queues. -/
  | exchange (stream : Nat) (action : ExchangeAction)
  /-- A task reads the request of a stream. -/
  | read (stream count : Nat) (lost : Bool)
  /-- The swarm polls the server of a protocol. -/
  | poll (protocol : WorkerProtocol)
  /-- The worker's own code takes an event. -/
  | next
  /-- The worker's own code is done with events. -/
  | dropEvents
  /-- The transport stops. -/
  | stop

/-- What can happen to a stream that is in no queue: the client's own steps, and the steps of the
task or the code that holds the server's side. -/
def ExchangeAction.outside {P : Type} (x : Exchange P) : ExchangeAction → Bool
  | .clientWrite _ | .clientClose | .clientRead _ _ | .clientLeave _ | .disconnect _ => true
  | .send _ | .serverWrite _ | .serverClose => true
  | .serverDrop =>
    match x.server with
    | .reading _ | .serving _ | .responding _ => true
    | _ => false
  | .spawnReadTask | .serverRead _ _ _ | .report _ | .hand => false

namespace Worker

variable {P : Type}

/-- A worker that was just started. -/
def start (eventsQueueSize : ℕ+) : Worker P where
  streams := []
  servers protocol := .new protocol.serverConfig
  events := .new eventsQueueSize
  consumed := []

/-- The buffer of inbound streams of a server changes. -/
def setIncoming (w : Worker P) (protocol : WorkerProtocol) (incoming : Mailbox Nat) : Worker P :=
  { w with servers := Function.update w.servers protocol { w.servers protocol with incoming } }

/-- The queue of requests of a server changes. -/
def setRequests (w : Worker P) (protocol : WorkerProtocol) (requests : Mailbox (Request P)) :
    Worker P :=
  { w with servers := Function.update w.servers protocol { w.servers protocol with requests } }

def setStream (w : Worker P) (i : Nat) (s : WorkerProtocol × Exchange P) : Worker P :=
  { w with streams := w.streams.set i s }

/-- One stream changes. -/
def modifyStream (w : Worker P) (i : Nat) (f : Exchange P → Exchange P) : Worker P :=
  { w with streams := w.streams.modify i fun s => (s.1, f s.2) }

/-- A stream is opened, and dropped if the buffer of its server is full. -/
def openStream (rules : DropRules) (w : Worker P) (protocol : WorkerProtocol) (peer : P)
    (request : List UInt8) : Worker P :=
  match (w.servers protocol).incoming.trySend w.streams.length with
  | .ok incoming =>
    { w.setIncoming protocol incoming with
      streams := w.streams ++ [(protocol, .opened peer request)] }
  | .error _ =>
    { w with streams := w.streams ++ [(protocol, (Exchange.opened peer request).serverDrop rules)] }

/-- Something happens to a stream outside of the queues. -/
def exchange (clientConfig : WorkerProtocol → ClientConfig) (rules : DropRules) (w : Worker P)
    (i : Nat) (action : ExchangeAction) : Worker P :=
  match w.streams[i]? with
  | none => w
  | some (protocol, x) =>
    if action.outside x then
      w.setStream i
        (protocol, x.step (clientConfig protocol) protocol.serverConfig rules action)
    else w

/-- A task reads its request and puts it into the queue; a full queue drops it. -/
def read (rules : DropRules) (w : Worker P) (i count : Nat) (lost : Bool) : Worker P :=
  match w.streams[i]? with
  | none => w
  | some (protocol, x) =>
    match x.readBytes protocol.serverConfig rules count lost with
    | (x, none) => w.setStream i (protocol, x)
    | (x, some request) =>
      let sender := ⟨i, protocol.serverConfig.maxResponseSize⟩
      match (w.servers protocol).requests.trySend ⟨x.peer, request, sender⟩ with
      | .ok requests =>
        (w.setRequests protocol requests).setStream i
          (protocol, { x with server := .queued request })
      | .error _ => w.setStream i (protocol, x.serverDrop rules)

/-- The first inbound stream of a server gets its task. -/
def spawnReadTask (w : Worker P) (protocol : WorkerProtocol) : Worker P :=
  match (w.servers protocol).incoming.queue with
  | [] => w
  | i :: _ =>
    (w.setIncoming protocol (w.servers protocol).incoming.receive).modifyStream i
      (·.spawnReadTask)

/-- The first request of a server becomes an event. The stream is dropped if it does not, or if
the queue of events is full. -/
def report (rules : DropRules) (w : Worker P) (protocol : WorkerProtocol) : Worker P :=
  match (w.servers protocol).requests.queue with
  | [] => w
  | req :: _ =>
    let left := w.setRequests protocol (w.servers protocol).requests.receive
    match (onInnerEvent protocol req).map w.events.trySend with
    | some (.ok events) =>
      { left.modifyStream req.responseSender.stream (·.report rules true) with events }
    | some (.error _) | none =>
      left.modifyStream req.responseSender.stream (·.report rules false)

/-- Polling a server: all its inbound streams get their tasks, then one request is reported. -/
def poll (rules : DropRules) (w : Worker P) (protocol : WorkerProtocol) : Worker P :=
  ((fun w : Worker P => w.spawnReadTask protocol)^[(w.servers protocol).incoming.queue.length]
    w).report rules protocol

/-- An event is taken. -/
def next (w : Worker P) : Worker P :=
  match w.events.queue with
  | [] => w
  | e :: _ =>
    { w with events := w.events.receive, consumed := w.consumed ++ [e] }.modifyStream e.stream
      (·.hand)

/-- The queue of events goes, with the streams in it. -/
def dropEvents (rules : DropRules) (w : Worker P) : Worker P :=
  { w with
    events := w.events.close
    streams := w.streams.map fun s =>
      match s.2.server with
      | .reported _ => (s.1, s.2.serverDrop rules)
      | _ => s }

/-- The servers go, with the streams in their queues. -/
def stop (rules : DropRules) (w : Worker P) : Worker P :=
  { w with
    servers := fun protocol =>
      { incoming := (w.servers protocol).incoming.close
        requests := (w.servers protocol).requests.close }
    streams := w.streams.map fun s =>
      match s.2.server with
      | .incoming | .queued _ => (s.1, s.2.serverDrop rules)
      | _ => s }

/-- One step. -/
def step (clientConfig : WorkerProtocol → ClientConfig) (rules : DropRules) (w : Worker P) :
    WorkerAction P → Worker P
  | .openStream protocol peer request => w.openStream rules protocol peer request
  | .exchange i action => w.exchange clientConfig rules i action
  | .read i count lost => w.read rules i count lost
  | .poll protocol => w.poll rules protocol
  | .next => w.next
  | .dropEvents => w.dropEvents rules
  | .stop => w.stop rules

end Worker

end SqdNetwork.Transport
