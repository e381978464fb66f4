import SqdNetwork.Core.Permits
import SqdNetwork.Transport.StreamShared

/-!
# Stream clients

A client handle bounds the streams it has open to each peer by a semaphore: a call
takes a permit before it opens a stream, the permit travels with the stream, and it
is given back when the stream is dropped or the call ends without one. A clone of a
handle starts with semaphores of its own.
-/

namespace SqdNetwork.Transport

open SqdNetwork.Core

/-- The settings of a client that a call reads, timeouts apart: those may expire at any time. -/
structure ClientConfig where
  maxConcurrentStreams : Option Nat := some 3
  maxResponseSize : UInt64 := 1024

/-- What timed out. -/
inductive Timeout where
  | connect
  | request
  deriving DecidableEq

/-- Why a call failed. -/
inductive RequestError where
  | timeout (timeout : Timeout)
  | unsupportedProtocol
  | responseTooLarge
  | io (kind : ErrorKind)
  deriving DecidableEq

/-- The error of a call whose stream was not opened. -/
def RequestError.ofOpenStreamError : OpenStreamError → RequestError
  | .unsupportedProtocol => .unsupportedProtocol
  | .io kind _ => .io kind

/-- The two kinds of calls: the caller gets the stream, or the response read from it. -/
inductive CallKind where
  | getRawStream
  | requestResponse
  deriving DecidableEq

/-- How far a call has got. -/
inductive CallPhase where
  /-- It waits for a permit. -/
  | waiting
  /-- It has its permit and has asked for a stream. -/
  | opening
  /-- A stream was opened for it, and it has not taken the stream yet. -/
  | delivered
  /-- The stream is in use. -/
  | streaming
  /-- It is over, with its result unless the caller dropped it. -/
  | ended (result : Option (Except RequestError (List UInt8)))
  | panicked
  deriving DecidableEq

namespace CallPhase

/-- The call holds a permit, if there is a limit. -/
def holdsPermit : CallPhase → Bool
  | .opening | .delivered | .streaming => true
  | .waiting | .ended _ | .panicked => false

/-- The call is under way, up to the time it has its stream. -/
def connecting : CallPhase → Bool
  | .waiting | .opening | .delivered => true
  | .streaming | .ended _ | .panicked => false

end CallPhase

/-- A call to a peer through a handle. -/
structure StreamCall (P : Type) where
  handle : Nat
  peer : P
  kind : CallKind
  phase : CallPhase

/-- The ways a call ends. -/
inductive CallEnd where
  | openFailed (error : OpenStreamError)
  | connectTimeout
  | requestTimeout
  /-- Writing the request or reading the response failed. -/
  | ioFailed (kind : ErrorKind)
  /-- The remote has sent this and closed its side. -/
  | responded (response : List UInt8)
  /-- The caller drops the call, or the stream it got. -/
  | dropped

/-- The bytes read at most of a message with a maximum size: one more is enough to refuse it. -/
def readLimit (maxSize : UInt64) : Nat := (maxSize + 1).toNat

/-- The largest maximum leaves nothing to read: adding one to it wraps. -/
theorem readLimit_eq {maxSize : UInt64} (h : maxSize.toNat + 1 < UInt64.size) :
    readLimit maxSize = maxSize.toNat + 1 := by
  rw [readLimit, UInt64.toNat_add]
  exact Nat.mod_eq_of_lt h

namespace ClientConfig

/-- The result of a call that has read the response to its end. -/
def checkResponse (config : ClientConfig) (buf : List UInt8) : Except RequestError (List UInt8) :=
  if buf.length > config.maxResponseSize.toNat then .error .responseTooLarge else .ok buf

/-- The response as it is read from the stream. -/
def readResponse (config : ClientConfig) (response : List UInt8) :
    Except RequestError (List UInt8) :=
  config.checkResponse (response.take (readLimit config.maxResponseSize))

end ClientConfig

namespace CallEnd

/-- Whether a call can end this way. -/
def applies {P : Type} (e : CallEnd) (call : StreamCall P) : Bool :=
  match e with
  | .openFailed _ => call.phase = .opening
  | .connectTimeout => call.phase.connecting
  | .requestTimeout =>
    call.kind = .requestResponse && (call.phase.connecting || call.phase = .streaming)
  | .ioFailed _ | .responded _ => call.kind = .requestResponse && call.phase = .streaming
  | .dropped => call.phase.connecting || call.phase = .streaming

/-- The result of a call that ends this way. -/
def result (config : ClientConfig) : CallEnd → Option (Except RequestError (List UInt8))
  | .openFailed error => some (.error (.ofOpenStreamError error))
  | .connectTimeout => some (.error (.timeout .connect))
  | .requestTimeout => some (.error (.timeout .request))
  | .ioFailed kind => some (.error (.io kind))
  | .responded response => some (config.readResponse response)
  | .dropped => none

end CallEnd

/-- A handle, its clones and the calls made through them. -/
structure StreamClients (P : Type) where
  /-- The semaphores of the handles, by peer. -/
  handles : List (Permits P)
  calls : List (StreamCall P)

/-- What happens to the clients. -/
inductive ClientAction (P : Type) where
  | clone (handle : Nat)
  | call (handle : Nat) (peer : P) (kind : CallKind)
  /-- A waiting call takes a permit. -/
  | acquire (index : Nat)
  /-- A stream is opened for a call. -/
  | deliver (index : Nat)
  /-- A call takes its stream. -/
  | take (index : Nat)
  | finish (index : Nat) (how : CallEnd)

namespace StreamClients

variable {P : Type}

/-- One handle and no calls. -/
def start : StreamClients P := ⟨[.empty], []⟩

/-- A clone starts without semaphores. -/
def clone (c : StreamClients P) (handle : Nat) : StreamClients P :=
  match c.handles[handle]? with
  | none => c
  | some _ => { c with handles := c.handles ++ [.empty] }

/-- Moves a call on. -/
def setPhase (c : StreamClients P) (index : Nat) (call : StreamCall P) (phase : CallPhase) :
    StreamClients P :=
  { c with calls := c.calls.set index { call with phase := phase } }

variable [DecidableEq P]

/-- A call begins: the semaphore of the peer is made if the handle has none. Making one with more
permits than a semaphore can have panics. -/
def call (config : ClientConfig) (maxPermits : Nat) (c : StreamClients P) (handle : Nat) (peer : P)
    (kind : CallKind) : StreamClients P :=
  match c.handles[handle]? with
  | none => c
  | some table =>
    match config.maxConcurrentStreams with
    | none => { c with calls := c.calls ++ [⟨handle, peer, kind, .waiting⟩] }
    | some limit =>
      if (table.left peer).isNone && decide (maxPermits < limit) then
        { c with calls := c.calls ++ [⟨handle, peer, kind, .panicked⟩] }
      else
        { handles := c.handles.set handle (table.ensure peer limit)
          calls := c.calls ++ [⟨handle, peer, kind, .waiting⟩] }

/-- A waiting call takes a permit, if there is a limit. -/
def acquire (config : ClientConfig) (c : StreamClients P) (index : Nat) : StreamClients P :=
  match c.calls[index]? with
  | none => c
  | some call =>
    if call.phase = .waiting then
      match config.maxConcurrentStreams with
      | none => c.setPhase index call .opening
      | some _ =>
        match c.handles[call.handle]?.bind (·.acquire call.peer) with
        | none => c
        | some table =>
          { c with handles := c.handles.set call.handle table }.setPhase index call .opening
    else c

/-- A call goes from one phase to the next. -/
def advance (c : StreamClients P) (index : Nat) (source target : CallPhase) : StreamClients P :=
  match c.calls[index]? with
  | none => c
  | some call => if call.phase = source then c.setPhase index call target else c

/-- A call ends; its stream is dropped before its permit. -/
def finish (config : ClientConfig) (c : StreamClients P) (index : Nat) (how : CallEnd) :
    StreamClients P :=
  match c.calls[index]? with
  | none => c
  | some call =>
    if how.applies call then
      let handles :=
        if call.phase.holdsPermit && config.maxConcurrentStreams.isSome then
          c.handles.modify call.handle (·.release call.peer)
        else c.handles
      { c with handles := handles }.setPhase index call (.ended (how.result config))
    else c

/-- One step. -/
def step (config : ClientConfig) (maxPermits : Nat) (c : StreamClients P) :
    ClientAction P → StreamClients P
  | .clone handle => c.clone handle
  | .call handle peer kind => c.call config maxPermits handle peer kind
  | .acquire index => c.acquire config index
  | .deliver index => c.advance index .opening .delivered
  | .take index => c.advance index .delivered .streaming
  | .finish index how => c.finish config index how

end StreamClients

end SqdNetwork.Transport
