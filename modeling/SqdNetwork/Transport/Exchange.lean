import Mathlib.Data.PNat.Defs
import SqdNetwork.Core.ByteStream
import SqdNetwork.Transport.StreamClient

/-!
# A request and its response on one stream

The client writes its request and closes its side, then reads the response. The
server reads the request to its end, hands it on with the stream, and whoever holds
the stream last writes the response and closes it. Either side can drop the stream
at any time; what the other side then finds depends on the transport.
-/

namespace SqdNetwork.Transport

open SqdNetwork.Core

/-- The settings of a server, timeouts apart: those may expire at any time. -/
structure ServerConfig where
  maxRequestSize : UInt64 := 1024
  maxResponseSize : UInt64 := 1024
  incomingCapacity : Nat := 128
  requestsQueueSize : ℕ+ := 128

/-- How a stream that is dropped before it is closed looks from the other side: it is
reset, or it just ends. -/
structure DropRules where
  /-- It is reset where the other side is still open. -/
  resetsOpen : Bool
  /-- It is reset where the other side has been closed. -/
  resetsHalfClosed : Bool

/-- A dropped stream is reset. -/
def DropRules.resets (rules : DropRules) (otherClosed : Bool) : Bool :=
  if otherClosed then rules.resetsHalfClosed else rules.resetsOpen

/-- The client's side of a stream. -/
inductive ClientSide where
  /-- It writes its request. -/
  | writing
  /-- It has closed its side, and has read this of the response. -/
  | reading (buf : List UInt8)
  /-- It has dropped the stream, with the result of the call unless the caller dropped it. -/
  | ended (result : Option (Except RequestError (List UInt8)))
  deriving DecidableEq

/-- Where the server's side of a stream is. -/
inductive ServerSide where
  /-- In the buffer of inbound streams. -/
  | incoming
  /-- With the task that reads its request. -/
  | reading (buf : List UInt8)
  /-- In the queue of requests that were read. -/
  | queued (request : List UInt8)
  /-- In the queue of events. -/
  | reported (request : List UInt8)
  /-- With whoever takes the events, who has not answered yet. -/
  | serving (request : List UInt8)
  /-- Its response is being written. -/
  | responding (response : List UInt8)
  /-- Its response was written and it was closed. -/
  | responded
  /-- It was dropped without a whole response. -/
  | dropped
  deriving DecidableEq

/-- The request has not been read to its end. -/
def ServerSide.unread : ServerSide → Bool
  | .incoming | .reading _ => true
  | .queued _ | .reported _ | .serving _ | .responding _ | .responded | .dropped => false

/-- A stream that a client has opened for a request. -/
structure Exchange (P : Type) where
  /-- The client. -/
  peer : P
  request : List UInt8
  /-- From the client to the server. -/
  up : Pipe ErrorKind
  /-- From the server to the client. -/
  down : Pipe ErrorKind
  client : ClientSide
  server : ServerSide
  /-- The request that was handed over with the stream. -/
  handed : Option (List UInt8)
  /-- The response that was accepted for writing. -/
  response : Option (List UInt8)
  deriving DecidableEq

/-- What happens to one stream. -/
inductive ExchangeAction where
  | clientWrite (count : Nat)
  | clientClose
  | clientRead (count : Nat) (lost : Bool)
  /-- The call times out, or the caller drops it. -/
  | clientLeave (timedOut : Bool)
  /-- The server starts to read the request. -/
  | spawnReadTask
  /-- The task reads; what it has read is queued if there is room. -/
  | serverRead (count : Nat) (lost room : Bool)
  /-- The request becomes an event, if it is taken. -/
  | report (taken : Bool)
  /-- The event is taken. -/
  | hand
  | send (data : List UInt8)
  | serverWrite (count : Nat)
  | serverClose
  /-- The server's side is dropped: a timeout, or whoever holds it drops it. -/
  | serverDrop
  /-- The connection breaks. -/
  | disconnect (kind : ErrorKind)

namespace Exchange

variable {P : Type}

/-- A stream just opened by a client. -/
def opened (peer : P) (request : List UInt8) : Exchange P where
  peer := peer
  request := request
  up := .empty
  down := .empty
  client := .writing
  server := .incoming
  handed := none
  response := none

/-- Breaks both directions. -/
def reset (x : Exchange P) (kind : ErrorKind) : Exchange P :=
  { x with up := x.up.reset kind, down := x.down.reset kind }

/-- The client drops its side. -/
def clientDrop (rules : DropRules) (x : Exchange P)
    (result : Option (Except RequestError (List UInt8))) : Exchange P :=
  let x := { x with client := .ended result }
  if x.up.finished then x
  else if rules.resets x.down.finished then x.reset .connectionReset
  else { x with up := x.up.finish }

/-- The server drops its side. -/
def serverDrop (rules : DropRules) (x : Exchange P) : Exchange P :=
  let x := { x with server := .dropped }
  if x.down.finished then x
  else if rules.resets x.up.finished then x.reset .connectionReset
  else { x with down := x.down.finish }

/-- The next bytes of the request are written. -/
def clientWrite (rules : DropRules) (x : Exchange P) (count : Nat) : Exchange P :=
  match x.client, x.up.broken with
  | .writing, some kind => x.clientDrop rules (some (.error (.io kind)))
  | .writing, none =>
    { x with up := x.up.write ((x.request.drop x.up.written.length).take (count + 1)) }
  | _, _ => x

/-- After the whole request the client closes its side. -/
def clientClose (rules : DropRules) (x : Exchange P) : Exchange P :=
  match x.client, x.up.broken with
  | .writing, some kind => x.clientDrop rules (some (.error (.io kind)))
  | .writing, none =>
    if x.up.written.length = x.request.length then
      { x with up := x.up.finish, client := .reading [] }
    else x
  | _, _ => x

def clientRead (config : ClientConfig) (rules : DropRules) (x : Exchange P) (count : Nat)
    (lost : Bool) : Exchange P :=
  match x.client with
  | .reading buf =>
    match x.down.read (readLimit config.maxResponseSize) buf count lost with
    | .more buf => { x with client := .reading buf }
    | .ended => x.clientDrop rules (some (config.checkResponse buf))
    | .failed kind => x.clientDrop rules (some (.error (.io kind)))
    | .pending => x
  | _ => x

/-- The call is given up while it is under way. -/
def clientLeave (rules : DropRules) (x : Exchange P) (timedOut : Bool) : Exchange P :=
  match x.client with
  | .ended _ => x
  | _ => x.clientDrop rules (if timedOut then some (.error (.timeout .request)) else none)

def spawnReadTask (x : Exchange P) : Exchange P :=
  match x.server with
  | .incoming => { x with server := .reading [] }
  | _ => x

/-- The task reads the request: what it has read when it finds the end is given on, unless it is
too large. -/
def readBytes (config : ServerConfig) (rules : DropRules) (x : Exchange P) (count : Nat)
    (lost : Bool) : Exchange P × Option (List UInt8) :=
  match x.server with
  | .reading buf =>
    match x.up.read (readLimit config.maxRequestSize) buf count lost with
    | .more buf => ({ x with server := .reading buf }, none)
    | .ended =>
      if buf.length > config.maxRequestSize.toNat then (x.serverDrop rules, none)
      else (x, some buf)
    | .failed _ => (x.serverDrop rules, none)
    | .pending => (x, none)
  | _ => (x, none)

/-- What was read is queued; a request that finds no room is dropped with its stream. -/
def readRequest (config : ServerConfig) (rules : DropRules) (x : Exchange P) (count : Nat)
    (lost room : Bool) : Exchange P :=
  match x.readBytes config rules count lost with
  | (x, none) => x
  | (x, some request) =>
    if room then { x with server := .queued request } else x.serverDrop rules

def report (rules : DropRules) (x : Exchange P) (taken : Bool) : Exchange P :=
  match x.server with
  | .queued request =>
    if taken then { x with server := .reported request } else x.serverDrop rules
  | _ => x

def hand (x : Exchange P) : Exchange P :=
  match x.server with
  | .reported request => { x with server := .serving request, handed := some request }
  | _ => x

/-- Responding begins, unless the response is too large. -/
def send (config : ServerConfig) (rules : DropRules) (x : Exchange P) (data : List UInt8) :
    Exchange P :=
  match x.server with
  | .serving _ =>
    if data.length > config.maxResponseSize.toNat then x.serverDrop rules
    else { x with server := .responding data, response := some data }
  | _ => x

def serverWrite (rules : DropRules) (x : Exchange P) (count : Nat) : Exchange P :=
  match x.server, x.down.broken with
  | .responding _, some _ => x.serverDrop rules
  | .responding data, none =>
    { x with down := x.down.write ((data.drop x.down.written.length).take (count + 1)) }
  | _, _ => x

def serverClose (rules : DropRules) (x : Exchange P) : Exchange P :=
  match x.server, x.down.broken with
  | .responding _, some _ => x.serverDrop rules
  | .responding data, none =>
    if x.down.written.length = data.length then
      { x with down := x.down.finish, server := .responded }
    else x
  | _, _ => x

/-- The server's side goes away, wherever it is. -/
def serverLeave (rules : DropRules) (x : Exchange P) : Exchange P :=
  match x.server with
  | .responded | .dropped => x
  | _ => x.serverDrop rules

/-- One step. -/
def step (clientConfig : ClientConfig) (serverConfig : ServerConfig) (rules : DropRules)
    (x : Exchange P) : ExchangeAction → Exchange P
  | .clientWrite count => x.clientWrite rules count
  | .clientClose => x.clientClose rules
  | .clientRead count lost => x.clientRead clientConfig rules count lost
  | .clientLeave timedOut => x.clientLeave rules timedOut
  | .spawnReadTask => x.spawnReadTask
  | .serverRead count lost room => x.readRequest serverConfig rules count lost room
  | .report taken => x.report rules taken
  | .hand => x.hand
  | .send data => x.send serverConfig rules data
  | .serverWrite count => x.serverWrite rules count
  | .serverClose => x.serverClose rules
  | .serverDrop => x.serverLeave rules
  | .disconnect kind => x.reset kind

/-- What the server takes for the request is the beginning of what the client sends, and
all of it where dropping a stream resets it. -/
def Received (config : ServerConfig) (rules : DropRules) (x : Exchange P)
    (request : List UInt8) : Prop :=
  request <+: x.request ∧ request.length ≤ config.maxRequestSize.toNat ∧
    (readLimit config.maxRequestSize = config.maxRequestSize.toNat + 1 →
      rules.resetsOpen = true → request = x.request)

/-- What the client has read is the beginning of what the server has written; a call
that succeeds has read all of it. -/
def ClientSound (config : ClientConfig) (x : Exchange P) : Prop :=
  match x.client with
  | .writing => x.up.finished = false
  | .reading buf =>
    x.up.written = x.request ∧ x.down.Read (readLimit config.maxResponseSize) buf
  | .ended (some (.ok buf)) =>
    x.up.written = x.request ∧ buf <+: x.down.written ∧
      (readLimit config.maxResponseSize = config.maxResponseSize.toNat + 1 →
        x.down.finished = true ∧ buf = x.down.written)
  | .ended _ => True

/-- What the server holds at each place. -/
def ServerSound (config : ServerConfig) (rules : DropRules) (x : Exchange P) : Prop :=
  match x.server with
  | .incoming => x.handed = none ∧ x.response = none
  | .reading buf =>
    x.handed = none ∧ x.response = none ∧ x.up.Read (readLimit config.maxRequestSize) buf
  | .queued request | .reported request =>
    x.handed = none ∧ x.response = none ∧ x.Received config rules request
  | .serving request => x.handed = some request ∧ x.response = none
  | .responding data => x.response = some data
  | .responded | .dropped => True

/-- What holds of a stream at all times. -/
structure Sound (clientConfig : ClientConfig) (serverConfig : ServerConfig) (rules : DropRules)
    (x : Exchange P) : Prop where
  upPre : x.up.written <+: x.request
  upWhole : x.up.finished = true →
    x.up.written = x.request ∨ rules.resetsOpen = false ∨ x.server.unread = false
  received : ∀ request, x.handed = some request → x.Received serverConfig rules request
  fits : ∀ data, x.response = some data →
    data.length ≤ serverConfig.maxResponseSize.toNat ∧ x.handed.isSome = true
  downPre : x.down.written <+: x.response.getD []
  downWhole : x.down.finished = true →
    x.server = .responded ∧ x.response = some x.down.written ∨
      x.server = .dropped ∧ (rules.resetsOpen && rules.resetsHalfClosed) = false
  client : x.ClientSound clientConfig
  server : x.ServerSound serverConfig rules

section

variable {clientConfig : ClientConfig} {serverConfig : ServerConfig} {rules : DropRules}
  {x : Exchange P}

theorem sound_opened (peer : P) (request : List UInt8) :
    (opened peer request).Sound clientConfig serverConfig rules where
  upPre := List.nil_prefix
  upWhole := by
    rintro ⟨⟩
  received := by
    rintro request ⟨⟩
  fits := by
    rintro data ⟨⟩
  downPre := List.nil_prefix
  downWhole := by
    rintro ⟨⟩
  client := rfl
  server := ⟨rfl, rfl⟩

/-- Breaking a stream changes nothing that was written or read. -/
theorem Sound.reset (h : x.Sound clientConfig serverConfig rules) (kind : ErrorKind) :
    (x.reset kind).Sound clientConfig serverConfig rules :=
  ⟨h.upPre, h.upWhole, h.received, h.fits, h.downPre, h.downWhole, h.client, h.server⟩

theorem DropRules.not_all_of_not_resets {otherClosed : Bool}
    (h : ¬ rules.resets otherClosed = true) :
    (rules.resetsOpen && rules.resetsHalfClosed) = false := by
  rw [Bool.and_eq_false_iff]
  unfold DropRules.resets at h
  split at h
  · exact .inr (Bool.eq_false_iff.mpr h)
  · exact .inl (Bool.eq_false_iff.mpr h)

/-- A side that has not ended has its direction open. -/
theorem Sound.down_open (h : x.Sound clientConfig serverConfig rules)
    (hresponded : x.server ≠ .responded) (hdropped : x.server ≠ .dropped) :
    x.down.finished = false := by
  cases hfinished : x.down.finished with
  | false => rfl
  | true =>
    rcases h.downWhole hfinished with ⟨heq, -⟩ | ⟨heq, -⟩
    · exact absurd heq hresponded
    · exact absurd heq hdropped

/-- The client goes on when the server writes more, unless it has closed its side. -/
theorem ClientSound.of_down (h : x.ClientSound clientConfig) {down : Pipe ErrorKind}
    (hpre : x.down.written <+: down.written)
    (hsame : x.down.finished = true → down.finished = true ∧ down.written = x.down.written) :
    ClientSound clientConfig { x with down := down } := by
  unfold ClientSound at h ⊢
  cases hclient : x.client with
  | writing =>
    simp only [hclient] at h ⊢
    exact h
  | reading buf =>
    simp only [hclient] at h ⊢
    exact ⟨h.1, h.2.1.trans hpre, h.2.2⟩
  | ended result =>
    simp only [hclient] at h ⊢
    cases result with
    | none => trivial
    | some result =>
      cases result with
      | error error => trivial
      | ok buf =>
        refine ⟨h.1, h.2.1.trans hpre, fun hlimit => ?_⟩
        obtain ⟨hfinished, hbuf⟩ := h.2.2 hlimit
        exact ⟨(hsame hfinished).1, hbuf.trans (hsame hfinished).2.symm⟩

/-- The server goes on when the client writes more. -/
theorem ServerSound.of_up (h : x.ServerSound serverConfig rules) {up : Pipe ErrorKind}
    (hpre : x.up.written <+: up.written) :
    ServerSound serverConfig rules { x with up := up } := by
  unfold ServerSound at h ⊢
  cases hserver : x.server with
  | reading buf =>
    simp only [hserver] at h ⊢
    exact ⟨h.1, h.2.1, h.2.2.1.trans hpre, h.2.2.2⟩
  | responded => trivial
  | dropped => trivial
  | _ =>
    simp only [hserver] at h ⊢
    exact h

/-- The server can drop its side until it has responded. -/
theorem Sound.serverDrop (h : x.Sound clientConfig serverConfig rules)
    (hresponded : x.server ≠ .responded) :
    (x.serverDrop rules).Sound clientConfig serverConfig rules := by
  have hplain : Sound clientConfig serverConfig rules { x with server := .dropped } := by
    refine ⟨h.upPre, fun _ => .inr (.inr rfl), h.received, h.fits, h.downPre, ?_, h.client,
      trivial⟩
    intro hfinished
    rcases h.downWhole hfinished with ⟨heq, -⟩ | ⟨-, hrules⟩
    · exact absurd heq hresponded
    · exact .inr ⟨rfl, hrules⟩
  unfold Exchange.serverDrop
  dsimp only
  split
  · exact hplain
  · split
    · exact hplain.reset _
    · next hopen hends =>
      have hclient : ClientSound clientConfig { x with down := x.down.finish } :=
        h.client.of_down (List.prefix_refl _) fun _ => ⟨rfl, rfl⟩
      exact ⟨h.upPre, fun _ => .inr (.inr rfl), h.received, h.fits, h.downPre,
        fun _ => .inr ⟨rfl, DropRules.not_all_of_not_resets hends⟩, hclient, trivial⟩

/-- The client can drop its side at any time, with a result that it has read. -/
theorem Sound.clientDrop (h : x.Sound clientConfig serverConfig rules)
    {result : Option (Except RequestError (List UInt8))}
    (hresult : ClientSound clientConfig { x with client := .ended result }) :
    (x.clientDrop rules result).Sound clientConfig serverConfig rules := by
  have hplain : Sound clientConfig serverConfig rules { x with client := .ended result } :=
    ⟨h.upPre, h.upWhole, h.received, h.fits, h.downPre, h.downWhole, hresult, h.server⟩
  unfold Exchange.clientDrop
  dsimp only
  split
  · exact hplain
  · split
    · exact hplain.reset _
    · next hopen hends =>
      refine ⟨h.upPre, ?_, h.received, h.fits, h.downPre, h.downWhole, ?_,
        h.server.of_up (List.prefix_refl _)⟩
      case refine_2 =>
        rcases result with _ | _ | buf
        · trivial
        · trivial
        · exact hresult
      intro _
      cases hfinished : x.down.finished with
      | false =>
        rw [hfinished] at hends
        exact .inr (.inl (Bool.eq_false_iff.mpr hends))
      | true =>
        rcases h.downWhole hfinished with ⟨heq, -⟩ | ⟨heq, -⟩
        · exact .inr (.inr (by rw [heq]; rfl))
        · exact .inr (.inr (by rw [heq]; rfl))

/-- A call that fails has read nothing that counts. -/
theorem Sound.clientFail (h : x.Sound clientConfig serverConfig rules) (error : RequestError) :
    (x.clientDrop rules (some (.error error))).Sound clientConfig serverConfig rules :=
  h.clientDrop trivial

theorem Sound.clientWrite (h : x.Sound clientConfig serverConfig rules) (count : Nat) :
    (x.clientWrite rules count).Sound clientConfig serverConfig rules := by
  unfold Exchange.clientWrite
  split
  · exact h.clientFail _
  · next hclient _ =>
    have hopen : x.up.finished = false := by
      have := h.client
      simpa only [ClientSound, hclient] using this
    refine ⟨prefix_append_take_drop h.upPre _, ?_, h.received, h.fits, h.downPre, h.downWhole, ?_,
      h.server.of_up (List.prefix_append _ _)⟩
    · intro hfinished
      rw [Pipe.finished_write, hopen] at hfinished
      cases hfinished
    · simp only [ClientSound, hclient]
      exact hopen
  · exact h

theorem Sound.clientClose (h : x.Sound clientConfig serverConfig rules) :
    (x.clientClose rules).Sound clientConfig serverConfig rules := by
  unfold Exchange.clientClose
  split
  · exact h.clientFail _
  · split
    · next hall =>
      have hwhole : x.up.written = x.request := h.upPre.eq_of_length hall
      exact ⟨h.upPre, fun _ => .inl hwhole, h.received, h.fits, h.downPre, h.downWhole,
        ⟨hwhole, Pipe.read_nil⟩, h.server.of_up (List.prefix_refl _)⟩
    · exact h
  · exact h

theorem Sound.clientRead (h : x.Sound clientConfig serverConfig rules) (count : Nat)
    (lost : Bool) : (x.clientRead clientConfig rules count lost).Sound clientConfig serverConfig
      rules := by
  unfold Exchange.clientRead
  split
  · next buf hclient =>
    obtain ⟨hwhole, hread⟩ : x.up.written = x.request ∧
        x.down.Read (readLimit clientConfig.maxResponseSize) buf := by
      have := h.client
      simpa only [ClientSound, hclient] using this
    split
    · next buf' hmore =>
      exact ⟨h.upPre, h.upWhole, h.received, h.fits, h.downPre, h.downWhole,
        ⟨hwhole, hread.more hmore⟩, h.server⟩
    · next hended =>
      refine h.clientDrop ?_
      unfold ClientConfig.checkResponse
      split
      · trivial
      · next hsize =>
        refine ⟨hwhole, hread.1, fun hlimit => ?_⟩
        rcases hread.ended hended with hfull | hall
        · rw [hlimit] at hfull
          omega
        · exact hall
    · exact h.clientFail _
    · exact h
  · exact h

theorem Sound.clientLeave (h : x.Sound clientConfig serverConfig rules) (timedOut : Bool) :
    (x.clientLeave rules timedOut).Sound clientConfig serverConfig rules := by
  unfold Exchange.clientLeave
  split
  · exact h
  · refine h.clientDrop ?_
    cases timedOut <;> trivial

theorem Sound.spawnReadTask (h : x.Sound clientConfig serverConfig rules) :
    x.spawnReadTask.Sound clientConfig serverConfig rules := by
  unfold Exchange.spawnReadTask
  split
  · next hserver =>
    have hs := h.server
    simp only [ServerSound, hserver] at hs
    have hopen := h.down_open (by simp [hserver]) (by simp [hserver])
    refine ⟨h.upPre, ?_, h.received, h.fits, h.downPre, ?_, h.client,
      ⟨hs.1, hs.2, Pipe.read_nil⟩⟩
    · intro hfinished
      rcases h.upWhole hfinished with hwhole | hrules | hread
      · exact .inl hwhole
      · exact .inr (.inl hrules)
      · rw [hserver] at hread
        cases hread
    · intro hfinished
      exact absurd (hopen.symm.trans hfinished) Bool.false_ne_true
  · exact h

/-- The server's side moves on to a place past reading, with the same pipes. -/
theorem Sound.advance (h : x.Sound clientConfig serverConfig rules)
    (hresponded : x.server ≠ .responded) (hdropped : x.server ≠ .dropped) {y : Exchange P}
    (hrequest : y.request = x.request) (hup : y.up = x.up) (hdown : y.down = x.down)
    (hclient : y.client = x.client) (hread : y.server.unread = false)
    (hreceived : ∀ request, y.handed = some request → x.Received serverConfig rules request)
    (hfits : ∀ data, y.response = some data →
      data.length ≤ serverConfig.maxResponseSize.toNat ∧ y.handed.isSome = true)
    (hpre : x.response = y.response ∨ x.response = none)
    (hserver : y.ServerSound serverConfig rules) : y.Sound clientConfig serverConfig rules := by
  have hopen := h.down_open hresponded hdropped
  refine ⟨?_, fun _ => .inr (.inr hread), ?_, hfits, ?_, ?_, ?_, hserver⟩
  · rw [hup, hrequest]
    exact h.upPre
  · intro request hy
    have := hreceived request hy
    unfold Received at this ⊢
    rwa [hrequest]
  · rw [hdown]
    rcases hpre with heq | hnone
    · exact heq ▸ h.downPre
    · have hnil := h.downPre
      rw [hnone] at hnil
      rw [List.prefix_nil.mp hnil]
      exact List.nil_prefix
  · intro hfinished
    rw [hdown, hopen] at hfinished
    cases hfinished
  · have := h.client
    unfold ClientSound at this ⊢
    rwa [hclient, hup, hrequest, hdown]

/-- What the task gives on is the request. -/
theorem Sound.readBytes (h : x.Sound clientConfig serverConfig rules) (count : Nat) (lost : Bool) :
    (x.readBytes serverConfig rules count lost).1.Sound clientConfig serverConfig rules ∧
      ∀ request, (x.readBytes serverConfig rules count lost).2 = some request →
        (x.readBytes serverConfig rules count lost).1 = x ∧ (∃ buf, x.server = .reading buf) ∧
          x.handed = none ∧ x.response = none ∧ x.Received serverConfig rules request := by
  unfold Exchange.readBytes
  split
  · next buf hserver =>
    obtain ⟨hhanded, hresponse, hread⟩ : x.handed = none ∧ x.response = none ∧
        x.up.Read (readLimit serverConfig.maxRequestSize) buf := by
      have := h.server
      simpa only [ServerSound, hserver] using this
    have hresponded : x.server ≠ .responded := by simp [hserver]
    have hopen := h.down_open hresponded (by simp [hserver])
    have hunread : ¬ x.server.unread = false := by simp [hserver, ServerSide.unread]
    split
    · next buf' hmore =>
      refine ⟨⟨h.upPre, ?_, h.received, h.fits, h.downPre, ?_, h.client,
        ⟨hhanded, hresponse, hread.more hmore⟩⟩, nofun⟩
      · intro hfinished
        exact (h.upWhole hfinished).imp_right fun hor => hor.imp_right (absurd · hunread)
      · intro hfinished
        exact absurd (hopen.symm.trans hfinished) Bool.false_ne_true
    · next hended =>
      split
      · exact ⟨h.serverDrop hresponded, nofun⟩
      · next hsize =>
        refine ⟨h, ?_⟩
        rintro _ ⟨⟩
        refine ⟨rfl, ⟨buf, hserver⟩, hhanded, hresponse, hread.1.trans h.upPre,
          Nat.le_of_not_lt hsize, fun hlimit hresets => ?_⟩
        rcases hread.ended hended with hfull | ⟨hfinished, hall⟩
        · rw [hlimit] at hfull
          omega
        · rcases h.upWhole hfinished with hwhole | hrules | hread
          · exact hall.trans hwhole
          · rw [hresets] at hrules
            cases hrules
          · exact absurd hread hunread
    · exact ⟨h.serverDrop hresponded, nofun⟩
    · exact ⟨h, nofun⟩
  · exact ⟨h, nofun⟩

theorem Sound.readRequest (h : x.Sound clientConfig serverConfig rules) (count : Nat)
    (lost room : Bool) :
    (x.readRequest serverConfig rules count lost room).Sound clientConfig serverConfig rules := by
  obtain ⟨hsound, hgiven⟩ := h.readBytes count lost
  unfold Exchange.readRequest
  split
  · next y hy =>
    rw [hy] at hsound
    exact hsound
  · next y request hy =>
    rw [hy] at hgiven
    obtain ⟨hsame, ⟨buf, hserver⟩, hhanded, hresponse, hreceived⟩ := hgiven request rfl
    obtain rfl : y = x := hsame
    have hresponded : y.server ≠ .responded := by simp [hserver]
    split
    · exact h.advance hresponded (by simp [hserver]) rfl rfl rfl rfl rfl h.received h.fits
        (.inl rfl) ⟨hhanded, hresponse, hreceived⟩
    · exact h.serverDrop hresponded

theorem Sound.report (h : x.Sound clientConfig serverConfig rules) (taken : Bool) :
    (x.report rules taken).Sound clientConfig serverConfig rules := by
  unfold Exchange.report
  split
  · next request hserver =>
    have hs := h.server
    simp only [ServerSound, hserver] at hs
    have hresponded : x.server ≠ .responded := by simp [hserver]
    split
    · exact h.advance hresponded (by simp [hserver]) rfl rfl rfl rfl rfl h.received h.fits
        (.inl rfl) hs
    · exact h.serverDrop hresponded
  · exact h

theorem Sound.hand (h : x.Sound clientConfig serverConfig rules) :
    x.hand.Sound clientConfig serverConfig rules := by
  unfold Exchange.hand
  split
  · next request hserver =>
    obtain ⟨-, hresponse, hreceived⟩ : x.handed = none ∧ x.response = none ∧
        x.Received serverConfig rules request := by
      have := h.server
      simpa only [ServerSound, hserver] using this
    refine h.advance (by simp [hserver]) (by simp [hserver]) rfl rfl rfl rfl rfl ?_ ?_ (.inl rfl)
      ⟨rfl, hresponse⟩
    · rintro _ ⟨⟩
      exact hreceived
    · intro data hdata
      exact ⟨(h.fits data hdata).1, rfl⟩
  · exact h

theorem Sound.send (h : x.Sound clientConfig serverConfig rules) (data : List UInt8) :
    (x.send serverConfig rules data).Sound clientConfig serverConfig rules := by
  unfold Exchange.send
  split
  · next request hserver =>
    obtain ⟨hhanded, hresponse⟩ : x.handed = some request ∧ x.response = none := by
      have := h.server
      simpa only [ServerSound, hserver] using this
    have hresponded : x.server ≠ .responded := by simp [hserver]
    split
    · exact h.serverDrop hresponded
    · next hsize =>
      refine h.advance hresponded (by simp [hserver]) rfl rfl rfl rfl rfl h.received ?_
        (.inr hresponse) rfl
      rintro _ ⟨⟩
      exact ⟨Nat.le_of_not_lt hsize, by rw [hhanded]; rfl⟩
  · exact h

theorem Sound.serverWrite (h : x.Sound clientConfig serverConfig rules) (count : Nat) :
    (x.serverWrite rules count).Sound clientConfig serverConfig rules := by
  unfold Exchange.serverWrite
  split
  · next hserver _ => exact h.serverDrop (by simp [hserver])
  · next data hserver _ =>
    have hresponse : x.response = some data := by
      have := h.server
      simpa only [ServerSound, hserver] using this
    have hopen := h.down_open (by simp [hserver]) (by simp [hserver])
    have hsent : x.down.written <+: data := by
      have := h.downPre
      rwa [hresponse] at this
    refine ⟨h.upPre, h.upWhole, h.received, h.fits, ?_, ?_,
      h.client.of_down (List.prefix_append _ _) ?_, h.server⟩
    · rw [hresponse]
      exact prefix_append_take_drop hsent _
    · intro hfinished
      exact absurd (hopen.symm.trans hfinished) Bool.false_ne_true
    · intro hfinished
      exact absurd (hopen.symm.trans hfinished) Bool.false_ne_true
  · exact h

theorem Sound.serverClose (h : x.Sound clientConfig serverConfig rules) :
    (x.serverClose rules).Sound clientConfig serverConfig rules := by
  unfold Exchange.serverClose
  split
  · next hserver _ => exact h.serverDrop (by simp [hserver])
  · next data hserver _ =>
    split
    · next hall =>
      have hresponse : x.response = some data := by
        have := h.server
        simpa only [ServerSound, hserver] using this
      have hsent : x.down.written <+: data := by
        have := h.downPre
        rwa [hresponse] at this
      refine ⟨h.upPre, fun _ => .inr (.inr rfl), h.received, h.fits, h.downPre, ?_,
        h.client.of_down (List.prefix_refl _) fun _ => ⟨rfl, rfl⟩, trivial⟩
      intro _
      refine .inl ⟨rfl, hresponse.trans ?_⟩
      rw [Pipe.written_finish, hsent.eq_of_length hall]
    · exact h
  · exact h

theorem Sound.serverLeave (h : x.Sound clientConfig serverConfig rules) :
    (x.serverLeave rules).Sound clientConfig serverConfig rules := by
  unfold Exchange.serverLeave
  split
  · exact h
  · exact h
  · next hresponded _ => exact h.serverDrop hresponded

/-- Every step keeps a stream sound. -/
theorem Sound.step (h : x.Sound clientConfig serverConfig rules) (action : ExchangeAction) :
    (x.step clientConfig serverConfig rules action).Sound clientConfig serverConfig rules := by
  cases action with
  | clientWrite count => exact h.clientWrite count
  | clientClose => exact h.clientClose
  | clientRead count lost => exact h.clientRead count lost
  | clientLeave timedOut => exact h.clientLeave timedOut
  | spawnReadTask => exact h.spawnReadTask
  | serverRead count lost room => exact h.readRequest count lost room
  | report taken => exact h.report taken
  | hand => exact h.hand
  | send data => exact h.send data
  | serverWrite count => exact h.serverWrite count
  | serverClose => exact h.serverClose
  | serverDrop => exact h.serverLeave
  | disconnect kind => exact h.reset kind

end

end Exchange

end SqdNetwork.Transport
