import SqdNetwork.Core.Channels
import SqdNetwork.Transport.AddressCache
import Mathlib.Data.List.AList

/-!
# Stream requests, shared between controls, handlers and the behaviour

A control asks for a stream by sending a request into a channel: the channel of a
connection to the peer if there is one, else a channel kept pending while the peer
is dialed. The handler of a new connection takes over the pending channel of its
peer. Connections are known by the numbers the swarm gives them.
-/

namespace SqdNetwork.Transport

open SqdNetwork.Core

/-- The kinds of input and output errors a request can end in. -/
inductive ErrorKind where
  | notConnected
  | connectionReset
  | timedOut
  | other
  deriving DecidableEq

/-- Why a stream was not opened. -/
inductive OpenStreamError where
  | unsupportedProtocol
  /-- With the text of the error, where it has one of its own. -/
  | io (kind : ErrorKind) (text : Option String)
  deriving DecidableEq

/-- The error of a request whose channel or answer was dropped. -/
def OpenStreamError.reset : OpenStreamError := .io .connectionReset none

/-- The errors that end a dial for good: all but a condition that does not hold. -/
def DialError.terminal : DialError → Bool
  | .localPeerId | .transport | .denied | .noAddresses | .aborted | .wrongPeerId => true
  | .dialPeerConditionFalse _ => false

/-- The state shared by the controls, the handlers and the behaviour. -/
structure Shared (P R : Type) where
  /-- The peers of the connections reported as established. -/
  connections : AList (fun _ : Nat => P)
  /-- The channels of connections. -/
  senders : AList (fun _ : Nat => Nat)
  /-- The channels of peers that are being dialed. -/
  pendingChannels : AList (fun _ : P => Nat)
  /-- The dials requested and not polled yet. -/
  dialQueue : List P
  /-- The behaviour has closed its end of the dial queue. -/
  dialClosed : Bool
  channels : Channels R
  /-- What the requests were answered: a stream on a connection or an error. -/
  answers : List (R × Except OpenStreamError Nat)

namespace Shared

variable {P R : Type} [DecidableEq P]

def new : Shared P R where
  connections := ∅
  senders := ∅
  pendingChannels := ∅
  dialQueue := []
  dialClosed := false
  channels := .empty
  answers := []

/-- Answers requests with one error. -/
def fail (s : Shared P R) (requests : List R) (error : OpenStreamError) : Shared P R :=
  { s with answers := s.answers ++ requests.map fun r => (r, .error error) }

/-- The requests left in a channel whose receiver is dropped are dropped with it. -/
def dropReceiver (s : Shared P R) (channel : Nat) : Shared P R :=
  { s.fail (s.channels.messages channel) .reset with channels := s.channels.close channel }

def onConnectionEstablished (s : Shared P R) (connection : Nat) (peer : P) : Shared P R :=
  { s with connections := s.connections.insert connection peer }

def onConnectionClosed (s : Shared P R) (connection : Nat) : Shared P R :=
  { s with connections := s.connections.erase connection
           senders := s.senders.erase connection }

/-- The connections to a peer. -/
def connectionsTo (s : Shared P R) (peer : P) : List Nat :=
  (s.connections.entries.filter fun e => e.2 = peer).map Sigma.fst

/-- The channel of a connection to the peer; `pick` is the random choice among them. -/
def connectedSender (s : Shared P R) (pick : Nat) (peer : P) : Option Nat :=
  (s.connectionsTo peer)[pick % (s.connectionsTo peer).length]?.bind s.senders.lookup

/-- Fails the requests that wait for the dial of a peer. -/
def onDialFailure (s : Shared P R) (peer : P) (reason : String) : Shared P R :=
  match s.pendingChannels.lookup peer with
  | none => s
  | some channel =>
    { s.fail (s.channels.messages channel) (.io .notConnected (some reason)) with
      pendingChannels := s.pendingChannels.erase peer
      channels := s.channels.close channel }

/-- Sends a request on, or fails it if the receiver is gone. -/
def trySend (s : Shared P R) (channel : Nat) (request : R) : Shared P R :=
  match s.channels.send channel request with
  | some channels => { s with channels := channels }
  | none => s.fail [request] .reset

/-- The swarm skipped a dial: if the peer is connected, its requests go to a connection. -/
def onDialSkipped (s : Shared P R) (pick : Nat) (peer : P) : Shared P R :=
  match s.connectedSender pick peer with
  | none => s
  | some sender =>
    match s.pendingChannels.lookup peer with
    | none => s
    | some channel =>
      (s.channels.messages channel).foldl (fun s request => s.trySend sender request)
        { s with pendingChannels := s.pendingChannels.erase peer
                 channels := s.channels.close channel }

/-- Drops the pending channels with the requests in them. -/
def onBehaviourDropped (s : Shared P R) : Shared P R :=
  { s.pendingChannels.entries.foldl (fun s e => s.dropReceiver e.2) s with
    pendingChannels := ∅ }

/-- How a request for a sender goes on. -/
inductive Sender (P R : Type) where
  /-- It returns, with the lock released. -/
  | returns (result : Except OpenStreamError Nat)
  /-- It has queued a dial and is about to make a pending channel, with the lock held. -/
  | dials (shared : Shared P R)

/-- The channel for requests to a peer, up to the point where a dial is queued. -/
def sender (s : Shared P R) (pick : Nat) (peer : P) : Sender P R :=
  match s.connectedSender pick peer with
  | some channel => .returns (.ok channel)
  | none =>
    match s.pendingChannels.lookup peer with
    | some channel => .returns (.ok channel)
    | none =>
      if s.dialClosed then
        .returns (.error (.io .notConnected (some "stream behaviour is no longer running")))
      else .dials { s with dialQueue := s.dialQueue ++ [peer] }

/-- The rest of `sender`, once the dial is queued: makes the pending channel `channels.fresh`. -/
def insertPending (s : Shared P R) (peer : P) : Shared P R :=
  { s with channels := s.channels.create
           pendingChannels := s.pendingChannels.insert peer s.channels.fresh }

/-- The channel the handler of a new connection receives from. -/
def receiver (s : Shared P R) (peer : P) (connection : Nat) : Shared P R × Nat :=
  match s.pendingChannels.lookup peer with
  | some channel =>
    ({ s with pendingChannels := s.pendingChannels.erase peer
              senders := s.senders.insert connection channel }, channel)
  | none =>
    ({ s with channels := s.channels.create
              senders := s.senders.insert connection s.channels.fresh }, s.channels.fresh)

/-- What the behaviour does about a failed dial. -/
def onSwarmDialFailure (s : Shared P R) (pick : Nat) (peer : Option P) (error : DialError)
    (reason : String) : Shared P R :=
  match peer with
  | none => s
  | some peer =>
    match error with
    | .localPeerId | .transport | .denied | .noAddresses | .aborted | .wrongPeerId =>
      s.onDialFailure peer reason
    | .dialPeerConditionFalse _ => s.onDialSkipped pick peer

/-- The connections to a peer are those recorded with it. -/
theorem mem_connectionsTo {s : Shared P R} {peer : P} {c : Nat} :
    c ∈ s.connectionsTo peer ↔ s.connections.lookup c = some peer := by
  rw [← Option.mem_def, AList.mem_lookup_iff]
  constructor
  · intro hc
    obtain ⟨⟨c, q⟩, hentry, rfl⟩ := List.mem_map.mp hc
    obtain ⟨hentry, hq⟩ := List.mem_filter.mp hentry
    rw [← of_decide_eq_true hq]
    exact hentry
  · intro hentry
    exact List.mem_map.mpr ⟨⟨c, peer⟩, List.mem_filter.mpr ⟨hentry, by simp⟩, rfl⟩

/-- When every connection has a sender, a connected peer has one, whatever the choice. -/
theorem connectedSender_of_connected {s : Shared P R} {peer : P} {c : Nat} (pick : Nat)
    (hsenders : ∀ c q, s.connections.lookup c = some q → ∃ ch, s.senders.lookup c = some ch)
    (hc : s.connections.lookup c = some peer) : ∃ ch, s.connectedSender pick peer = some ch := by
  have hpos : 0 < (s.connectionsTo peer).length :=
    List.length_pos_of_mem (mem_connectionsTo.mpr hc)
  have hpick := Nat.mod_lt pick hpos
  obtain ⟨ch, hch⟩ := hsenders _ peer (mem_connectionsTo.mp (List.getElem_mem hpick))
  refine ⟨ch, ?_⟩
  rw [connectedSender, List.getElem?_eq_getElem hpick]
  exact hch

/-- The two states agree on the connections and the dials. -/
structure SameDials (s t : Shared P R) : Prop where
  connections : t.connections = s.connections
  senders : t.senders = s.senders
  dialQueue : t.dialQueue = s.dialQueue
  dialClosed : t.dialClosed = s.dialClosed

/-- The second state agrees with the first on everything but messages and answers, and has no
channel open that the first had not. -/
structure SameBooks (s t : Shared P R) : Prop extends SameDials s t where
  pendingChannels : t.pendingChannels = s.pendingChannels
  channels : ∀ ch, t.channels.Open ch → s.channels.Open ch

/-- The second state has let go of the pending channel of a peer. -/
structure Releases (s t : Shared P R) (peer : P) : Prop extends SameDials s t where
  pendingChannels : t.pendingChannels = s.pendingChannels.erase peer
  channels : ∀ ch, t.channels.Open ch →
    s.channels.Open ch ∧ s.pendingChannels.lookup peer ≠ some ch

omit [DecidableEq P] in
theorem SameDials.trans {s t u : Shared P R} (h : SameDials s t) (h' : SameDials t u) :
    SameDials s u where
  connections := h'.connections.trans h.connections
  senders := h'.senders.trans h.senders
  dialQueue := h'.dialQueue.trans h.dialQueue
  dialClosed := h'.dialClosed.trans h.dialClosed

omit [DecidableEq P] in
theorem SameBooks.refl (s : Shared P R) : SameBooks s s :=
  ⟨⟨rfl, rfl, rfl, rfl⟩, rfl, fun _ hopen => hopen⟩

omit [DecidableEq P] in
theorem SameBooks.trans {s t u : Shared P R} (h : SameBooks s t) (h' : SameBooks t u) :
    SameBooks s u where
  toSameDials := h.toSameDials.trans h'.toSameDials
  pendingChannels := h'.pendingChannels.trans h.pendingChannels
  channels ch hopen := h.channels ch (h'.channels ch hopen)

theorem Releases.trans {s t u : Shared P R} {peer : P} (h : Releases s t peer)
    (h' : SameBooks t u) : Releases s u peer where
  toSameDials := h.toSameDials.trans h'.toSameDials
  pendingChannels := h'.pendingChannels.trans h.pendingChannels
  channels ch hopen := h.channels ch (h'.channels ch hopen)

omit [DecidableEq P] in
theorem fail_sameBooks (s : Shared P R) (requests : List R) (error : OpenStreamError) :
    SameBooks s (s.fail requests error) :=
  ⟨⟨rfl, rfl, rfl, rfl⟩, rfl, fun _ hopen => hopen⟩

omit [DecidableEq P] in
theorem trySend_sameBooks (s : Shared P R) (channel : Nat) (request : R) :
    SameBooks s (s.trySend channel request) := by
  cases hsend : s.channels.send channel request with
  | none =>
    simp only [trySend, hsend]
    exact s.fail_sameBooks _ _
  | some channels =>
    simp only [trySend, hsend]
    exact ⟨⟨rfl, rfl, rfl, rfl⟩, rfl, fun ch hopen => (Channels.open_send hsend).mp hopen⟩

omit [DecidableEq P] in
theorem dropReceiver_sameBooks (s : Shared P R) (channel : Nat) :
    SameBooks s (s.dropReceiver channel) :=
  ⟨⟨rfl, rfl, rfl, rfl⟩, rfl, fun _ hopen => (Channels.open_close.mp hopen).2⟩

omit [DecidableEq P] in
theorem not_open_dropReceiver (s : Shared P R) (channel : Nat) :
    ¬ (s.dropReceiver channel).channels.Open channel :=
  fun hopen => (Channels.open_close.mp hopen).1 rfl

/-- A peer without a pending channel has nothing to let go of. -/
theorem Releases.refl {s : Shared P R} {peer : P} (h : s.pendingChannels.lookup peer = none) :
    Releases s s peer := by
  refine ⟨⟨rfl, rfl, rfl, rfl⟩, AList.ext ?_, fun ch hopen => ⟨hopen, by simp [h]⟩⟩
  rw [AList.lookup_eq_none, AList.mem_keys] at h
  exact (List.kerase_of_notMem_keys h).symm

/-- Closing the pending channel of a peer lets go of it. -/
theorem releases_of_close {s : Shared P R} {peer : P} {channel : Nat}
    (h : s.pendingChannels.lookup peer = some channel) :
    Releases s { s with pendingChannels := s.pendingChannels.erase peer
                        channels := s.channels.close channel } peer := by
  refine ⟨⟨rfl, rfl, rfl, rfl⟩, rfl, fun ch hopen => ?_⟩
  obtain ⟨hne, hopen⟩ := Channels.open_close.mp hopen
  exact ⟨hopen, fun heq => hne (Option.some.inj (h ▸ heq)).symm⟩

/-- A failed dial lets go of the pending channel. -/
theorem onDialFailure_releases (s : Shared P R) (peer : P) (reason : String) :
    Releases s (s.onDialFailure peer reason) peer := by
  cases h : s.pendingChannels.lookup peer with
  | none =>
    rw [show s.onDialFailure peer reason = s by simp [onDialFailure, h]]
    exact .refl h
  | some channel =>
    simp only [onDialFailure, h]
    exact (releases_of_close h).trans (fail_sameBooks _ _ _)

/-- A skipped dial of a peer with a connection lets go of the pending channel. -/
theorem onDialSkipped_releases {s : Shared P R} {pick : Nat} {peer : P} {sender : Nat}
    (hsender : s.connectedSender pick peer = some sender) :
    Releases s (s.onDialSkipped pick peer) peer := by
  cases h : s.pendingChannels.lookup peer with
  | none =>
    rw [show s.onDialSkipped pick peer = s by simp [onDialSkipped, hsender, h]]
    exact .refl h
  | some channel =>
    simp only [onDialSkipped, hsender, h]
    exact List.foldlRecOn (motive := fun t => Releases s t peer) _ _ (releases_of_close h)
      fun t ht request _ => ht.trans (t.trySend_sameBooks sender request)

/-- A skipped dial of a peer without a connection changes nothing. -/
theorem onDialSkipped_of_none {s : Shared P R} {pick : Nat} {peer : P}
    (hsender : s.connectedSender pick peer = none) : s.onDialSkipped pick peer = s := by
  simp [onDialSkipped, hsender]

omit [DecidableEq P] in
/-- Dropping receivers closes their channels. -/
theorem foldl_dropReceiver (s : Shared P R) (entries : List ((_ : P) × Nat)) :
    SameBooks s (entries.foldl (fun s e => s.dropReceiver e.2) s) ∧
      ∀ e ∈ entries, ¬ (entries.foldl (fun s e => s.dropReceiver e.2) s).channels.Open e.2 := by
  induction entries generalizing s with
  | nil => exact ⟨.refl s, by simp⟩
  | cons e entries ih =>
    obtain ⟨hbooks, hclosed⟩ := ih (s.dropReceiver e.2)
    refine ⟨(s.dropReceiver_sameBooks e.2).trans hbooks, fun e' he' => ?_⟩
    rcases List.mem_cons.mp he' with rfl | he'
    · exact fun hopen => s.not_open_dropReceiver _ (hbooks.channels _ hopen)
    · exact hclosed e' he'

/-- Once the behaviour is dropped, no channel that was pending is open. -/
theorem not_open_onBehaviourDropped {s : Shared P R} {ch : Nat}
    (hopen : s.onBehaviourDropped.channels.Open ch) :
    s.channels.Open ch ∧ ∀ p, s.pendingChannels.lookup p ≠ some ch := by
  obtain ⟨hbooks, hclosed⟩ := s.foldl_dropReceiver s.pendingChannels.entries
  exact ⟨hbooks.channels ch hopen, fun p hp => hclosed ⟨p, ch⟩ (AList.mem_lookup_iff.mp hp) hopen⟩

omit [DecidableEq P] in
/-- Dropping the behaviour leaves the connections and the dials alone. -/
theorem onBehaviourDropped_sameDials (s : Shared P R) : SameDials s s.onBehaviourDropped := by
  have h := (s.foldl_dropReceiver s.pendingChannels.entries).1
  exact ⟨h.connections, h.senders, h.dialQueue, h.dialClosed⟩

/-- A request for a sender queues a dial only if there is no pending channel and the behaviour
has not closed the queue. -/
theorem sender_eq_dials {s t : Shared P R} {pick : Nat} {peer : P}
    (h : s.sender pick peer = .dials t) :
    peer ∉ s.pendingChannels ∧ s.dialClosed = false ∧
      t = { s with dialQueue := s.dialQueue ++ [peer] } := by
  unfold sender at h
  split at h
  · cases h
  · split at h
    · cases h
    · next hpending =>
      split at h
      · cases h
      · next hclosed =>
        cases h
        exact ⟨AList.lookup_eq_none.mp hpending, by simpa using hclosed, rfl⟩

/-- What making a handler does to the shared state: the pending channel of the peer, or a new
one, becomes the channel of the connection. -/
structure Receives (s t : Shared P R) (peer : P) (connection channel : Nat) : Prop where
  connections : t.connections = s.connections
  senders : t.senders = s.senders.insert connection channel
  dialQueue : t.dialQueue = s.dialQueue
  dialClosed : t.dialClosed = s.dialClosed
  pendingChannels : t.pendingChannels = s.pendingChannels.erase peer
  channels : ∀ ch, t.channels.Open ch →
    ch = channel ∨ s.channels.Open ch ∧ s.pendingChannels.lookup peer ≠ some ch

theorem receiver_receives (s : Shared P R) (peer : P) (connection : Nat) :
    Receives s (s.receiver peer connection).1 peer connection (s.receiver peer connection).2 := by
  cases h : s.pendingChannels.lookup peer with
  | some channel =>
    simp only [receiver, h]
    refine ⟨rfl, rfl, rfl, rfl, rfl, fun ch hopen => ?_⟩
    by_cases hch : ch = channel
    · exact .inl hch
    · exact .inr ⟨hopen, fun heq => hch (Option.some.inj (h ▸ heq)).symm⟩
  | none =>
    simp only [receiver, h]
    refine ⟨rfl, rfl, rfl, rfl, (Releases.refl h).pendingChannels, fun ch hopen => ?_⟩
    rcases Channels.open_create.mp hopen with hch | hopen
    · exact .inl hch
    · exact .inr ⟨hopen, by simp [h]⟩

end Shared

end SqdNetwork.Transport
