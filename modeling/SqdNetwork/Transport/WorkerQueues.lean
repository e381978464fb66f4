import SqdNetwork.Transport.WorkerActor

/-!
# Where the streams of a worker are

Each stream waits in the queue that its state says and in no other, once. From this
come what the worker's own code is told, that nothing is told twice, and how full a
queue can be.
-/

namespace SqdNetwork.Transport

open SqdNetwork.Core

/-- The queues a stream can wait in. -/
inductive Place where
  | incoming
  | requests
  | events
  | elsewhere
  deriving DecidableEq

/-- The queue the server's side of a stream is in. -/
def ServerSide.place : ServerSide → Place
  | .incoming => .incoming
  | .queued _ => .requests
  | .reported _ => .events
  | .reading _ | .serving _ | .responding _ | .responded | .dropped => .elsewhere

/-- One byte more than the largest request still has a size. -/
theorem WorkerProtocol.readLimit_maxRequestSize (q : WorkerProtocol) :
    readLimit q.serverConfig.maxRequestSize = q.serverConfig.maxRequestSize.toNat + 1 := by
  cases q <;> decide

namespace Exchange

variable {P : Type} {rules : DropRules} {x : Exchange P}

theorem clientDrop_fields (rules : DropRules) (x : Exchange P)
    (result : Option (Except RequestError (List UInt8))) :
    (x.clientDrop rules result).server = x.server ∧
      (x.clientDrop rules result).handed = x.handed ∧
      (x.clientDrop rules result).peer = x.peer := by
  unfold clientDrop
  dsimp only
  split
  · exact ⟨rfl, rfl, rfl⟩
  · split <;> exact ⟨rfl, rfl, rfl⟩

theorem serverDrop_fields (rules : DropRules) (x : Exchange P) :
    (x.serverDrop rules).server = .dropped ∧ (x.serverDrop rules).handed = x.handed ∧
      (x.serverDrop rules).peer = x.peer := by
  unfold serverDrop
  dsimp only
  split
  · exact ⟨rfl, rfl, rfl⟩
  · split <;> exact ⟨rfl, rfl, rfl⟩

/-- What is queued is the request. -/
theorem Sound.received_of_queued {clientConfig : ClientConfig} {serverConfig : ServerConfig}
    {request : List UInt8} (h : x.Sound clientConfig serverConfig rules)
    (hqueued : x.server = .queued request) : x.Received serverConfig rules request := by
  have := h.server
  simp only [ServerSound, hqueued] at this
  exact this.2.2

/-- A stream goes on where it is, or from outside of the queues to outside of them; who opened it
and what was handed over stays. -/
structure Stays (x y : Exchange P) : Prop where
  server : y.server = x.server ∨
    x.server.place = .elsewhere ∧ y.server.place = .elsewhere
  handed : y.handed = x.handed
  peer : y.peer = x.peer

theorem Stays.refl : Stays x x := ⟨.inl rfl, rfl, rfl⟩

theorem Stays.place {y : Exchange P} (h : Stays x y) : y.server.place = x.server.place := by
  rcases h.server with heq | ⟨hx, hy⟩
  · rw [heq]
  · rw [hx, hy]

theorem stays_clientDrop (result : Option (Except RequestError (List UInt8))) :
    Stays x (x.clientDrop rules result) := by
  obtain ⟨hserver, hhanded, hpeer⟩ := clientDrop_fields rules x result
  exact ⟨.inl hserver, hhanded, hpeer⟩

theorem stays_serverDrop (h : x.server.place = .elsewhere) : Stays x (x.serverDrop rules) := by
  obtain ⟨hserver, hhanded, hpeer⟩ := serverDrop_fields rules x
  exact ⟨.inr ⟨h, by rw [hserver]; rfl⟩, hhanded, hpeer⟩

/-- What happens to a stream outside of the queues leaves it outside of them. -/
theorem stays_step {clientConfig : ClientConfig} {serverConfig : ServerConfig}
    {action : ExchangeAction} (h : action.outside x = true) :
    Stays x (x.step clientConfig serverConfig rules action) := by
  cases action with
  | clientWrite count =>
    simp only [step, Exchange.clientWrite]
    split
    · exact stays_clientDrop _
    · exact ⟨.inl rfl, rfl, rfl⟩
    · exact .refl
  | clientClose =>
    simp only [step, Exchange.clientClose]
    split
    · exact stays_clientDrop _
    · split
      · exact ⟨.inl rfl, rfl, rfl⟩
      · exact .refl
    · exact .refl
  | clientRead count lost =>
    simp only [step, Exchange.clientRead]
    split
    · split
      · exact ⟨.inl rfl, rfl, rfl⟩
      · exact stays_clientDrop _
      · exact stays_clientDrop _
      · exact .refl
    · exact .refl
  | clientLeave timedOut =>
    simp only [step, Exchange.clientLeave]
    split
    · exact .refl
    · exact stays_clientDrop _
  | spawnReadTask => cases h
  | serverRead count lost room => cases h
  | report taken => cases h
  | hand => cases h
  | send data =>
    simp only [step, Exchange.send]
    split
    · next hserver =>
      split
      · exact stays_serverDrop (by rw [hserver]; rfl)
      · exact ⟨.inr ⟨by rw [hserver]; rfl, rfl⟩, rfl, rfl⟩
    · exact .refl
  | serverWrite count =>
    simp only [step, Exchange.serverWrite]
    split
    · next hserver _ => exact stays_serverDrop (by rw [hserver]; rfl)
    · exact ⟨.inl rfl, rfl, rfl⟩
    · exact .refl
  | serverClose =>
    simp only [step, Exchange.serverClose]
    split
    · next hserver _ => exact stays_serverDrop (by rw [hserver]; rfl)
    · next hserver _ =>
      split
      · exact ⟨.inr ⟨by rw [hserver]; rfl, rfl⟩, rfl, rfl⟩
      · exact .refl
    · exact .refl
  | serverDrop =>
    have helsewhere : x.server.place = .elsewhere := by
      cases hserver : x.server with
      | reading => rfl
      | serving => rfl
      | responding => rfl
      | _ => simp [ExchangeAction.outside, hserver] at h
    simp only [step, Exchange.serverLeave]
    split
    · exact .refl
    · exact .refl
    · exact stays_serverDrop helsewhere
  | disconnect kind => exact ⟨.inl rfl, rfl, rfl⟩

/-- Reading a request leaves a stream outside of the queues. -/
theorem stays_readBytes (config : ServerConfig) (count : Nat) (lost : Bool) :
    Stays x (x.readBytes config rules count lost).1 := by
  unfold readBytes
  split
  · next hserver =>
    have helsewhere : x.server.place = .elsewhere := by rw [hserver]; rfl
    split
    · exact ⟨.inr ⟨helsewhere, rfl⟩, rfl, rfl⟩
    · split
      · exact stays_serverDrop helsewhere
      · exact .refl
    · exact stays_serverDrop helsewhere
    · exact .refl
  · exact .refl

end Exchange

section Events

variable {P : Type} {protocol : WorkerProtocol} {req : Request P} {e : WorkerEvent P}

/-- Queries that are told to the worker are not empty. -/
def WorkerEvent.Admissible (e : WorkerEvent P) : Prop :=
  e.protocol = .query ∨ e.protocol = .sqlQuery → e.request ≠ []

/-- An event says what the request says. -/
theorem onInnerEvent_eq_some (h : onInnerEvent protocol req = some e) :
    e.protocol = protocol ∧ e.peerId = req.peerId ∧ e.stream = req.responseSender.stream ∧
      (protocol = .status ∧ e.request = [] ∨ e.request = req.request) ∧ e.Admissible := by
  cases protocol with
  | query =>
    simp only [onInnerEvent, onQuery] at h
    split at h
    · cases h
    · next hne =>
      cases h
      exact ⟨rfl, rfl, rfl, .inr rfl, fun _ => hne⟩
  | sqlQuery =>
    simp only [onInnerEvent, onSqlQuery] at h
    split at h
    · cases h
    · next hne =>
      cases h
      exact ⟨rfl, rfl, rfl, .inr rfl, fun _ => hne⟩
  | logs =>
    cases h
    exact ⟨rfl, rfl, rfl, .inr rfl, nofun⟩
  | status =>
    cases h
    exact ⟨rfl, rfl, rfl, .inl ⟨rfl, rfl⟩, nofun⟩

end Events

namespace Worker

variable {P : Type} {clientConfig : WorkerProtocol → ClientConfig} {rules : DropRules}
  {w : Worker P}

/-- A stream of a server, at a place. -/
def At (protocol : WorkerProtocol) (place : Place) (s : WorkerProtocol × Exchange P) : Prop :=
  s.1 = protocol ∧ s.2.server.place = place

/-- The stream has the protocol and meets a condition. -/
def Has (streams : List (WorkerProtocol × Exchange P)) (i : Nat) (protocol : WorkerProtocol)
    (Q : Exchange P → Prop) : Prop :=
  ∃ x, streams[i]? = some (protocol, x) ∧ Q x

/-- Every stream is in the queue that its state says, with what the queue has on it. -/
structure Placed (clientConfig : WorkerProtocol → ClientConfig) (rules : DropRules)
    (w : Worker P) : Prop where
  sound : ∀ s ∈ w.streams, s.2.Sound (clientConfig s.1) s.1.serverConfig rules
  incoming : ∀ protocol, Holds w.streams (At protocol .incoming)
    (w.servers protocol).incoming.queue
  requests : ∀ protocol, Holds w.streams (At protocol .requests)
    ((w.servers protocol).requests.queue.map (·.responseSender.stream))
  events : Holds w.streams (fun s => s.2.server.place = .events) (w.events.queue.map (·.stream))
  request : ∀ protocol, ∀ req ∈ (w.servers protocol).requests.queue,
    Has w.streams req.responseSender.stream protocol fun x =>
      x.server = .queued req.request ∧ x.peer = req.peerId
  event : ∀ e ∈ w.events.queue, e.Admissible ∧ Has w.streams e.stream e.protocol fun x =>
    x.server = .reported e.request ∧ x.peer = e.peerId
  consumed : ∀ e ∈ w.consumed, e.Admissible ∧ Has w.streams e.stream e.protocol fun x =>
    x.handed = some e.request ∧ x.peer = e.peerId
  once : (w.consumed.map (·.stream)).Nodup
  told : ∀ (i : Nat) (s : WorkerProtocol × Exchange P), w.streams[i]? = some s →
    s.2.handed.isSome = true → ∃ e ∈ w.consumed, e.stream = i

theorem placed_start (eventsQueueSize : ℕ+) :
    (start eventsQueueSize : Worker P).Placed clientConfig rules where
  sound _ hs := absurd hs List.not_mem_nil
  incoming _ := holds_nil
  requests _ := holds_nil
  events := holds_nil
  request _ _ hreq := absurd hreq List.not_mem_nil
  event _ he := absurd he List.not_mem_nil
  consumed _ he := absurd he List.not_mem_nil
  once := List.nodup_nil
  told i s hi := by
    change ([] : List (WorkerProtocol × Exchange P))[i]? = some s at hi
    cases hi

section Has

variable {streams : List (WorkerProtocol × Exchange P)} {i j : Nat}
  {protocol q : WorkerProtocol} {x y : Exchange P} {Q : Exchange P → Prop}

theorem Has.append (h : Has streams j protocol Q) (s : WorkerProtocol × Exchange P) :
    Has (streams ++ [s]) j protocol Q := by
  obtain ⟨x, hx, hQ⟩ := h
  exact ⟨x, getElem?_concat_iff.mpr (.inl hx), hQ⟩

/-- What is known of a stream stays known when a stream changes that keeps it. -/
theorem Has.set (h : Has streams j protocol Q) (hi : streams[i]? = some (q, x))
    (hQ : j = i → Q x → Q y) : Has (streams.set i (q, y)) j protocol Q := by
  obtain ⟨z, hz, hQz⟩ := h
  by_cases hij : j = i
  · subst hij
    obtain ⟨hj, -⟩ := List.getElem?_eq_some_iff.mp hi
    rw [hi] at hz
    cases hz
    exact ⟨y, List.getElem?_set_self hj, hQ rfl hQz⟩
  · exact ⟨z, by rw [List.getElem?_set_ne (Ne.symm hij)]; exact hz, hQz⟩

theorem Has.map (h : Has streams j protocol Q)
    {f : WorkerProtocol × Exchange P → WorkerProtocol × Exchange P}
    (hf : ∀ s, (f s).1 = s.1) (hQ : ∀ s, Q s.2 → Q (f s).2) :
    Has (streams.map f) j protocol Q := by
  obtain ⟨x, hx, hQx⟩ := h
  refine ⟨(f (protocol, x)).2, ?_, hQ _ hQx⟩
  rw [List.getElem?_map, hx, Option.map_some]
  exact congrArg some (Prod.ext (hf _) rfl)

end Has

section Step

variable {i : Nat} {protocol : WorkerProtocol} {x y : Exchange P}

theorem Placed.sound_of (h : w.Placed clientConfig rules)
    (hi : w.streams[i]? = some (protocol, x)) :
    x.Sound (clientConfig protocol) protocol.serverConfig rules :=
  h.sound _ (List.mem_of_getElem? hi)

/-- One stream changes and stays sound. -/
theorem Placed.sound_set (h : w.Placed clientConfig rules)
    (hy : y.Sound (clientConfig protocol) protocol.serverConfig rules) :
    ∀ s ∈ w.streams.set i (protocol, y), s.2.Sound (clientConfig s.1) s.1.serverConfig rules := by
  intro s hs
  rcases List.mem_or_eq_of_mem_set hs with hmem | rfl
  · exact h.sound s hmem
  · exact hy

/-- One stream changes, and what was handed over with it does not. -/
theorem Placed.told_set (h : w.Placed clientConfig rules)
    (hi : w.streams[i]? = some (protocol, x)) (hhanded : y.handed = x.handed) :
    ∀ (j : Nat) (s : WorkerProtocol × Exchange P),
      (w.streams.set i (protocol, y))[j]? = some s → s.2.handed.isSome = true →
      ∃ e ∈ w.consumed, e.stream = j := by
  intro j s hj hsome
  rcases getElem?_set_cases hj with ⟨rfl, rfl⟩ | ⟨-, hj⟩
  · exact h.told j _ hi (hhanded ▸ hsome)
  · exact h.told j s hj hsome

theorem Placed.told_append (h : w.Placed clientConfig rules) (hhanded : y.handed = none) :
    ∀ (j : Nat) (s : WorkerProtocol × Exchange P),
      (w.streams ++ [(protocol, y)])[j]? = some s → s.2.handed.isSome = true →
      ∃ e ∈ w.consumed, e.stream = j := by
  intro j s hj hsome
  rcases getElem?_concat_iff.mp hj with hj | ⟨-, rfl⟩
  · exact h.told j s hj hsome
  · rw [hhanded] at hsome
    cases hsome

/-- A stream goes on where it is. -/
theorem Placed.stay (h : w.Placed clientConfig rules) (hi : w.streams[i]? = some (protocol, x))
    (hy : y.Sound (clientConfig protocol) protocol.serverConfig rules) (hstays : x.Stays y) :
    (w.setStream i (protocol, y)).Placed clientConfig rules := by
  have hat : ∀ (q : WorkerProtocol) (place : Place), At q place (protocol, y) ↔
      At q place (protocol, x) := by
    intro q place
    simp only [At, hstays.place]
  refine ⟨h.sound_set hy, fun q => (h.incoming q).set hi (hat q _),
    fun q => (h.requests q).set hi (hat q _), h.events.set hi (by simp only [hstays.place]),
    ?_, ?_, ?_, h.once, h.told_set hi hstays.handed⟩
  · refine fun q req hreq => (h.request q req hreq).set hi fun _ hQ => ?_
    rcases hstays.server with heq | ⟨hplace, -⟩
    · exact ⟨heq.trans hQ.1, hstays.peer.trans hQ.2⟩
    · rw [hQ.1] at hplace
      cases hplace
  · refine fun e he => ⟨(h.event e he).1, (h.event e he).2.set hi fun _ hQ => ?_⟩
    rcases hstays.server with heq | ⟨hplace, -⟩
    · exact ⟨heq.trans hQ.1, hstays.peer.trans hQ.2⟩
    · rw [hQ.1] at hplace
      cases hplace
  · exact fun e he => ⟨(h.consumed e he).1, (h.consumed e he).2.set hi fun _ hQ =>
      ⟨hstays.handed.trans hQ.1, hstays.peer.trans hQ.2⟩⟩

@[simp] theorem incoming_setIncoming (w : Worker P) (incoming : Mailbox Nat)
    (q : WorkerProtocol) : ((w.setIncoming protocol incoming).servers q).incoming =
      if q = protocol then incoming else (w.servers q).incoming := by
  by_cases hq : q = protocol
  · subst hq
    simp [setIncoming]
  · simp [setIncoming, hq]

@[simp] theorem requests_setIncoming (w : Worker P) (incoming : Mailbox Nat)
    (q : WorkerProtocol) :
    ((w.setIncoming protocol incoming).servers q).requests = (w.servers q).requests := by
  by_cases hq : q = protocol
  · subst hq
    simp [setIncoming]
  · simp [setIncoming, hq]

@[simp] theorem requests_setRequests (w : Worker P) (requests : Mailbox (Request P))
    (q : WorkerProtocol) : ((w.setRequests protocol requests).servers q).requests =
      if q = protocol then requests else (w.servers q).requests := by
  by_cases hq : q = protocol
  · subst hq
    simp [setRequests]
  · simp [setRequests, hq]

@[simp] theorem incoming_setRequests (w : Worker P) (requests : Mailbox (Request P))
    (q : WorkerProtocol) :
    ((w.setRequests protocol requests).servers q).incoming = (w.servers q).incoming := by
  by_cases hq : q = protocol
  · subst hq
    simp [setRequests]
  · simp [setRequests, hq]

theorem Placed.exchange (h : w.Placed clientConfig rules) (i : Nat) (action : ExchangeAction) :
    (w.exchange clientConfig rules i action).Placed clientConfig rules := by
  unfold Worker.exchange
  split
  · exact h
  · next protocol x hi =>
    split
    · next houtside =>
      exact h.stay hi ((h.sound_of hi).step action) (Exchange.stays_step houtside)
    · exact h

theorem Placed.sound_append (h : w.Placed clientConfig rules)
    (hy : y.Sound (clientConfig protocol) protocol.serverConfig rules) :
    ∀ s ∈ w.streams ++ [(protocol, y)],
      s.2.Sound (clientConfig s.1) s.1.serverConfig rules := by
  intro s hs
  rcases List.mem_append.mp hs with hmem | hmem
  · exact h.sound s hmem
  · rw [List.mem_singleton.mp hmem]
    exact hy

/-- A stream is opened, in the buffer of its server or dropped. -/
theorem Placed.openStream (h : w.Placed clientConfig rules) (protocol : WorkerProtocol) (peer : P)
    (request : List UInt8) :
    (w.openStream rules protocol peer request).Placed clientConfig rules := by
  have hopened : (Exchange.opened peer request).Sound (clientConfig protocol)
      protocol.serverConfig rules := Exchange.sound_opened peer request
  unfold Worker.openStream
  split
  · next incoming hsent =>
    obtain ⟨-, -, -, -, hqueue⟩ := Mailbox.trySend_eq_ok.mp hsent
    refine ⟨h.sound_append hopened, fun q => ?_, fun q => ?_, ?_, fun q req hreq => ?_,
      fun e he => ⟨(h.event e he).1, (h.event e he).2.append _⟩,
      fun e he => ⟨(h.consumed e he).1, (h.consumed e he).2.append _⟩, h.once,
      h.told_append rfl⟩
    · rw [incoming_setIncoming]
      split
      · next hq =>
        subst hq
        rw [hqueue]
        exact (h.incoming q).append_here ⟨rfl, rfl⟩
      · next hq => exact (h.incoming q).append_elsewhere fun hat => hq hat.1.symm
    · rw [requests_setIncoming]
      exact (h.requests q).append_elsewhere fun hat => by cases hat.2
    · exact h.events.append_elsewhere nofun
    · rw [requests_setIncoming] at hreq
      exact (h.request q req hreq).append _
  · have hdropped := hopened.serverDrop nofun
    obtain ⟨hserver, hhanded, -⟩ :=
      Exchange.serverDrop_fields rules (Exchange.opened peer request)
    have helsewhere : ((Exchange.opened peer request).serverDrop rules).server.place =
        .elsewhere := by
      rw [hserver]
      rfl
    refine ⟨h.sound_append hdropped, fun q => (h.incoming q).append_elsewhere ?_,
      fun q => (h.requests q).append_elsewhere ?_, h.events.append_elsewhere ?_,
      fun q req hreq => (h.request q req hreq).append _,
      fun e he => ⟨(h.event e he).1, (h.event e he).2.append _⟩,
      fun e he => ⟨(h.consumed e he).1, (h.consumed e he).2.append _⟩, h.once,
      h.told_append hhanded⟩
    all_goals
      simp [At, helsewhere]

/-- A task that has read its request puts it into the queue. -/
theorem Placed.enqueue (h : w.Placed clientConfig rules) {requests : Mailbox (Request P)}
    {request buf : List UInt8} {size : UInt64} (hi : w.streams[i]? = some (protocol, x))
    (hreading : x.server = .reading buf)
    (hqueue : requests.queue =
      (w.servers protocol).requests.queue ++ [⟨x.peer, request, ⟨i, size⟩⟩])
    (hy : ({ x with server := .queued request } : Exchange P).Sound (clientConfig protocol)
      protocol.serverConfig rules) :
    ((w.setRequests protocol requests).setStream i
      (protocol, { x with server := .queued request })).Placed clientConfig rules := by
  refine ⟨h.sound_set hy, fun q => ?_, fun q => ?_, ?_, fun q req hreq => ?_, fun e he => ?_,
    fun e he => ?_, h.once, h.told_set hi rfl⟩
  · refine (incoming_setRequests w requests q).symm ▸ (h.incoming q).set hi ?_
    simp [At, hreading, ServerSide.place]
  · change Holds _ _ (((w.setRequests protocol requests).servers q).requests.queue.map _)
    rw [requests_setRequests]
    split
    · next hq =>
      subst hq
      rw [hqueue, List.map_append]
      exact (h.requests q).enter hi (by simp [At, hreading, ServerSide.place]) ⟨rfl, rfl⟩
    · next hq => exact (h.requests q).set hi (by simp [At, Ne.symm hq])
  · exact h.events.set hi (by simp [hreading, ServerSide.place])
  · change req ∈ ((w.setRequests protocol requests).servers q).requests.queue at hreq
    rw [requests_setRequests] at hreq
    have hold : ∀ req ∈ (w.servers q).requests.queue,
        Has (w.streams.set i (protocol, { x with server := .queued request }))
          req.responseSender.stream q fun x => x.server = .queued req.request ∧
            x.peer = req.peerId := by
      refine fun req hreq => (h.request q req hreq).set hi fun _ hQ => ?_
      rw [hreading] at hQ
      cases hQ.1
    split at hreq
    · next hq =>
      subst hq
      rw [hqueue, List.mem_append, List.mem_singleton] at hreq
      rcases hreq with hreq | rfl
      · exact hold req hreq
      · have hlt := (List.getElem?_eq_some_iff.mp hi).1
        exact ⟨_, List.getElem?_set_self hlt, rfl, rfl⟩
    · exact hold req hreq
  · refine ⟨(h.event e he).1, (h.event e he).2.set hi fun _ hQ => ?_⟩
    rw [hreading] at hQ
    cases hQ.1
  · exact ⟨(h.consumed e he).1, (h.consumed e he).2.set hi fun _ hQ => hQ⟩

theorem Placed.read (h : w.Placed clientConfig rules) (i count : Nat) (lost : Bool) :
    (w.read rules i count lost).Placed clientConfig rules := by
  unfold Worker.read
  split
  · exact h
  · next protocol x hi =>
    obtain ⟨hsound, hgiven⟩ := (h.sound_of hi).readBytes count lost
    have hstays : x.Stays (x.readBytes protocol.serverConfig rules count lost).1 :=
      Exchange.stays_readBytes protocol.serverConfig count lost
    split
    · next y hy =>
      rw [hy] at hsound hstays
      exact h.stay hi hsound hstays
    · next y request hy =>
      rw [hy] at hgiven hsound
      obtain ⟨hsame, ⟨buf, hreading⟩, hhanded, hresponse, hreceived⟩ := hgiven request rfl
      obtain rfl : y = x := hsame
      have hresponded : y.server ≠ .responded := by simp [hreading]
      dsimp only
      split
      · next requests hsent =>
        obtain ⟨-, -, -, -, hqueue⟩ := Mailbox.trySend_eq_ok.mp hsent
        refine h.enqueue hi hreading hqueue ?_
        exact hsound.advance hresponded (by simp [hreading]) rfl rfl rfl rfl rfl hsound.received
          hsound.fits (.inl rfl) ⟨hhanded, hresponse, hreceived⟩
      · exact h.stay hi (hsound.serverDrop hresponded)
          (Exchange.stays_serverDrop (by rw [hreading]; rfl))

theorem modifyStream_eq {f : Exchange P → Exchange P}
    (hi : w.streams[i]? = some (protocol, x)) :
    w.modifyStream i f = w.setStream i (protocol, f x) := by
  unfold modifyStream setStream
  rw [List.modify_eq_set_getElem?, hi]
  rfl

/-- An inbound stream gets its task. -/
theorem Placed.spawnReadTask (h : w.Placed clientConfig rules) (protocol : WorkerProtocol) :
    (w.spawnReadTask protocol).Placed clientConfig rules := by
  unfold Worker.spawnReadTask
  split
  · exact h
  · next i queue hqueue =>
    have hholds := h.incoming protocol
    rw [hqueue] at hholds
    obtain ⟨⟨q, x⟩, hi, hq, hplace⟩ := hholds.front
    obtain rfl : q = protocol := hq
    have hincoming : x.server = .incoming := by
      cases hserver : x.server with
      | incoming => rfl
      | _ => simp [hserver, ServerSide.place] at hplace
    have hy : x.spawnReadTask = { x with server := .reading [] } := by
      simp only [Exchange.spawnReadTask, hincoming]
    have hsound := (h.sound_of hi).spawnReadTask
    rw [hy] at hsound
    rw [modifyStream_eq (w := w.setIncoming q (w.servers q).incoming.receive) hi, hy]
    refine ⟨h.sound_set hsound, fun p => ?_, fun p => ?_, ?_, fun p req hreq => ?_,
      fun e he => ?_, fun e he => ?_, h.once, h.told_set hi rfl⟩
    · change Holds _ _ ((w.setIncoming q _).servers p).incoming.queue
      rw [incoming_setIncoming]
      split
      · next hp =>
        subst hp
        rw [Mailbox.queue_receive hqueue]
        exact hholds.leave (by simp [At, ServerSide.place])
      · next hp => exact (h.incoming p).set hi (by simp [At, Ne.symm hp])
    · change Holds _ _ (((w.setIncoming q _).servers p).requests.queue.map _)
      rw [requests_setIncoming]
      exact (h.requests p).set hi (by simp [At, hincoming, ServerSide.place])
    · exact h.events.set hi (by simp [hincoming, ServerSide.place])
    · change req ∈ ((w.setIncoming q _).servers p).requests.queue at hreq
      rw [requests_setIncoming] at hreq
      refine (h.request p req hreq).set hi fun _ hQ => ?_
      rw [hincoming] at hQ
      cases hQ.1
    · refine ⟨(h.event e he).1, (h.event e he).2.set hi fun _ hQ => ?_⟩
      rw [hincoming] at hQ
      cases hQ.1
    · exact ⟨(h.consumed e he).1, (h.consumed e he).2.set hi fun _ hQ => hQ⟩

/-- A request leaves its queue for the queue of events, or is dropped. -/
theorem Placed.dequeue (h : w.Placed clientConfig rules) {req : Request P}
    {queue : List (Request P)} (hqueue : (w.servers protocol).requests.queue = req :: queue)
    (hi : w.streams[req.responseSender.stream]? = some (protocol, x))
    (hy : y.Sound (clientConfig protocol) protocol.serverConfig rules)
    (hhanded : y.handed = x.handed) (hpeer : y.peer = x.peer)
    (hincoming : y.server.place ≠ .incoming) (hrequests : y.server.place ≠ .requests)
    (events : Mailbox (WorkerEvent P))
    (hevents : y.server.place ≠ .events ∧ events.queue = w.events.queue ∨
      y.server.place = .events ∧ ∃ e : WorkerEvent P, events.queue = w.events.queue ++ [e] ∧
        e.protocol = protocol ∧ e.stream = req.responseSender.stream ∧ e.Admissible ∧
        y.server = .reported e.request ∧ y.peer = e.peerId) :
    Placed clientConfig rules
      { (w.setRequests protocol (w.servers protocol).requests.receive).setStream
          req.responseSender.stream (protocol, y) with events } := by
  have hholds := h.requests protocol
  rw [hqueue, List.map_cons] at hholds
  obtain ⟨z, hz, hqueued, -⟩ := h.request protocol req (hqueue ▸ List.mem_cons_self)
  rw [hi] at hz
  cases hz
  have hplace : x.server.place = .requests := by
    rw [hqueued]
    rfl
  have hold : ∀ e ∈ w.events.queue, e.Admissible ∧
      Has (w.streams.set req.responseSender.stream (protocol, y)) e.stream e.protocol
        fun x => x.server = .reported e.request ∧ x.peer = e.peerId := by
    refine fun e he => ⟨(h.event e he).1, (h.event e he).2.set hi fun _ hQ => ?_⟩
    rw [hqueued] at hQ
    cases hQ.1
  refine ⟨h.sound_set hy, fun q => ?_, fun q => ?_, ?_, fun q r hr => ?_, fun e he => ?_,
    fun e he => ?_, h.once, h.told_set hi hhanded⟩
  · refine (incoming_setRequests w _ q).symm ▸ (h.incoming q).set hi ?_
    simp [At, hplace, hincoming]
  · change Holds _ _ (((w.setRequests protocol _).servers q).requests.queue.map _)
    rw [requests_setRequests]
    split
    · next hq =>
      subst hq
      rw [Mailbox.queue_receive hqueue]
      exact hholds.leave (by simp [At, hrequests])
    · next hq => exact (h.requests q).set hi (by simp [At, Ne.symm hq])
  · rcases hevents with ⟨hne, hsame⟩ | ⟨heq, e, hadded, -, hstream, -⟩
    · rw [hsame]
      exact h.events.set hi (by simp [hplace, hne])
    · rw [hadded, List.map_append, List.map_singleton, hstream]
      exact h.events.enter hi (by simp [hplace]) heq
  · change r ∈ ((w.setRequests protocol _).servers q).requests.queue at hr
    rw [requests_setRequests] at hr
    split at hr
    · next hq =>
      subst hq
      rw [Mailbox.queue_receive hqueue] at hr
      refine (h.request q r (hqueue ▸ List.mem_cons_of_mem _ hr)).set hi fun hsame => ?_
      exact absurd (hsame ▸ List.mem_map_of_mem hr) (List.nodup_cons.mp hholds.nodup).1
    · next hq =>
      obtain ⟨z, hz, -⟩ := h.request q r hr
      refine (h.request q r hr).set hi fun hsame => ?_
      rw [hsame, hi] at hz
      exact absurd (congrArg Prod.fst (Option.some.inj hz)).symm hq
  · rcases hevents with ⟨-, hsame⟩ | ⟨-, e', hadded, hprotocol, hstream, hadmissible, hreported⟩
    · exact hold e (hsame ▸ he)
    · have hmem : e ∈ w.events.queue ++ [e'] := hadded ▸ he
      rw [List.mem_append, List.mem_singleton] at hmem
      rcases hmem with hmem | rfl
      · exact hold e hmem
      · refine ⟨hadmissible, y, ?_, hreported⟩
        rw [hstream, hprotocol]
        exact List.getElem?_set_self (List.getElem?_eq_some_iff.mp hi).1
  · exact ⟨(h.consumed e he).1, (h.consumed e he).2.set hi fun _ hQ =>
      ⟨hhanded.trans hQ.1, hpeer.trans hQ.2⟩⟩

/-- A request becomes an event that says the same, or is dropped. -/
theorem Placed.report (h : w.Placed clientConfig rules) (protocol : WorkerProtocol) :
    (w.report rules protocol).Placed clientConfig rules := by
  unfold Worker.report
  split
  · exact h
  · next req queue hqueue =>
    obtain ⟨x, hi, hqueued, hpeer⟩ := h.request protocol req (hqueue ▸ List.mem_cons_self)
    have hsound := h.sound_of hi
    have htaken : x.report rules true = { x with server := .reported req.request } := by
      simp only [Exchange.report, hqueued, if_true]
    have hdropped : x.report rules false = x.serverDrop rules := by
      simp [Exchange.report, hqueued]
    have hdrop : Placed clientConfig rules
        ((w.setRequests protocol (w.servers protocol).requests.receive).modifyStream
          req.responseSender.stream (·.report rules false)) := by
      rw [modifyStream_eq (w := w.setRequests protocol _) hi, hdropped]
      obtain ⟨hserver, hhanded, hpeer⟩ := Exchange.serverDrop_fields rules x
      exact h.dequeue hqueue hi (hsound.serverDrop (by simp [hqueued])) hhanded hpeer
        (by simp [hserver, ServerSide.place]) (by simp [hserver, ServerSide.place]) w.events
        (.inl ⟨by simp [hserver, ServerSide.place], rfl⟩)
    dsimp only
    split
    · next events hsome =>
      obtain ⟨e, he, hsent⟩ := Option.map_eq_some_iff.mp hsome
      obtain ⟨hprotocol, hpeerId, hstream, hrequest, hadmissible⟩ := onInnerEvent_eq_some he
      obtain ⟨-, -, -, -, hadded⟩ := Mailbox.trySend_eq_ok.mp hsent
      have hsame : e.request = req.request := by
        rcases hrequest with ⟨rfl, hempty⟩ | hsame
        · have hsize := hsound.received_of_queued hqueued
          rw [hempty, List.length_eq_zero_iff.mp (Nat.le_zero.mp hsize.2.1)]
        · exact hsame
      have hreported := hsound.report true
      rw [htaken] at hreported
      rw [modifyStream_eq (w := w.setRequests protocol _) hi, htaken]
      exact h.dequeue hqueue hi hreported rfl rfl nofun nofun events
        (.inr ⟨rfl, e, hadded, hprotocol, hstream, hadmissible, by rw [hsame],
          hpeer.trans hpeerId.symm⟩)
    · exact hdrop
    · exact hdrop

/-- An event is taken, for the first time. -/
theorem Placed.next (h : w.Placed clientConfig rules) : w.next.Placed clientConfig rules := by
  unfold Worker.next
  split
  · exact h
  · next e queue hqueue =>
    have hholds := h.events
    rw [hqueue, List.map_cons] at hholds
    obtain ⟨hadmissible, x, hi, hreported, hpeer⟩ := h.event e (hqueue ▸ List.mem_cons_self)
    have hsound := h.sound_of hi
    have hhand : x.hand = { x with server := .serving e.request, handed := some e.request } := by
      simp only [Exchange.hand, hreported]
    have hnever : x.handed = none := by
      have := hsound.server
      simp only [Exchange.ServerSound, hreported] at this
      exact this.1
    have hnew : ∀ e' ∈ w.consumed, e'.stream ≠ e.stream := by
      intro e' he' hsame
      obtain ⟨-, z, hz, hhanded, -⟩ := h.consumed e' he'
      rw [hsame, hi] at hz
      obtain rfl : x = z := congrArg Prod.snd (Option.some.inj hz)
      rw [hnever] at hhanded
      cases hhanded
    have hserving := hsound.hand
    rw [hhand] at hserving
    rw [modifyStream_eq (w := { w with events := w.events.receive, consumed := w.consumed ++ [e] })
      hi, hhand]
    refine ⟨h.sound_set hserving,
      fun q => (h.incoming q).set hi (by simp [At, hreported, ServerSide.place]),
      fun q => (h.requests q).set hi (by simp [At, hreported, ServerSide.place]), ?_,
      fun q req hreq => (h.request q req hreq).set hi fun _ hQ => ?_, fun e' he' => ?_,
      fun e' he' => ?_, ?_, fun j s hj hsome => ?_⟩
    · change Holds _ _ (w.events.receive.queue.map _)
      rw [Mailbox.queue_receive hqueue]
      exact hholds.leave (by simp [ServerSide.place])
    · rw [hreported] at hQ
      cases hQ.1
    · change e' ∈ w.events.receive.queue at he'
      rw [Mailbox.queue_receive hqueue] at he'
      obtain ⟨hadm, hhas⟩ := h.event e' (hqueue ▸ List.mem_cons_of_mem _ he')
      refine ⟨hadm, hhas.set hi fun hsame => ?_⟩
      exact absurd (hsame ▸ List.mem_map_of_mem he') (List.nodup_cons.mp hholds.nodup).1
    · rcases List.mem_append.mp he' with hmem | hmem
      · exact ⟨(h.consumed e' hmem).1, (h.consumed e' hmem).2.set hi fun hsame =>
          absurd hsame (hnew e' hmem)⟩
      · rw [List.mem_singleton.mp hmem]
        have hlt := (List.getElem?_eq_some_iff.mp hi).1
        exact ⟨hadmissible, _, List.getElem?_set_self hlt, rfl, hpeer⟩
    · change ((w.consumed ++ [e]).map (·.stream)).Nodup
      rw [List.map_append, List.nodup_append]
      refine ⟨h.once, List.nodup_singleton _, ?_⟩
      intro i hmem j hj
      obtain ⟨e', he', rfl⟩ := List.mem_map.mp hmem
      rw [List.map_singleton, List.mem_singleton] at hj
      exact hj ▸ hnew e' he'
    · rcases getElem?_set_cases hj with ⟨rfl, -⟩ | ⟨-, hj⟩
      · exact ⟨e, List.mem_append_right _ (List.mem_singleton_self e), rfl⟩
      · obtain ⟨e', he', hstream⟩ := h.told j s hj hsome
        exact ⟨e', List.mem_append_left _ he', hstream⟩

/-- The streams at some places are dropped, and the queues of these places go. -/
theorem Placed.dropAt (h : w.Placed clientConfig rules)
    {f : WorkerProtocol × Exchange P → WorkerProtocol × Exchange P} (gone : Place → Bool)
    (helsewhere : gone .elsewhere = false)
    (hf : ∀ s, f s = if gone s.2.server.place then (s.1, s.2.serverDrop rules) else s)
    {servers : WorkerProtocol → ServerBehaviour P} {events : Mailbox (WorkerEvent P)}
    (hincoming : ∀ q, (servers q).incoming.queue =
      if gone .incoming then [] else (w.servers q).incoming.queue)
    (hrequests : ∀ q, (servers q).requests.queue =
      if gone .requests then [] else (w.servers q).requests.queue)
    (hevents : events.queue = if gone .events then [] else w.events.queue) :
    Placed clientConfig rules { w with streams := w.streams.map f, servers, events } := by
  have hprotocol : ∀ s, (f s).1 = s.1 := by
    intro s
    rw [hf]
    split <;> rfl
  have hplace : ∀ (place : Place), place ≠ .elsewhere → ∀ s, (f s).2.server.place = place ↔
      gone place = false ∧ s.2.server.place = place := by
    intro place hne s
    rw [hf]
    split
    · next hgone =>
      rw [(Exchange.serverDrop_fields rules s.2).1]
      refine iff_of_false hne.symm fun hand => ?_
      rw [hand.2, hand.1] at hgone
      cases hgone
    · next hstays =>
      refine ⟨fun heq => ⟨?_, heq⟩, fun hand => hand.2⟩
      rw [← heq]
      exact Bool.eq_false_iff.mpr hstays
  have hsame : ∀ s, gone s.2.server.place = false → (f s).2 = s.2 := by
    intro s hgone
    rw [hf, hgone]
    rfl
  refine ⟨?_, fun q => ?_, fun q => ?_, ?_, fun q req hreq => ?_, fun e he => ?_, fun e he => ?_,
    h.once, fun j t ht hsome => ?_⟩
  · intro t ht
    obtain ⟨s, hs, rfl⟩ := List.mem_map.mp ht
    rw [hf]
    split
    · next hgone =>
      refine (h.sound s hs).serverDrop fun heq => ?_
      rw [heq] at hgone
      exact absurd (helsewhere.symm.trans hgone) Bool.false_ne_true
    · exact h.sound s hs
  · change Holds (w.streams.map f) _ (servers q).incoming.queue
    rw [hincoming]
    split
    · next hgone => exact holds_map_nil fun s => by simp [At, hplace, hgone]
    · next hstays =>
      exact (h.incoming q).map fun s => by simp [At, hplace, hprotocol, hstays]
  · change Holds (w.streams.map f) _ ((servers q).requests.queue.map _)
    rw [hrequests]
    split
    · next hgone => exact holds_map_nil fun s => by simp [At, hplace, hgone]
    · next hstays =>
      exact (h.requests q).map fun s => by simp [At, hplace, hprotocol, hstays]
  · change Holds (w.streams.map f) _ (events.queue.map _)
    rw [hevents]
    split
    · next hgone => exact holds_map_nil fun s => by simp [hplace, hgone]
    · next hstays => exact h.events.map fun s => by simp [hplace, hstays]
  · change req ∈ (servers q).requests.queue at hreq
    rw [hrequests] at hreq
    split at hreq
    · cases hreq
    · next hstays =>
      refine (h.request q req hreq).map hprotocol fun s hQ => ?_
      rw [hsame s (by rw [hQ.1]; exact Bool.eq_false_iff.mpr hstays)]
      exact hQ
  · change e ∈ events.queue at he
    rw [hevents] at he
    split at he
    · cases he
    · next hstays =>
      refine ⟨(h.event e he).1, (h.event e he).2.map hprotocol fun s hQ => ?_⟩
      rw [hsame s (by rw [hQ.1]; exact Bool.eq_false_iff.mpr hstays)]
      exact hQ
  · refine ⟨(h.consumed e he).1, (h.consumed e he).2.map hprotocol fun s hQ => ?_⟩
    rw [hf]
    split
    · obtain ⟨-, hhanded, hpeer⟩ := Exchange.serverDrop_fields rules s.2
      exact ⟨hhanded.trans hQ.1, hpeer.trans hQ.2⟩
    · exact hQ
  · obtain ⟨s, hs, rfl⟩ := Option.map_eq_some_iff.mp ((List.getElem?_map ..).symm.trans ht)
    refine h.told j s hs ?_
    rw [hf] at hsome
    split at hsome
    · rwa [(Exchange.serverDrop_fields rules s.2).2.1] at hsome
    · exact hsome

theorem Placed.dropEvents (h : w.Placed clientConfig rules) :
    (w.dropEvents rules).Placed clientConfig rules :=
  h.dropAt (fun place => place = .events) rfl
    (fun s => by cases s.2.server <;> simp [ServerSide.place])
    (fun _ => rfl) (fun _ => rfl) rfl

theorem Placed.stop (h : w.Placed clientConfig rules) :
    (w.stop rules).Placed clientConfig rules :=
  h.dropAt (fun place => place = .incoming || place = .requests) rfl
    (fun s => by cases s.2.server <;> simp [ServerSide.place])
    (fun _ => rfl) (fun _ => rfl) rfl

theorem Placed.poll (h : w.Placed clientConfig rules) (protocol : WorkerProtocol) :
    (w.poll rules protocol).Placed clientConfig rules := by
  refine Placed.report ?_ protocol
  generalize (w.servers protocol).incoming.queue.length = n
  induction n generalizing w with
  | zero => exact h
  | succ n ih => exact ih (h.spawnReadTask protocol)

/-- Every step keeps the streams in their places. -/
theorem Placed.step (h : w.Placed clientConfig rules) (action : WorkerAction P) :
    (w.step clientConfig rules action).Placed clientConfig rules := by
  cases action with
  | openStream protocol peer request => exact h.openStream protocol peer request
  | exchange i action => exact h.exchange i action
  | read i count lost => exact h.read i count lost
  | poll protocol => exact h.poll protocol
  | next => exact h.next
  | dropEvents => exact h.dropEvents
  | stop => exact h.stop

/-- The streams of a worker are in their places throughout every run. -/
theorem placed_run (eventsQueueSize : ℕ+) (actions : List (WorkerAction P)) :
    (actions.foldl (step clientConfig rules) (start eventsQueueSize : Worker P)).Placed
      clientConfig rules :=
  (throughout_of_invariant (I := Placed clientConfig rules) (fun _ action h => h.step action)
    actions (placed_start eventsQueueSize)).last

end Step

section Sizes

variable {eventsQueueSize : ℕ+} {protocol : WorkerProtocol}

/-- The queues keep their sizes. -/
structure Sized (eventsQueueSize : ℕ+) (w : Worker P) : Prop where
  incoming : ∀ q : WorkerProtocol,
    (w.servers q).incoming.slots = q.serverConfig.incomingCapacity + 1
  requests : ∀ q : WorkerProtocol, (w.servers q).requests.slots = q.serverConfig.requestsQueueSize
  events : w.events.slots = eventsQueueSize

theorem Sized.setIncoming (h : w.Sized eventsQueueSize) {incoming : Mailbox Nat}
    (hslots : incoming.slots = (w.servers protocol).incoming.slots) :
    (w.setIncoming protocol incoming).Sized eventsQueueSize := by
  refine ⟨fun q => ?_, fun q => ?_, h.events⟩
  · rw [incoming_setIncoming]
    split
    · next hq =>
      subst hq
      exact hslots.trans (h.incoming q)
    · exact h.incoming q
  · rw [requests_setIncoming]
    exact h.requests q

theorem Sized.setRequests (h : w.Sized eventsQueueSize) {requests : Mailbox (Request P)}
    (hslots : requests.slots = (w.servers protocol).requests.slots) :
    (w.setRequests protocol requests).Sized eventsQueueSize := by
  refine ⟨fun q => ?_, fun q => ?_, h.events⟩
  · rw [incoming_setRequests]
    exact h.incoming q
  · rw [requests_setRequests]
    split
    · next hq =>
      subst hq
      exact hslots.trans (h.requests q)
    · exact h.requests q

/-- Only the queues matter. -/
theorem Sized.of_eq (h : w.Sized eventsQueueSize) {v : Worker P} (hservers : v.servers = w.servers)
    (hevents : v.events.slots = w.events.slots) : v.Sized eventsQueueSize :=
  ⟨fun q => hservers ▸ h.incoming q, fun q => hservers ▸ h.requests q, hevents.trans h.events⟩

theorem Sized.spawnReadTask (h : w.Sized eventsQueueSize) (protocol : WorkerProtocol) :
    (w.spawnReadTask protocol).Sized eventsQueueSize := by
  unfold Worker.spawnReadTask
  split
  · exact h
  · have hleft : (w.setIncoming protocol (w.servers protocol).incoming.receive).Sized
        eventsQueueSize := h.setIncoming rfl
    exact hleft.of_eq rfl rfl

theorem Sized.report (h : w.Sized eventsQueueSize) (protocol : WorkerProtocol) :
    (w.report rules protocol).Sized eventsQueueSize := by
  unfold Worker.report
  split
  · exact h
  · have hleft : (w.setRequests protocol (w.servers protocol).requests.receive).Sized
        eventsQueueSize := h.setRequests rfl
    dsimp only
    split
    · next events hsome =>
      obtain ⟨e, -, hsent⟩ := Option.map_eq_some_iff.mp hsome
      exact hleft.of_eq rfl (Mailbox.trySend_eq_ok.mp hsent).2.2.1
    · exact hleft.of_eq rfl rfl
    · exact hleft.of_eq rfl rfl

theorem Sized.step (h : w.Sized eventsQueueSize) (action : WorkerAction P) :
    (w.step clientConfig rules action).Sized eventsQueueSize := by
  cases action with
  | openStream protocol peer request =>
    simp only [Worker.step, Worker.openStream]
    split
    · next incoming hsent =>
      exact (h.setIncoming (Mailbox.trySend_eq_ok.mp hsent).2.2.1).of_eq rfl rfl
    · exact h.of_eq rfl rfl
  | exchange i action =>
    simp only [Worker.step, Worker.exchange]
    split
    · exact h
    · split
      · exact h.of_eq rfl rfl
      · exact h
  | read i count lost =>
    simp only [Worker.step, Worker.read]
    split
    · exact h
    · split
      · exact h.of_eq rfl rfl
      · split
        · next requests hsent =>
          exact (h.setRequests (Mailbox.trySend_eq_ok.mp hsent).2.2.1).of_eq rfl rfl
        · exact h.of_eq rfl rfl
  | poll protocol =>
    refine Sized.report ?_ protocol
    generalize (w.servers protocol).incoming.queue.length = n
    induction n generalizing w with
    | zero => exact h
    | succ n ih => exact ih (h.spawnReadTask protocol)
  | next =>
    simp only [Worker.step, Worker.next]
    split
    · exact h
    · exact h.of_eq rfl rfl
  | dropEvents => exact h.of_eq rfl rfl
  | stop => exact ⟨h.incoming, h.requests, h.events⟩

theorem sized_run (eventsQueueSize : ℕ+) (actions : List (WorkerAction P)) :
    (actions.foldl (step clientConfig rules) (start eventsQueueSize : Worker P)).Sized
      eventsQueueSize :=
  (throughout_of_invariant (I := Sized eventsQueueSize) (fun _ action h => h.step action) actions
    ⟨fun _ => rfl, fun _ => rfl, rfl⟩).last

end Sizes

section Told

instance instDecidablePredAt (protocol : WorkerProtocol) (place : Place) :
    DecidablePred (At protocol place : WorkerProtocol × Exchange P → Prop) :=
  fun s => inferInstanceAs (Decidable (s.1 = protocol ∧ s.2.server.place = place))

/-- Whatever clients, tasks and the worker's own code do, the queues list each stream that waits
in them once and nothing else. So there are never more streams of a protocol that wait for their
tasks than its buffer has places, and the same holds of the requests and the events. -/
theorem queues_list_waiting_streams_once (eventsQueueSize : ℕ+)
    (actions : List (WorkerAction P)) :
    let w := actions.foldl (step clientConfig rules) (start eventsQueueSize : Worker P)
    (∀ q : WorkerProtocol,
      Holds w.streams (At q .incoming) (w.servers q).incoming.queue ∧
      Holds w.streams (At q .requests) ((w.servers q).requests.queue.map
        (·.responseSender.stream)) ∧
      w.streams.countP (fun s => At q .incoming s) ≤ q.serverConfig.incomingCapacity + 1 ∧
      w.streams.countP (fun s => At q .requests s) ≤ q.serverConfig.requestsQueueSize) ∧
    Holds w.streams (fun s => s.2.server.place = .events) (w.events.queue.map (·.stream)) ∧
    w.streams.countP (fun s => s.2.server.place = .events) ≤ eventsQueueSize := by
  intro w
  have hplaced : w.Placed clientConfig rules := placed_run eventsQueueSize actions
  have hsized : w.Sized eventsQueueSize := sized_run eventsQueueSize actions
  refine ⟨fun q => ⟨hplaced.incoming q, hplaced.requests q, ?_, ?_⟩, hplaced.events, ?_⟩
  · rw [← (hplaced.incoming q).length_eq, ← hsized.incoming q]
    exact (w.servers q).incoming.fits
  · rw [← (hplaced.requests q).length_eq, List.length_map, ← hsized.requests q]
    exact (w.servers q).requests.fits
  · rw [← hplaced.events.length_eq, List.length_map, ← hsized.events]
    exact w.events.fits

/-- A stream that a worker served and a client called on: both sides sent one byte. -/
def sampleCall : List (WorkerAction Nat) :=
  [.openStream .query 7 [1], .poll .query, .exchange 0 (.clientWrite 0), .exchange 0 .clientClose,
    .read 0 0 false, .read 0 0 false, .poll .query, .next, .exchange 0 (.send [9]),
    .exchange 0 (.serverWrite 0), .exchange 0 .serverClose, .exchange 0 (.clientRead 0 false),
    .exchange 0 (.clientRead 0 false)]

/-- The stream after `sampleCall`. -/
def sampleExchange : Exchange Nat where
  peer := 7
  request := [1]
  up := ⟨[1], true, none⟩
  down := ⟨[9], true, none⟩
  client := .ended (some (.ok [9]))
  server := .responded
  handed := some [1]
  response := some [9]

/-- The worker after `sampleCall`, where dropping a stream resets it. -/
def sampleServed : Worker Nat :=
  sampleCall.foldl (step WorkerProtocol.clientConfig ⟨true, true⟩) (start 1)

theorem sampleServed_streams : sampleServed.streams = [(.query, sampleExchange)] := by
  decide +kernel

/-- Every event that the worker's own code takes is a request that a client opened a stream for,
on a stream that no other event is about. It has the client's peer id and protocol, and no more
than the client has sent, in order and within the size limit; where a client that gives up resets
its stream, it has all of it. Queries are never empty. -/
theorem events_are_requests_told_once (eventsQueueSize : ℕ+) (actions : List (WorkerAction P)) :
    let w := actions.foldl (step clientConfig rules) (start eventsQueueSize : Worker P)
    (w.consumed.map (·.stream)).Nodup ∧
      ∀ e ∈ w.consumed, ∃ x, w.streams[e.stream]? = some (e.protocol, x) ∧ x.peer = e.peerId ∧
        e.request <+: x.request ∧
        e.request.length ≤ e.protocol.serverConfig.maxRequestSize.toNat ∧
        (rules.resetsOpen = true → e.request = x.request) ∧
        (e.protocol = .query ∨ e.protocol = .sqlQuery → e.request ≠ []) := by
  intro w
  have hplaced : w.Placed clientConfig rules := placed_run eventsQueueSize actions
  refine ⟨hplaced.once, fun e he => ?_⟩
  obtain ⟨hadmissible, x, hx, hhanded, hpeer⟩ := hplaced.consumed e he
  obtain ⟨hpre, hsize, hwhole⟩ := (hplaced.sound_of hx).received _ hhanded
  exact ⟨x, hx, hpeer, hpre, hsize, hwhole e.protocol.readLimit_maxRequestSize, hadmissible⟩

theorem events_are_requests_told_once_sample :
    sampleServed.consumed.map (·.stream) = [0] ∧
      ∀ e ∈ sampleServed.consumed, ∃ x, sampleServed.streams[e.stream]? = some (e.protocol, x) ∧
        e.request = x.request := by
  refine ⟨by decide +kernel, fun e he => ?_⟩
  obtain ⟨x, hx, -, -, -, hwhole, -⟩ := (events_are_requests_told_once 1 sampleCall).2 e he
  exact ⟨x, hx, hwhole rfl⟩

end Told

end Worker

end SqdNetwork.Transport
