import SqdNetwork.Core.Mailbox
import SqdNetwork.Transport.Codec
import SqdNetwork.Transport.Confidence

/-!
# Collecting the logs of portals

A portal sends each batch of logs to the collectors it knows of, on a stream of its
own and without waiting for an answer. A collector reads the batches and hands them
on through a queue that drops what it has no room for. It advertises itself in the
DHT once it is connected to enough of the network.
-/

namespace SqdNetwork.Transport

open SqdNetwork.Core

def maxLogMsgSize : UInt64 := 257 * 1024
def maxLogResultSize : UInt64 := 0
def maxLogsMsgSize : UInt64 := 25 * 1024 * 1024
def maxLogsResultSize : UInt64 := 0

/-- The protocols a collector serves. -/
inductive LogsProtocol where
  | v1
  | v2
  deriving DecidableEq

def LogsProtocol.codec : LogsProtocol → ProtoCodec
  | .v1 => ⟨maxLogMsgSize, maxLogResultSize⟩
  | .v2 => ⟨maxLogsMsgSize, maxLogsResultSize⟩

/-- The encodings of one log `Q` and of a batch. -/
structure LogsFormat (Q E : Type) where
  queryFinished : Message Q E
  portalLogs : Message (List Q) E

/-- A request as its protocol has it. -/
inductive LogsRequest (Q : Type) where
  | v1 (request : Q)
  | v2 (request : List Q)

def LogsFormat.decode {Q E : Type} (format : LogsFormat Q E) (protocol : LogsProtocol)
    (bytes : List UInt8) : Except E (LogsRequest Q) :=
  match protocol with
  | .v1 => (format.queryFinished.decode bytes).map .v1
  | .v2 => (format.portalLogs.decode bytes).map .v2

/-- What the collector tells. -/
structure LogQuery (P Q : Type) where
  peer : P
  logs : List Q
  deriving DecidableEq

section Requests

variable {P Q : Type}

def onCollectorV1Request (peer : P) (request : Q) : LogQuery P Q := ⟨peer, [request]⟩

def onCollectorV2Request (peer : P) (request : List Q) : LogQuery P Q := ⟨peer, request⟩

def onCollectorRequest (peer : P) : LogsRequest Q → LogQuery P Q
  | .v1 request => onCollectorV1Request peer request
  | .v2 request => onCollectorV2Request peer request

end Requests

/-- A stream to the collector. -/
structure LogStream (P Q E : Type) where
  peer : P
  protocol : LogsProtocol
  transfer : Transfer (LogsRequest Q) E
  /-- Its request was passed on. -/
  reported : Bool

namespace LogStream

variable {P Q E : Type}

def opened (peer : P) (protocol : LogsProtocol) (payload : List UInt8) : LogStream P Q E :=
  ⟨peer, protocol, .opened payload, false⟩

/-- The portal sends a batch of any size. -/
def sendLogs (format : LogsFormat Q E) (peer : P) (logs : List Q) : LogStream P Q E :=
  opened peer .v2 (format.portalLogs.encode logs)

def step (format : LogsFormat Q E) (rules : DropRules) (s : LogStream P Q E)
    (action : TransferAction) : LogStream P Q E :=
  { s with
    transfer := s.transfer.step s.protocol.codec .request (format.decode s.protocol) rules action }

/-- The request that was read and not passed on. -/
def unreported (s : LogStream P Q E) : Option (LogsRequest Q) :=
  match s.reported, s.transfer.reader with
  | false, .done (.ok request) => some request
  | _, _ => none

/-- What the sender meant to tell, unless it is too large or no request. -/
def sentEvent (format : LogsFormat Q E) (s : LogStream P Q E) : Option (LogQuery P Q) :=
  (s.protocol.codec.readBack .request (format.decode s.protocol) s.transfer.payload).toOption.map
    (onCollectorRequest s.peer)

/-- What was passed on. -/
def reportedEvent (format : LogsFormat Q E) (s : LogStream P Q E) : Option (LogQuery P Q) :=
  if s.reported then s.sentEvent format else none

end LogStream

/-- The collector and its user. -/
structure PortalLogsCollector (P Addr Q E : Type) where
  base : GaugedBase P Addr
  advertisementStarted : Bool
  streams : List (LogStream P Q E)
  events : Mailbox (LogQuery P Q)
  /-- What the user has received. -/
  told : List (LogQuery P Q)
  /-- What the queue had no room for. -/
  dropped : List (LogQuery P Q)
  /-- The attempts to advertise: the confidence they were made at, and whether they were
  accepted. -/
  attempts : List (ℚ × Bool)

/-- What happens to the collector. -/
inductive LogsAction (P Addr C Q : Type) where
  /-- An event of the base behaviour; the record store accepts a record or not. -/
  | base (event : BaseEvent P Addr C) (provided : Bool)
  | sendLogs (peer : P) (logs : List Q)
  /-- Some peer opens a stream of its own. -/
  | openStream (peer : P) (protocol : LogsProtocol) (payload : List UInt8)
  | transfer (stream : Nat) (action : TransferAction)
  /-- A request that was read becomes an event. -/
  | request (stream : Nat)
  /-- The user takes an event. -/
  | next

namespace PortalLogsCollector

variable {P Addr C Q E : Type} [DecidableEq P] [DecidableEq Addr]

def start (config : BaseConfig) (bootNodes : List P) (eventsQueueSize : ℕ+) :
    PortalLogsCollector P Addr Q E where
  base := .new config bootNodes false
  advertisementStarted := false
  streams := []
  events := .new eventsQueueSize
  told := []
  dropped := []
  attempts := []

/-- Advertise at a confidence of 0.3, until it has succeeded. -/
def onBaseEvent (c : PortalLogsCollector P Addr Q E) (confidence : ℚ) (provided : Bool) :
    PortalLogsCollector P Addr Q E :=
  if binary32 (3 / 10) ≤ confidence ∧ ¬ c.advertisementStarted then
    { c with
      advertisementStarted := c.advertisementStarted || provided
      attempts := c.attempts ++ [(confidence, provided)] }
  else c

def onBase (rules : AddressRules P Addr) (c : PortalLogsCollector P Addr Q E)
    (event : BaseEvent P Addr C) (provided : Bool) : PortalLogsCollector P Addr Q E :=
  match c.base.handle rules event with
  | (base, none) => { c with base := base }
  | (base, some confidence) => { c with base := base }.onBaseEvent confidence provided

/-- An event is queued if there is room. -/
def sendLossy (c : PortalLogsCollector P Addr Q E) (event : LogQuery P Q) :
    PortalLogsCollector P Addr Q E :=
  match c.events.trySend event with
  | .ok events => { c with events := events }
  | .error _ => { c with dropped := c.dropped ++ [event] }

def onRequest (c : PortalLogsCollector P Addr Q E) (stream : Nat) :
    PortalLogsCollector P Addr Q E :=
  match c.streams[stream]? with
  | none => c
  | some s =>
    match s.unreported with
    | none => c
    | some request =>
      { c with streams := c.streams.set stream { s with reported := true } }.sendLossy
        (onCollectorRequest s.peer request)

def next (c : PortalLogsCollector P Addr Q E) : PortalLogsCollector P Addr Q E :=
  match c.events.queue with
  | [] => c
  | event :: _ => { c with events := c.events.receive, told := c.told ++ [event] }

def step (addresses : AddressRules P Addr) (format : LogsFormat Q E) (rules : DropRules)
    (c : PortalLogsCollector P Addr Q E) : LogsAction P Addr C Q → PortalLogsCollector P Addr Q E
  | .base event provided => c.onBase addresses event provided
  | .sendLogs peer logs => { c with streams := c.streams ++ [.sendLogs format peer logs] }
  | .openStream peer protocol payload =>
    { c with streams := c.streams ++ [.opened peer protocol payload] }
  | .transfer stream action =>
    match c.streams[stream]? with
    | none => c
    | some s => { c with streams := c.streams.set stream (s.step format rules action) }
  | .request stream => c.onRequest stream
  | .next => c.next

end PortalLogsCollector

namespace LogStream

variable {P Q E : Type} {format : LogsFormat Q E} {rules : DropRules} {s : LogStream P Q E}

theorem readLimit_maxSize (protocol : LogsProtocol) :
    readLimit (protocol.codec.maxSize .request) = (protocol.codec.maxSize .request).toNat + 1 := by
  cases protocol <;> decide

/-- What holds of a stream: what was passed on had been read. -/
structure Sound (format : LogsFormat Q E) (s : LogStream P Q E) : Prop where
  transfer : s.transfer.Sound s.protocol.codec .request (format.decode s.protocol)
  reported : s.reported = true → (s.sentEvent format).isSome = true

theorem sound_opened (format : LogsFormat Q E) (peer : P) (protocol : LogsProtocol)
    (payload : List UInt8) : (opened peer protocol payload : LogStream P Q E).Sound format where
  transfer := Transfer.sound_opened payload
  reported := by simp [opened]

theorem sentEvent_step (action : TransferAction) :
    (s.step format rules action).sentEvent format = s.sentEvent format := by
  unfold sentEvent step
  dsimp only
  rw [s.transfer.payload_step action]

theorem Sound.step (h : s.Sound format) (hrules : rules.resetsOpen = true)
    (action : TransferAction) : (s.step format rules action).Sound format where
  transfer := h.transfer.step hrules (readLimit_maxSize s.protocol) action
  reported := fun hreported => by
    rw [sentEvent_step]
    exact h.reported hreported

/-- What was read is what the sender meant. -/
theorem Sound.sentEvent_of_unreported (h : s.Sound format) {request : LogsRequest Q}
    (hread : s.unreported = some request) :
    s.reported = false ∧ s.sentEvent format = some (onCollectorRequest s.peer request) := by
  unfold unreported at hread
  split at hread
  · next hreported hdone =>
    cases hread
    refine ⟨hreported, ?_⟩
    have hreader := h.transfer.reader
    unfold Transfer.ReaderSound at hreader
    rw [hdone] at hreader
    rcases hreader with hexpected | ⟨kind, hio⟩
    · unfold sentEvent
      rw [show s.protocol.codec.readBack .request (format.decode s.protocol) s.transfer.payload =
        .ok request from hexpected.symm]
      rfl
    · cases hio
  · cases hread

/-- A batch of a portal arrives as it is, unless it is larger than 25 MiB. -/
theorem sentEvent_sendLogs (format : LogsFormat Q E) (peer : P) (logs : List Q) :
    (sendLogs format peer logs).sentEvent format =
      if (format.portalLogs.encode logs).length ≤ 25 * 1024 * 1024 then some ⟨peer, logs⟩
      else none := by
  have hsize : (maxLogsMsgSize).toNat = 25 * 1024 * 1024 := by decide
  simp only [sentEvent, sendLogs, opened, Transfer.opened, ProtoCodec.readBack, LogsProtocol.codec,
    ProtoCodec.maxSize, hsize, LogsFormat.decode, format.portalLogs.decode_encode]
  split
  · next hlong =>
    rw [if_neg (by omega)]
    rfl
  · next hfits =>
    rw [if_pos (by omega)]
    rfl

end LogStream

namespace PortalLogsCollector

variable {P Addr C Q E : Type} {format : LogsFormat Q E} {rules : DropRules}
  {c : PortalLogsCollector P Addr Q E}

/-- Every request that was read was received by the user, waits in the queue or was dropped. -/
structure Accounted (format : LogsFormat Q E) (c : PortalLogsCollector P Addr Q E) : Prop where
  streams : ∀ s ∈ c.streams, s.Sound format
  events : (c.told ++ c.events.queue ++ c.dropped).Perm
    (c.streams.filterMap (LogStream.reportedEvent format))

theorem Accounted.openStream (h : c.Accounted format) (peer : P) (protocol : LogsProtocol)
    (payload : List UInt8) :
    { c with streams := c.streams ++ [LogStream.opened peer protocol payload] }.Accounted
      format where
  streams := by
    intro s hs
    rcases List.mem_append.mp hs with hold | hnew
    · exact h.streams s hold
    · rw [List.mem_singleton.mp hnew]
      exact LogStream.sound_opened format peer protocol payload
  events := by
    rw [List.filterMap_append]
    simpa [LogStream.reportedEvent, LogStream.opened] using h.events

theorem Accounted.set (h : c.Accounted format) {stream : Nat} {s s' : LogStream P Q E}
    (hs : c.streams[stream]? = some s) (hsound : s'.Sound format)
    (hevent : s'.reportedEvent format = s.reportedEvent format) :
    { c with streams := c.streams.set stream s' }.Accounted format where
  streams := by
    intro t ht
    rcases List.mem_or_eq_of_mem_set ht with hold | rfl
    · exact h.streams t hold
    · exact hsound
  events := by
    have hperm := filterMap_set_perm hs s' (LogStream.reportedEvent format)
    rw [hevent] at hperm
    exact h.events.trans ((List.perm_append_left_iff _).mp hperm).symm

/-- A request that is passed on is queued or dropped. -/
theorem Accounted.onRequest (h : c.Accounted format) (stream : Nat) :
    (c.onRequest stream).Accounted format := by
  unfold PortalLogsCollector.onRequest
  split
  · exact h
  next s hs =>
  split
  · exact h
  next request hread =>
  have hsound := h.streams s (List.mem_of_getElem? hs)
  obtain ⟨hreported, hsent⟩ := hsound.sentEvent_of_unreported hread
  have hnew : { s with reported := true }.Sound format :=
    ⟨hsound.transfer, fun _ => Option.isSome_iff_exists.mpr ⟨_, hsent⟩⟩
  have hperm := filterMap_set_perm hs { s with reported := true } (LogStream.reportedEvent format)
  have hbefore : s.reportedEvent format = none := by
    rw [LogStream.reportedEvent, hreported]
    rfl
  have hafter : LogStream.reportedEvent format { s with reported := true } =
      some (onCollectorRequest s.peer request) := hsent
  rw [hbefore, hafter, Option.toList_none, List.nil_append, Option.toList_some] at hperm
  have hstreams : ∀ t ∈ c.streams.set stream { s with reported := true }, t.Sound format := by
    intro t ht
    rcases List.mem_or_eq_of_mem_set ht with hold | rfl
    · exact h.streams t hold
    · exact hnew
  have hevents := (h.events.cons (onCollectorRequest s.peer request)).trans hperm.symm
  unfold sendLossy
  split
  · next events hok =>
    refine ⟨hstreams, List.Perm.trans ?_ hevents⟩
    obtain ⟨-, -, -, -, hqueue⟩ := Mailbox.trySend_eq_ok.mp hok
    dsimp only
    rw [hqueue, ← List.append_assoc, List.append_assoc]
    exact List.perm_middle
  · next hfull =>
    refine ⟨hstreams, List.Perm.trans ?_ hevents⟩
    dsimp only
    rw [← List.append_assoc]
    exact List.perm_append_singleton _ _

theorem Accounted.next (h : c.Accounted format) : c.next.Accounted format := by
  unfold PortalLogsCollector.next
  split
  · exact h
  · next event rest hqueue =>
    refine ⟨h.streams, List.Perm.trans (.of_eq ?_) h.events⟩
    dsimp only
    rw [Mailbox.queue_receive hqueue, hqueue]
    simp

variable [DecidableEq P] [DecidableEq Addr] {addresses : AddressRules P Addr}

theorem Accounted.onBase (h : c.Accounted format) (event : BaseEvent P Addr C) (provided : Bool) :
    (c.onBase addresses event provided).Accounted format := by
  unfold PortalLogsCollector.onBase
  split
  · exact ⟨h.streams, h.events⟩
  · unfold onBaseEvent
    split <;> exact ⟨h.streams, h.events⟩

theorem Accounted.step (h : c.Accounted format) (hrules : rules.resetsOpen = true)
    (action : LogsAction P Addr C Q) : (c.step addresses format rules action).Accounted format := by
  cases action with
  | base event provided => exact h.onBase event provided
  | sendLogs peer logs => exact h.openStream peer .v2 _
  | openStream peer protocol payload => exact h.openStream peer protocol payload
  | transfer stream action =>
    simp only [PortalLogsCollector.step]
    split
    · exact h
    · next s hs =>
      refine h.set hs ((h.streams s (List.mem_of_getElem? hs)).step hrules action) ?_
      unfold LogStream.reportedEvent
      rw [LogStream.sentEvent_step]
      rfl
  | request stream => exact h.onRequest stream
  | next => exact h.next

/-- In every run, where a dropped stream is reset: what the user received, what waits for it and
what the full queue dropped are together the batches whose streams were passed on, each once and as
its sender meant it; for a portal's batch this is the batch, unless it is larger than 25 MiB. -/
theorem collected_logs_are_accounted (addresses : AddressRules P Addr) (format : LogsFormat Q E)
    (rules : DropRules) (hrules : rules.resetsOpen = true) (config : BaseConfig)
    (bootNodes : List P) (eventsQueueSize : ℕ+) (actions : List (LogsAction P Addr C Q)) :
    let c := actions.foldl (step addresses format rules) (start config bootNodes eventsQueueSize)
    (c.told ++ c.events.queue ++ c.dropped).Perm
      (c.streams.filterMap (LogStream.reportedEvent format)) ∧
    (∀ s ∈ c.streams, s.reported = true → (s.sentEvent format).isSome = true) ∧
    ∀ (peer : P) (logs : List Q), (LogStream.sendLogs format peer logs).sentEvent format =
      if (format.portalLogs.encode logs).length ≤ 25 * 1024 * 1024 then some ⟨peer, logs⟩
      else none := by
  intro c
  have hstart : (start config bootNodes eventsQueueSize :
      PortalLogsCollector P Addr Q E).Accounted format :=
    ⟨fun _ hs => absurd hs List.not_mem_nil, .nil⟩
  have h : c.Accounted format :=
    (throughout_of_invariant (I := Accounted format)
      (fun _ action h => h.step hrules action) actions hstart).last
  exact ⟨h.events, fun s hs => (h.streams s hs).reported, LogStream.sentEvent_sendLogs format⟩

/-- Single bytes as logs, and a batch as its bytes. -/
def sampleLogsFormat : LogsFormat UInt8 Unit where
  queryFinished :=
    { encode := fun log => [log]
      decode := fun bytes => bytes.head?.elim (.error ()) .ok
      decode_encode := fun _ => rfl }
  portalLogs := .bytes

/-- A batch of two logs is sent, read and passed on. -/
def sampleDelivery : List (LogsAction Nat Nat Unit UInt8) :=
  [.sendLogs 3 [1, 2], .transfer 0 (.write 9), .transfer 0 .close, .transfer 0 (.read 9 false),
    .transfer 0 (.read 9 false), .request 0, .next]

theorem collected_logs_are_accounted_sample :
    let c := sampleDelivery.foldl (step (AddressRules.plain Nat Nat) sampleLogsFormat ⟨true, true⟩)
      (start ⟨20, 16, by decide⟩ [] 100)
    c.told = [⟨3, [1, 2]⟩] ∧ (c.told ++ c.events.queue ++ c.dropped).Perm
      (c.streams.filterMap (LogStream.reportedEvent sampleLogsFormat)) :=
  ⟨by decide +kernel, (collected_logs_are_accounted (AddressRules.plain Nat Nat) sampleLogsFormat
    ⟨true, true⟩ rfl ⟨20, 16, by decide⟩ [] 100 sampleDelivery).1⟩

/-! ## Advertising -/

/-- What advertising depends on. -/
def advertising (c : PortalLogsCollector P Addr Q E) :=
  (c.base, c.advertisementStarted, c.attempts)

omit [DecidableEq P] [DecidableEq Addr] in
theorem advertising_onRequest (c : PortalLogsCollector P Addr Q E) (stream : Nat) :
    (c.onRequest stream).advertising = c.advertising := by
  unfold onRequest sendLossy
  split
  · rfl
  · split
    · rfl
    · split <;> rfl

/-- Attempts fail until one succeeds, and each is made at a higher confidence of 0.3 or more. -/
structure Advertised (c : PortalLogsCollector P Addr Q E) : Prop where
  attempts : ∃ failures, c.attempts.map Prod.snd = List.replicate failures false ++
    if c.advertisementStarted then [true] else []
  confident : ∀ a ∈ c.attempts, binary32 (3 / 10) ≤ a.1
  rising : c.attempts.Pairwise fun a b => a.1 < b.1
  /-- The highest confidence that was told bounds those of the attempts. -/
  told : ∀ a ∈ c.attempts, a.1 ≤ confidenceOf c.base.peak
  few : c.attempts.length ≤ c.base.peak - 2
  peak : c.base.peak ≤ 10

omit [DecidableEq P] [DecidableEq Addr] in
theorem Advertised.of_advertising (h : c.Advertised) {c' : PortalLogsCollector P Addr Q E}
    (he : c'.advertising = c.advertising) : c'.Advertised := by
  obtain ⟨hbase, hrest⟩ := Prod.mk.inj he
  obtain ⟨hstarted, hattempts⟩ := Prod.mk.inj hrest
  refine ⟨?_, ?_, ?_, ?_, ?_, ?_⟩
  · rw [hstarted, hattempts]
    exact h.attempts
  · rw [hattempts]
    exact h.confident
  · rw [hattempts]
    exact h.rising
  · rw [hbase, hattempts]
    exact h.told
  · rw [hbase, hattempts]
    exact h.few
  · rw [hbase]
    exact h.peak

theorem threshold_le_confidenceOf_iff {step : Nat} (hstep : step ≤ 10) :
    binary32 (3 / 10) ≤ confidenceOf step ↔ 3 ≤ step := by
  have hthree : binary32 (3 / 10) = confidenceOf 3 := rfl
  rw [hthree]
  constructor
  · intro h
    by_contra hlt
    exact absurd (confidenceOf_strictMono (Nat.lt_of_not_le hlt) (by decide)) (not_lt.mpr h)
  · intro h
    rcases h.eq_or_lt with rfl | hlt
    · exact le_rfl
    · exact (confidenceOf_strictMono hlt hstep).le

omit [DecidableEq P] [DecidableEq Addr] in
/-- An attempt at a confidence that was not reached before. -/
theorem Advertised.onBaseEvent (h : c.Advertised) {base : GaugedBase P Addr} {step : Nat}
    (hlt : c.base.peak < step) (hle : step ≤ 10) (hpeak : base.peak = step) (provided : Bool) :
    ({ c with base := base }.onBaseEvent (confidenceOf step) provided).Advertised := by
  have hhigher := confidenceOf_strictMono hlt hle
  have htold : ∀ a ∈ c.attempts, a.1 < confidenceOf step :=
    fun a ha => (h.told a ha).trans_lt hhigher
  have hfew := h.few
  unfold PortalLogsCollector.onBaseEvent
  split
  · next hadvertise =>
    have hthree := (threshold_le_confidenceOf_iff hle).mp hadvertise.1
    have hnot : c.advertisementStarted = false := by simpa using hadvertise.2
    obtain ⟨failures, hattempts⟩ := h.attempts
    rw [hnot, if_neg Bool.false_ne_true, List.append_nil] at hattempts
    refine ⟨?_, fun a ha => ?_, ?_, fun a ha => ?_, ?_, hpeak.trans_le hle⟩
    · change ∃ n, (c.attempts ++ [(confidenceOf step, provided)]).map Prod.snd = _
      rw [List.map_append, hattempts, hnot, Bool.false_or]
      cases provided with
      | true => exact ⟨failures, rfl⟩
      | false => exact ⟨failures + 1, by simp [List.replicate_succ']⟩
    · rcases List.mem_append.mp ha with ha | ha
      · exact h.confident a ha
      · rw [List.mem_singleton.mp ha]
        exact hadvertise.1
    · refine List.pairwise_append.mpr ⟨h.rising, List.pairwise_singleton _ _, fun a ha b hb => ?_⟩
      rw [List.mem_singleton.mp hb]
      exact htold a ha
    · change a.1 ≤ confidenceOf base.peak
      rw [hpeak]
      rcases List.mem_append.mp ha with ha | ha
      · exact (htold a ha).le
      · rw [List.mem_singleton.mp ha]
    · change (c.attempts ++ [(confidenceOf step, provided)]).length ≤ base.peak - 2
      rw [List.length_append, List.length_singleton, hpeak]
      omega
  · refine ⟨h.attempts, h.confident, h.rising, fun a ha => ?_, ?_, hpeak.trans_le hle⟩
    · change a.1 ≤ confidenceOf base.peak
      rw [hpeak]
      exact (htold a ha).le
    · change c.attempts.length ≤ base.peak - 2
      omega

theorem Advertised.onBase (h : c.Advertised) (event : BaseEvent P Addr C) (provided : Bool) :
    (c.onBase addresses event provided).Advertised := by
  have hcases := c.base.handle_cases addresses event
  unfold PortalLogsCollector.onBase
  split
  · next base he =>
    rw [he] at hcases
    rcases hcases with ⟨-, hpeak⟩ | ⟨step, -, -, -, hout⟩
    · change base.peak = _ at hpeak
      refine ⟨h.attempts, h.confident, h.rising, ?_, ?_, ?_⟩
      · rw [hpeak]
        exact h.told
      · rw [hpeak]
        exact h.few
      · rw [hpeak]
        exact h.peak
    · cases hout
  · next base confidence he =>
    rw [he] at hcases
    rcases hcases with ⟨hout, -⟩ | ⟨step, hlt, hle, hpeak, hout⟩
    · cases hout
    cases hout
    exact h.onBaseEvent hlt hle hpeak provided

theorem Advertised.step (h : c.Advertised) (action : LogsAction P Addr C Q) :
    (c.step addresses format rules action).Advertised := by
  cases action with
  | base event provided => exact h.onBase event provided
  | sendLogs peer logs => exact h.of_advertising rfl
  | openStream peer protocol payload => exact h.of_advertising rfl
  | transfer stream action =>
    simp only [PortalLogsCollector.step]
    split
    · exact h
    · exact h.of_advertising rfl
  | request stream => exact h.of_advertising (c.advertising_onRequest stream)
  | next =>
    simp only [PortalLogsCollector.step, PortalLogsCollector.next]
    split
    · exact h
    · exact h.of_advertising rfl

/-- In every run, whatever the record store answers: the attempts to advertise fail until one
succeeds and then stop, none is made below a confidence of 0.3, each is made at a higher confidence
than the one before, and there are at most eight. A collector whose attempts all fail on the way to
full confidence never advertises. -/
theorem advertised_once_connected (addresses : AddressRules P Addr) (format : LogsFormat Q E)
    (rules : DropRules) (config : BaseConfig) (bootNodes : List P) (eventsQueueSize : ℕ+)
    (actions : List (LogsAction P Addr C Q)) :
    let c := actions.foldl (step addresses format rules) (start config bootNodes eventsQueueSize)
    (∃ failures, c.attempts.map Prod.snd = List.replicate failures false ++
      if c.advertisementStarted then [true] else []) ∧
    (∀ a ∈ c.attempts, binary32 (3 / 10) ≤ a.1) ∧
    (c.attempts.Pairwise fun a b => a.1 < b.1) ∧
    c.attempts.length ≤ c.base.peak - 2 ∧ c.attempts.length ≤ 8 := by
  intro c
  have hstart : (start config bootNodes eventsQueueSize :
      PortalLogsCollector P Addr Q E).Advertised :=
    ⟨⟨0, rfl⟩, fun _ ha => absurd ha List.not_mem_nil, .nil, fun _ ha => absurd ha List.not_mem_nil,
      Nat.zero_le _, Nat.zero_le _⟩
  have h : c.Advertised :=
    (throughout_of_invariant (I := Advertised) (fun _ action h => h.step action) actions
      hstart).last
  refine ⟨h.attempts, h.confident, h.rising, h.few, ?_⟩
  have hfew := h.few
  have hpeak := h.peak
  omega

end PortalLogsCollector

end SqdNetwork.Transport
