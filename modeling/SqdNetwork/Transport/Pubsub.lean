import Mathlib.Logic.Function.Basic
import SqdNetwork.Core.Outcome

/-!
# Validation of pub-sub messages

A topic keeps for every peer the highest sequence number accepted from it and a
window in which its messages are counted. The first message of a peer creates that
state; the later ones are checked against it: first the sequence number, then the
order, then the number of messages in the window.
-/

namespace SqdNetwork.Transport

open SqdNetwork.Core

/-- Why a message is not accepted. -/
inductive ValidationError where
  /-- The message should never have been transmitted. -/
  | invalid (reason : String)
  /-- The message should no longer be transmitted. -/
  | ignored (reason : String)
  deriving DecidableEq

/-- What gossipsub is told about a message. -/
inductive MessageAcceptance where
  | accept
  | reject
  | ignore
  deriving DecidableEq

def ValidationError.acceptance : ValidationError → MessageAcceptance
  | .invalid _ => .reject
  | .ignored _ => .ignore

/-- A custom check that may keep a state. -/
structure MsgValidator (P V : Type) where
  state : V
  validateMsg : V → P → UInt64 → List UInt8 → Exec (V × Except ValidationError Unit)

/-- The check that accepts everything. -/
def MsgValidator.unit (P : Type) : MsgValidator P Unit := ⟨(), fun _ _ _ _ => .ok ((), .ok ())⟩

/-- Whatever it is shown, the check returns and accepts. -/
def MsgValidator.AcceptsAll {P V : Type} (validator : MsgValidator P V) : Prop :=
  ∀ v peer seqNo data, ∃ v', validator.validateMsg v peer seqNo data = .ok (v', .ok ())

/-- What a topic demands of its messages; durations are in nanoseconds. -/
structure MsgValidationConfig (P V : Type) where
  minInterval : Nat
  maxBurst : UInt32
  keepLast : UInt64
  msgValidator : MsgValidator P V

/-- One message per interval, in order. -/
def MsgValidationConfig.new {P : Type} (minInterval : Nat) : MsgValidationConfig P Unit :=
  ⟨minInterval, 1, 0, .unit P⟩

/-- The clocks while a message is validated. -/
structure Clock where
  /-- Nanoseconds since 1970, by the system clock. -/
  system : Int
  /-- The monotonic clock when the time since the last window is measured. -/
  checked : Nat
  /-- The monotonic clock when a window is opened. -/
  reopened : Nat

/-- A message as a topic sees it. -/
structure TopicMsg (P : Type) where
  peerId : P
  seqNo : UInt64
  data : List UInt8 := []
  clock : Clock

/-- The system clock as a sequence number. -/
def timestampNow (clock : Clock) : Exec UInt64 := do
  let nanos ← Exec.expect "we're after 1970"
    (if 0 ≤ clock.system then some clock.system.toNat else none)
  Exec.expect "not that far in the future"
    (if nanos < 2 ^ 64 then some (UInt64.ofNat nanos) else none)

/-- The state kept for a peer. -/
structure PeerState where
  lastSeqNo : UInt64
  lastTime : Nat
  burst : UInt32

namespace PeerState

def new (seqNo : UInt64) (clock : Clock) : PeerState := ⟨seqNo, clock.reopened, 1⟩

variable {P V : Type} (profile : Profile) (config : MsgValidationConfig P V)

/-- Sequence numbers are timestamps: neither zero nor from the future. -/
def badSeqNo (seqNo : UInt64) (clock : Clock) : Exec Bool :=
  if seqNo = 0 then .ok true
  else do
    let now ← timestampNow clock
    .ok (now < seqNo)

/-- Count a message into the window, or open a new one. -/
def countBurst (s : PeerState) (clock : Clock) : Exec PeerState :=
  if clock.checked - s.lastTime < config.minInterval then do
    let burst ← Exec.addU32 profile s.burst 1
    .ok { s with burst := burst }
  else .ok { s with lastTime := clock.reopened, burst := 1 }

/-- Validate a message of a known peer. -/
def validateMsg (s : PeerState) (seqNo : UInt64) (clock : Clock) :
    Exec (PeerState × Except ValidationError Unit) := do
  if ← badSeqNo seqNo clock then
    .ok (s, .error (.invalid "invalid sequence number"))
  else
    let horizon ← Exec.addU64 profile seqNo config.keepLast
    if horizon ≤ s.lastSeqNo then
      .ok (s, .error (.ignored "old message"))
    else
      let s ← s.countBurst profile config clock
      if config.maxBurst < s.burst then
        .ok (s, .error (.ignored "too many messages within min_interval"))
      else
        .ok ({ s with lastSeqNo := maxU64 s.lastSeqNo seqNo }, .ok ())

end PeerState

/-- A subscribed topic. -/
structure TopicState (P V : Type) where
  name : String
  peerStates : P → Option PeerState
  validationConfig : MsgValidationConfig P V

namespace TopicState

variable {P V : Type}

def new (name : String) (config : MsgValidationConfig P V) : TopicState P V :=
  ⟨name, fun _ => none, config⟩

/-- The custom check in a new state. -/
def withValidator (t : TopicState P V) (v : V) : TopicState P V :=
  { t with
    validationConfig := { t.validationConfig with
      msgValidator := { t.validationConfig.msgValidator with state := v } } }

variable [DecidableEq P]

/-- Another state for a peer. -/
def setPeer (t : TopicState P V) (peer : P) (s : PeerState) : TopicState P V :=
  { t with peerStates := Function.update t.peerStates peer (some s) }

/-- Validate a message that the custom check accepted. -/
def validatePeer (profile : Profile) (t : TopicState P V) (m : TopicMsg P) :
    Exec (TopicState P V × Except ValidationError Unit) :=
  match t.peerStates m.peerId with
  | none => .ok (t.setPeer m.peerId (.new m.seqNo m.clock), .ok ())
  | some s => do
    let (s, result) ← s.validateMsg profile t.validationConfig m.seqNo m.clock
    .ok (t.setPeer m.peerId s, result)

/-- Validate a message: the custom check first, then the state of its peer. -/
def validateMsg (profile : Profile) (t : TopicState P V) (m : TopicMsg P) :
    Exec (TopicState P V × Except ValidationError Unit) := do
  let validator := t.validationConfig.msgValidator
  let (v, result) ← validator.validateMsg validator.state m.peerId m.seqNo m.data
  match result with
  | .error e => .ok (t.withValidator v, .error e)
  | .ok () => (t.withValidator v).validatePeer profile m

end TopicState

/-- A message as gossipsub delivers it. -/
structure GossipsubMessage (P T : Type) where
  source : Option P
  sequenceNumber : Option UInt64
  topic : T
  data : List UInt8
  clock : Clock

/-- A message passed on to the node. -/
structure PubsubMsg (P : Type) where
  peerId : P
  topic : String
  data : List UInt8

/-- The subscribed topics by hash. -/
structure PubsubBehaviour (P T V : Type) where
  topics : T → Option (TopicState P V)

namespace PubsubBehaviour

variable {P T V : Type} [DecidableEq P] [DecidableEq T]

omit [DecidableEq P] in
/-- Subscribe to a topic unless that was done before or gossipsub refuses. -/
def subscribe (b : PubsubBehaviour P T V) (hash : T) (name : String)
    (config : MsgValidationConfig P V) (innerAccepts : Bool) : PubsubBehaviour P T V :=
  if (b.topics hash).isSome then b
  else if innerAccepts then
    ⟨Function.update b.topics hash (some (.new name config))⟩
  else b

/-- Validate a message of any topic. -/
def validateGossipsubMsg (profile : Profile) (b : PubsubBehaviour P T V)
    (m : GossipsubMessage P T) :
    Exec (PubsubBehaviour P T V × Except ValidationError (PubsubMsg P)) :=
  match m.source with
  | none => .ok (b, .error (.invalid "anonymous message"))
  | some peerId =>
    match m.sequenceNumber with
    | none => .ok (b, .error (.invalid "message without sequence number"))
    | some seqNo =>
      match b.topics m.topic with
      | none => .ok (b, .error (.invalid "message with unknown topic"))
      | some topicState => do
        let (topicState, result) ←
          topicState.validateMsg profile ⟨peerId, seqNo, m.data, m.clock⟩
        let b := ⟨Function.update b.topics m.topic (some topicState)⟩
        .ok (b, result.map fun _ => ⟨peerId, topicState.name, m.data⟩)

/-- A message arrives: gossipsub is told what becomes of it, and an accepted one is passed on. -/
def onMessage (profile : Profile) (b : PubsubBehaviour P T V) (m : GossipsubMessage P T) :
    Exec (PubsubBehaviour P T V × MessageAcceptance × Option (PubsubMsg P)) := do
  let (b, result) ← b.validateGossipsubMsg profile m
  match result with
  | .ok msg => .ok (b, .accept, some msg)
  | .error e => .ok (b, e.acceptance, none)

end PubsubBehaviour

section Inversion

variable {P V : Type} {profile : Profile} {config : MsgValidationConfig P V}

/-- The number is neither zero nor past the system clock. -/
def SeqNoPresent (seqNo : UInt64) (clock : Clock) : Prop :=
  0 < seqNo.toNat ∧ (seqNo.toNat : Int) ≤ clock.system

theorem timestampNow_eq_ok {clock : Clock} {now : UInt64} (h : timestampNow clock = .ok now) :
    (now.toNat : Int) = clock.system := by
  obtain ⟨nanos, hnanos, h⟩ := Exec.bind_eq_ok.mp h
  have hsome := Exec.expect_eq_ok hnanos
  have hsome' := Exec.expect_eq_ok h
  split at hsome
  · next hpos =>
    cases hsome
    split at hsome'
    · next hlt =>
      cases hsome'
      rw [UInt64.toNat_ofNat_of_lt' hlt]
      exact Int.toNat_of_nonneg hpos
    · cases hsome'
  · cases hsome

/-- The number check tells present numbers. -/
theorem badSeqNo_eq_ok {seqNo : UInt64} {clock : Clock} {bad : Bool}
    (h : PeerState.badSeqNo seqNo clock = .ok bad) :
    bad = false ↔ SeqNoPresent seqNo clock := by
  unfold PeerState.badSeqNo at h
  unfold SeqNoPresent
  split at h
  · next hzero =>
    subst hzero
    cases h
    simp
  · next hzero =>
    obtain ⟨now, hnow, h⟩ := Exec.bind_eq_ok.mp h
    cases h
    have hsystem := timestampNow_eq_ok hnow
    have hpos : 0 < seqNo.toNat :=
      Nat.pos_of_ne_zero fun h0 => hzero (UInt64.toNat_inj.mp h0)
    rw [decide_eq_false_iff_not, UInt64.lt_iff_toNat_lt]
    omega

/-- How a window is counted on: within the interval, or from one again. -/
theorem countBurst_cases {s s' : PeerState} {clock : Clock}
    (h : s.countBurst profile config clock = .ok s') :
    (clock.checked - s.lastTime < config.minInterval ∧
      ∃ burst, Exec.addU32 profile s.burst 1 = .ok burst ∧ s' = { s with burst := burst }) ∨
    ¬ clock.checked - s.lastTime < config.minInterval ∧
      s' = { s with lastTime := clock.reopened, burst := 1 } := by
  unfold PeerState.countBurst at h
  split at h
  · next hwithin =>
    obtain ⟨burst, hburst, h⟩ := Exec.bind_eq_ok.mp h
    exact Or.inl ⟨hwithin, burst, hburst, (Except.ok.inj h).symm⟩
  · next hlate => exact Or.inr ⟨hlate, (Except.ok.inj h).symm⟩

theorem lastSeqNo_countBurst {s s' : PeerState} {clock : Clock}
    (h : s.countBurst profile config clock = .ok s') : s'.lastSeqNo = s.lastSeqNo := by
  rcases countBurst_cases h with ⟨-, burst, -, rfl⟩ | ⟨-, rfl⟩ <;> rfl

/-- What becomes of a message of a known peer: it is turned away at the number or at the order and
leaves no trace, or it is counted and then accepted or not. -/
theorem PeerState.validateMsg_cases {s s' : PeerState} {seqNo : UInt64} {clock : Clock}
    {result : Except ValidationError Unit}
    (h : s.validateMsg profile config seqNo clock = .ok (s', result)) :
    (∃ e, result = .error e ∧ s' = s) ∨
    ∃ horizon counted, SeqNoPresent seqNo clock ∧
      Exec.addU64 profile seqNo config.keepLast = .ok horizon ∧ s.lastSeqNo < horizon ∧
      s.countBurst profile config clock = .ok counted ∧
      (config.maxBurst < counted.burst ∧ (∃ e, result = .error e) ∧ s' = counted ∨
        counted.burst ≤ config.maxBurst ∧ result = .ok () ∧
          s' = { counted with lastSeqNo := maxU64 counted.lastSeqNo seqNo }) := by
  obtain ⟨bad, hbad, h⟩ := Exec.bind_eq_ok.mp h
  cases bad with
  | true =>
    cases h
    exact Or.inl ⟨_, rfl, rfl⟩
  | false =>
    have hpresent := (badSeqNo_eq_ok hbad).mp rfl
    obtain ⟨horizon, hhorizon, h⟩ := Exec.bind_eq_ok.mp h
    split at h
    · cases h
      exact Or.inl ⟨_, rfl, rfl⟩
    · next hnew =>
      obtain ⟨counted, hcounted, h⟩ := Exec.bind_eq_ok.mp h
      refine Or.inr ⟨horizon, counted, hpresent, hhorizon, UInt64.not_le.mp hnew, hcounted, ?_⟩
      split at h
      · next hmany =>
        cases h
        exact Or.inl ⟨hmany, ⟨_, rfl⟩, rfl⟩
      · next hfew =>
        cases h
        exact Or.inr ⟨UInt32.not_lt.mp hfew, rfl, rfl⟩

variable [DecidableEq P]

/-- What becomes of a message of a topic: the custom check turns it away, it is the first of its
peer, or the state of its peer decides. -/
theorem TopicState.validateMsg_cases {t t' : TopicState P V} {m : TopicMsg P}
    {result : Except ValidationError Unit}
    (h : t.validateMsg profile m = .ok (t', result)) :
    ∃ v checked, t.validationConfig.msgValidator.validateMsg
        t.validationConfig.msgValidator.state m.peerId m.seqNo m.data = .ok (v, checked) ∧
      ((∃ e, checked = .error e ∧ result = .error e ∧ t' = t.withValidator v) ∨
      checked = .ok () ∧ t.peerStates m.peerId = none ∧ result = .ok () ∧
        t' = (t.withValidator v).setPeer m.peerId (.new m.seqNo m.clock) ∨
      ∃ s s', checked = .ok () ∧ t.peerStates m.peerId = some s ∧
        s.validateMsg profile t.validationConfig m.seqNo m.clock = .ok (s', result) ∧
        t' = (t.withValidator v).setPeer m.peerId s') := by
  obtain ⟨⟨v, checked⟩, hchecked, h⟩ := Exec.bind_eq_ok.mp h
  refine ⟨v, checked, hchecked, ?_⟩
  cases checked with
  | error e =>
    cases h
    exact Or.inl ⟨e, rfl, rfl, rfl⟩
  | ok u =>
    have hstate : (t.withValidator v).peerStates m.peerId = t.peerStates m.peerId := rfl
    cases hs : t.peerStates m.peerId with
    | none =>
      simp only [validatePeer, hstate, hs] at h
      cases h
      exact Or.inr (Or.inl ⟨rfl, rfl, rfl, rfl⟩)
    | some s =>
      simp only [validatePeer, hstate, hs] at h
      obtain ⟨⟨s', result'⟩, hresult, h⟩ := Exec.bind_eq_ok.mp h
      cases h
      exact Or.inr (Or.inr ⟨s, s', rfl, rfl, hresult, rfl⟩)

end Inversion

section Peers

variable {P V : Type} [DecidableEq P] (t : TopicState P V) (s : PeerState)

@[simp] theorem peerStates_setPeer_self (peer : P) :
    (t.setPeer peer s).peerStates peer = some s := Function.update_self _ _ _

theorem peerStates_setPeer_ne {peer other : P} (h : other ≠ peer) :
    (t.setPeer peer s).peerStates other = t.peerStates other := Function.update_of_ne h _ _

/-- A message leaves the states of other peers alone. -/
theorem peerStates_validateMsg_ne {profile : Profile} {t t' : TopicState P V} {m : TopicMsg P}
    {result : Except ValidationError Unit} (h : t.validateMsg profile m = .ok (t', result))
    {peer : P} (hpeer : peer ≠ m.peerId) : t'.peerStates peer = t.peerStates peer := by
  obtain ⟨v, checked, -, hcases⟩ := TopicState.validateMsg_cases h
  rcases hcases with ⟨e, -, -, rfl⟩ | ⟨-, -, -, rfl⟩ | ⟨s, s', -, -, -, rfl⟩
  · rfl
  · exact peerStates_setPeer_ne _ _ hpeer
  · exact peerStates_setPeer_ne _ _ hpeer

/-- A message leaves the limits of its topic alone. -/
theorem validationConfig_validateMsg {profile : Profile} {t t' : TopicState P V} {m : TopicMsg P}
    {result : Except ValidationError Unit} (h : t.validateMsg profile m = .ok (t', result)) :
    ∃ v, t'.validationConfig = (t.withValidator v).validationConfig := by
  obtain ⟨v, checked, -, hcases⟩ := TopicState.validateMsg_cases h
  rcases hcases with ⟨e, -, -, rfl⟩ | ⟨-, -, -, rfl⟩ | ⟨s, s', -, -, -, rfl⟩ <;>
    exact ⟨v, rfl⟩

end Peers

end SqdNetwork.Transport
