import Mathlib.Data.List.ReduceOption
import Mathlib.Tactic.IntervalCases
import SqdNetwork.Core.Binary32
import SqdNetwork.Core.Refinement
import SqdNetwork.Transport.RegisteredWorkers

/-!
# Confidence in the connection to the network

A node announces how much of the network has identified itself to it, as a part of
three quarters of the registered nodes and in tenths. The part is computed in single
precision. Only a higher tenth than any before is announced.
-/

namespace SqdNetwork.Transport

open SqdNetwork.Core

/-- The number of registered nodes. -/
def WhitelistBehavior.whitelistSize {P : Type} (w : WhitelistBehavior P) : Nat :=
  w.registeredNodes.card

/-- The part of the threshold that is known. -/
def confidenceRaw (identified whitelistSize : Nat) : ℚ :=
  let threshold := binary32 (3 / 4 * binary32 whitelistSize)
  min (binary32 (binary32 identified / threshold)) 1

/-- The step in tenths; a cast to `u8` saturates. -/
def confidenceStep (identified whitelistSize : Nat) : Nat :=
  min ⌊binary32 (confidenceRaw identified whitelistSize * 10)⌋.toNat 255

/-- The confidence of a step. -/
def confidenceOf (step : Nat) : ℚ := binary32 (step / 10)

/-- The base behaviour with what it keeps to gauge its connection to the network. -/
structure GaugedBase (P Addr : Type) where
  base : BaseBehaviour P Addr
  whitelistInitialized : Bool
  identifiedPeers : Finset P
  lastSentConfidenceStep : Option Nat

namespace GaugedBase

variable {P Addr E : Type} [DecidableEq P] [DecidableEq Addr]

/-- Nothing is known of the network at startup. -/
def new (config : BaseConfig) (bootNodes : List P) (maintain : Bool) : GaugedBase P Addr where
  base := .start config bootNodes maintain
  whitelistInitialized := false
  identifiedPeers := ∅
  lastSentConfidenceStep := none

/-- Announce the confidence, if it is known and higher than any before. -/
def tryEmitConfidence (b : GaugedBase P Addr) : GaugedBase P Addr × Option ℚ :=
  if ¬ b.whitelistInitialized then (b, none)
  else if b.base.whitelist.whitelistSize = 0 then (b, none)
  else
    let step := confidenceStep b.identifiedPeers.card b.base.whitelist.whitelistSize
    if step = 0 then (b, none)
    else if b.lastSentConfidenceStep.any (step ≤ ·) then (b, none)
    else ({ b with lastSentConfidenceStep := some step }, some (confidenceOf step))

/-- A peer identified itself, registered or not. -/
def onIdentifyEvent (rules : AddressRules P Addr) (b : GaugedBase P Addr) (peer : P)
    (listenAddrs : List Addr) : GaugedBase P Addr × Option ℚ :=
  { b with
    base := b.base.onIdentifyEvent rules peer listenAddrs
    identifiedPeers := insert peer b.identifiedPeers }.tryEmitConfidence

/-- A node set that the allow list passes on initializes the whitelist. Nothing is announced. -/
def onWhitelistUpdate (b : GaugedBase P Addr) (result : Except E (RetrievedNodes P)) :
    GaugedBase P Addr :=
  let changed := (b.base.whitelist.onNodesUpdate (result.map RetrievedNodes.toNetworkNodes)).2
  { b with
    base := b.base.onWhitelistUpdate result
    whitelistInitialized := b.whitelistInitialized || changed.isSome }

/-- Handle one event; what it emits is a confidence. -/
def handle (rules : AddressRules P Addr) (b : GaugedBase P Addr) :
    BaseEvent P Addr E → GaugedBase P Addr × Option ℚ
  | .nodes result => (b.onWhitelistUpdate result, none)
  | .identifyReceived peer listenAddrs => b.onIdentifyEvent rules peer listenAddrs
  | event => ({ b with base := (b.base.handle rules event).1 }, none)

/-- The confidences announced in a run. -/
def announced (rules : AddressRules P Addr) (b : GaugedBase P Addr)
    (events : List (BaseEvent P Addr E)) : List ℚ :=
  (outputs (handle rules) b events).reduceOption

end GaugedBase

section Steps

variable {identified size k : Nat}

/-- Ten times a rounded tenth rounds to the tenth. -/
theorem binary32_ten_mul_confidenceOf (hk : k ≤ 10) : binary32 (confidenceOf k * 10) = k := by
  interval_cases k <;> decide +kernel

theorem binary32_one : binary32 1 = 1 := by decide +kernel

theorem confidenceOf_le_one (hk : k ≤ 10) : confidenceOf k ≤ 1 := by
  have hle : (k : ℚ) / 10 ≤ 1 := by
    rw [div_le_one (by norm_num)]
    exact_mod_cast hk
  exact (binary32_mono hle).trans_eq binary32_one

/-- Different steps are different confidences. -/
theorem confidenceOf_strictMono {j : Nat} (hjk : j < k) (hk : k ≤ 10) :
    confidenceOf j < confidenceOf k := by
  refine lt_of_le_of_ne (binary32_mono (by gcongr)) fun he => ?_
  have hj := binary32_ten_mul_confidenceOf (hjk.le.trans hk)
  rw [he, binary32_ten_mul_confidenceOf hk] at hj
  exact hjk.ne (by exact_mod_cast hj.symm)

/-- A step is below any number that the rounded part is below. -/
theorem confidenceStep_lt_of_lt (h : binary32 (confidenceRaw identified size * 10) < (k : ℚ)) :
    confidenceStep identified size < k := by
  have hfloor : ⌊binary32 (confidenceRaw identified size * 10)⌋ < (k : ℤ) :=
    Int.floor_lt.mpr (by exact_mod_cast h)
  have hzero : 0 ≤ ⌊binary32 (confidenceRaw identified size * 10)⌋ :=
    Int.floor_nonneg.mpr (binary32_nonneg _)
  unfold confidenceStep
  omega

theorem confidenceRaw_le_one (identified size : Nat) : confidenceRaw identified size ≤ 1 :=
  min_le_right _ _

theorem confidenceStep_le_ten (identified size : Nat) : confidenceStep identified size ≤ 10 := by
  have hraw : confidenceRaw identified size * 10 ≤ confidenceOf 10 * 10 :=
    mul_le_mul_of_nonneg_right
      ((confidenceRaw_le_one identified size).trans_eq (by decide +kernel)) (by norm_num)
  have hrounded := binary32_mono hraw
  rw [binary32_ten_mul_confidenceOf le_rfl] at hrounded
  exact Nat.le_of_lt_succ (confidenceStep_lt_of_lt (hrounded.trans_lt (by norm_num)))

/-- The threshold of a network of up to 2^22 nodes is exact. -/
theorem threshold_eq (hsize : size ≤ 2 ^ 22) :
    binary32 (3 / 4 * binary32 size) = 3 / 4 * size := by
  have hquarters : (3 / 4 * size : ℚ) = ((3 * size : ℕ) : ℚ) * 2 ^ (-2 : ℤ) := by
    push_cast
    norm_num
    ring
  rw [binary32_natCast (by omega), hquarters, binary32_mul_zpow (by omega)]

/-- A part of the threshold that has been reached counts. -/
theorem le_confidenceStep (hpos : 0 < size) (hsize : size ≤ 2 ^ 22) (hk : k ≤ 10)
    (h : k * (3 * size) ≤ 40 * identified) : k ≤ confidenceStep identified size := by
  have hsizeQ : (0 : ℚ) < size := by exact_mod_cast hpos
  -- More peers than single precision can count are more than any threshold.
  have hcount : ((min identified (2 ^ 24 - 1) : ℕ) : ℚ) ≤ binary32 identified := by
    rw [← binary32_natCast (m := min identified (2 ^ 24 - 1)) (by omega)]
    exact binary32_mono (by exact_mod_cast min_le_left _ _)
  have hparts : (k : ℚ) * (3 * size) ≤ 40 * ((min identified (2 ^ 24 - 1) : ℕ) : ℚ) := by
    have : k * (3 * size) ≤ 10 * (3 * size) := Nat.mul_le_mul_right _ hk
    exact_mod_cast (show k * (3 * size) ≤ 40 * min identified (2 ^ 24 - 1) by omega)
  have hquotient : (k : ℚ) / 10 ≤ binary32 identified / binary32 (3 / 4 * binary32 size) := by
    rw [threshold_eq hsize, le_div_iff₀ (by positivity)]
    linarith
  have hraw : confidenceOf k ≤ confidenceRaw identified size :=
    le_min (binary32_mono hquotient) (confidenceOf_le_one hk)
  have hrounded := binary32_mono (mul_le_mul_of_nonneg_right hraw (by norm_num : (0 : ℚ) ≤ 10))
  rw [binary32_ten_mul_confidenceOf hk] at hrounded
  have hfloor := Int.floor_mono hrounded
  rw [Int.floor_natCast] at hfloor
  unfold confidenceStep
  omega

/-- A part of the threshold that has not been reached does not count: in a network of up to 2^18
nodes the two roundings are smaller than what is missing. -/
theorem confidenceStep_lt (hpos : 0 < size) (hsize : size ≤ 2 ^ 18) (hk : k < 10)
    (h : 40 * identified < (k + 1) * (3 * size)) : confidenceStep identified size < k + 1 := by
  have hsizeQ : (0 : ℚ) < size := by exact_mod_cast hpos
  have hall : (k + 1) * (3 * size) ≤ 10 * (3 * size) := Nat.mul_le_mul_right _ hk
  have hmissing : (40 * identified + 1 : ℚ) ≤ (k + 1) * (3 * size) := by exact_mod_cast h
  have hfew : (40 * identified : ℚ) ≤ 30 * 2 ^ 18 := by
    exact_mod_cast (show 40 * identified ≤ 30 * 2 ^ 18 by omega)
  have hquotient : binary32 identified / binary32 (3 / 4 * binary32 size) =
      4 * identified / (3 * size) := by
    rw [threshold_eq (hsize.trans (by norm_num)), binary32_natCast (by omega)]
    field_simp
  have hraw : confidenceRaw identified size ≤ 4 * identified / (3 * size) * (1 + 1 / 2 ^ 24) := by
    refine (min_le_left _ _).trans ?_
    rw [hquotient]
    exact binary32_le_mul (by positivity)
  have hrounded := (binary32_mono
    (mul_le_mul_of_nonneg_right hraw (by norm_num : (0 : ℚ) ≤ 10))).trans
    (binary32_le_mul (by positivity))
  refine confidenceStep_lt_of_lt (hrounded.trans_lt ?_)
  have hshape : (4 * identified / (3 * size) * (1 + 1 / 2 ^ 24) * 10 * (1 + 1 / 2 ^ 24) : ℚ) =
      40 * identified * (1 + 1 / 2 ^ 24) ^ 2 / (3 * size) := by ring
  rw [hshape, div_lt_iff₀ (by positivity)]
  push_cast
  linarith

/-- The tenths of three quarters of the nodes that are known. -/
def tenths (known nodes : Nat) : Nat := min (40 * known / (3 * nodes)) 10

theorem confidenceStep_eq_tenths (hpos : 0 < size) (hsize : size ≤ 2 ^ 18) :
    confidenceStep identified size = tenths identified size := by
  have hnodes : 0 < 3 * size := by omega
  refine le_antisymm ?_ ?_
  · rcases Nat.lt_or_ge (40 * identified / (3 * size)) 10 with hlt | hge
    · have hup := confidenceStep_lt hpos hsize hlt
        (Nat.lt_mul_of_div_lt (Nat.lt_succ_self _) hnodes)
      unfold tenths
      omega
    · exact (confidenceStep_le_ten identified size).trans (le_min hge le_rfl)
  · exact le_confidenceStep hpos (hsize.trans (by norm_num)) (min_le_right _ _)
      ((Nat.mul_le_mul_right _ (min_le_left _ _)).trans (Nat.div_mul_le_self _ _))

end Steps

namespace GaugedBase

variable {P Addr E : Type} [DecidableEq P] [DecidableEq Addr] {rules : AddressRules P Addr}

/-- The highest step announced so far, zero at first. -/
def peak (b : GaugedBase P Addr) : Nat := b.lastSentConfidenceStep.getD 0

omit [DecidableEq P] [DecidableEq Addr] in
/-- Nothing is announced, or a step above all before. -/
theorem tryEmitConfidence_cases (b : GaugedBase P Addr) :
    b.tryEmitConfidence = (b, none) ∨
    ∃ step, b.peak < step ∧ step ≤ 10 ∧ b.tryEmitConfidence =
      ({ b with lastSentConfidenceStep := some step }, some (confidenceOf step)) := by
  unfold tryEmitConfidence
  split
  · exact .inl rfl
  split
  · exact .inl rfl
  dsimp only
  split
  · exact .inl rfl
  next hzero =>
  split
  · exact .inl rfl
  · next hlast =>
    refine .inr ⟨_, ?_, confidenceStep_le_ten _ _, rfl⟩
    unfold peak
    cases hsent : b.lastSentConfidenceStep with
    | none => exact Nat.pos_of_ne_zero hzero
    | some last => simpa [hsent] using hlast

/-- An event announces nothing and keeps the peak, or raises it and announces that. -/
theorem handle_cases (rules : AddressRules P Addr) (b : GaugedBase P Addr)
    (event : BaseEvent P Addr E) :
    ((b.handle rules event).2 = none ∧ (b.handle rules event).1.peak = b.peak) ∨
    ∃ step, b.peak < step ∧ step ≤ 10 ∧ (b.handle rules event).1.peak = step ∧
      (b.handle rules event).2 = some (confidenceOf step) := by
  cases event with
  | identifyReceived peer listenAddrs =>
    simp only [handle, onIdentifyEvent]
    rcases tryEmitConfidence_cases
      { b with
        base := b.base.onIdentifyEvent rules peer listenAddrs
        identifiedPeers := insert peer b.identifiedPeers } with he | ⟨step, hlt, hle, he⟩
    · rw [he]
      exact .inl ⟨rfl, rfl⟩
    · rw [he]
      exact .inr ⟨step, hlt, hle, rfl, rfl⟩
  | nodes _ | allowPeer _ | kademlia _ | queryStarted | newExternalAddrOfPeer _ _
  | pendingOutboundConnection _ | cooldownExpires _ | connectionEstablished _ _
  | connectionClosed _ _ | dialFailure _ _ | poll => exact .inl ⟨rfl, rfl⟩

/-- The confidences that can still be announced. -/
def remaining (peak : Nat) : List ℚ := (List.range' (peak + 1) (10 - peak)).map confidenceOf

/-- After a step only higher ones remain. -/
theorem cons_remaining_sublist {peak step : Nat} (hlt : peak < step) (hle : step ≤ 10) :
    (confidenceOf step :: remaining step).Sublist (remaining peak) := by
  have hsplit : List.range' (peak + 1) (10 - peak) =
      List.range' (peak + 1) (step - peak - 1) ++ step :: List.range' (step + 1) (10 - step) := by
    rw [← List.range'_succ, show step = peak + 1 + (step - peak - 1) by omega,
      show peak + 1 + (step - peak - 1) - peak - 1 = step - peak - 1 by omega, List.range'_append_1]
    congr 1
    omega
  unfold remaining
  rw [hsplit, List.map_append]
  exact List.sublist_append_right _ _

theorem announced_sublist_remaining (rules : AddressRules P Addr) (b : GaugedBase P Addr)
    (events : List (BaseEvent P Addr E)) :
    (b.announced rules events).Sublist (remaining b.peak) := by
  induction events generalizing b with
  | nil => exact List.nil_sublist _
  | cons event events ih =>
    have hrest := ih (b.handle rules event).1
    rcases b.handle_cases rules event with ⟨hout, hpeak⟩ | ⟨step, hlt, hle, hpeak, hout⟩
    · rw [announced, outputs, hout, List.reduceOption_cons_of_none]
      rwa [hpeak] at hrest
    · rw [announced, outputs, hout, List.reduceOption_cons_of_some]
      rw [hpeak] at hrest
      exact (hrest.cons_cons _).trans (cons_remaining_sublist hlt hle)

/-- In every run the announced confidences go through the tenths from 0.1 to 1.0 in increasing
order, each at most once. -/
theorem announced_confidences_increase (rules : AddressRules P Addr) (config : BaseConfig)
    (bootNodes : List P) (maintain : Bool) (events : List (BaseEvent P Addr E)) :
    ((new config bootNodes maintain).announced rules events).Sublist
      ((List.range' 1 10).map confidenceOf) :=
  announced_sublist_remaining rules _ events

end GaugedBase

/-- What the announcements are about: the registered nodes, the peers that identified
themselves, and the highest tenth announced. -/
structure Reach (P : Type) where
  nodes : Finset P
  known : Finset P
  peak : Nat

namespace Reach

variable {P Addr E : Type} [DecidableEq P]

def start : Reach P := ⟨∅, ∅, 0⟩

/-- Announce a new peak. -/
def announce (r : Reach P) : Reach P × Option ℚ :=
  if r.peak < tenths r.known.card r.nodes.card then
    ({ r with peak := tenths r.known.card r.nodes.card },
      some (confidenceOf (tenths r.known.card r.nodes.card)))
  else (r, none)

/-- The last retrieved node set counts; a new peak is noticed when a peer is identified. -/
def step (r : Reach P) : BaseEvent P Addr E → Reach P × Option ℚ
  | .nodes (.ok nodes) => ({ r with nodes := nodes.all }, none)
  | .identifyReceived peer _ => announce { r with known := insert peer r.known }
  | _ => (r, none)

end Reach

/-- A network that single precision can measure. -/
def BaseEvent.Measurable {P Addr E : Type} [DecidableEq P] : BaseEvent P Addr E → Prop
  | .nodes (.ok retrieved) => retrieved.all.card ≤ 2 ^ 18
  | _ => True

/-- The behaviour knows what the announcements are about. -/
structure Gauges {P Addr : Type} (b : GaugedBase P Addr) (r : Reach P) : Prop where
  nodes : b.base.whitelist.registeredNodes = r.nodes
  initialized : b.whitelistInitialized = false → r.nodes = ∅
  known : b.identifiedPeers = r.known
  peak : b.peak = r.peak
  small : r.nodes.card ≤ 2 ^ 18

namespace Gauges

variable {P Addr E : Type} [DecidableEq P] [DecidableEq Addr] {rules : AddressRules P Addr}
  {b : GaugedBase P Addr} {r : Reach P}

omit [DecidableEq P] [DecidableEq Addr] in
/-- Without nodes there is nothing to announce. -/
theorem tenths_eq_zero (known : Nat) {nodes : Finset P} (h : nodes = ∅) :
    tenths known nodes.card = 0 := by
  simp [tenths, h]

omit [DecidableEq P] [DecidableEq Addr] in
/-- Both announce the same. -/
theorem announce (h : Gauges b r) :
    Gauges b.tryEmitConfidence.1 r.announce.1 ∧ b.tryEmitConfidence.2 = r.announce.2 := by
  have hquiet : r.nodes = ∅ → r.announce = (r, none) := fun hempty => by
    rw [Reach.announce, tenths_eq_zero _ hempty, if_neg (Nat.not_lt_zero _)]
  unfold GaugedBase.tryEmitConfidence
  split
  · next hinit =>
    rw [hquiet (h.initialized (by simpa using hinit))]
    exact ⟨h, rfl⟩
  split
  · next hsize =>
    rw [hquiet (by rw [← h.nodes]; exact Finset.card_eq_zero.mp hsize)]
    exact ⟨h, rfl⟩
  next hsize =>
  have hnodes : b.base.whitelist.whitelistSize = r.nodes.card := congrArg Finset.card h.nodes
  have hstep : confidenceStep b.identifiedPeers.card b.base.whitelist.whitelistSize =
      tenths r.known.card r.nodes.card := by
    rw [confidenceStep_eq_tenths (Nat.pos_of_ne_zero hsize) (hnodes.trans_le h.small), hnodes,
      h.known]
  dsimp only
  rw [hstep]
  have hpeak := h.peak
  unfold GaugedBase.peak at hpeak
  by_cases hlt : r.peak < tenths r.known.card r.nodes.card
  · have hnew : b.lastSentConfidenceStep.any (tenths r.known.card r.nodes.card ≤ ·) = false := by
      cases hsent : b.lastSentConfidenceStep with
      | none => rfl
      | some last =>
        rw [hsent] at hpeak
        simpa using hpeak.trans_lt hlt
    rw [if_neg (by omega), hnew, if_neg Bool.false_ne_true, Reach.announce, if_pos hlt]
    exact ⟨⟨h.nodes, h.initialized, h.known, rfl, h.small⟩, rfl⟩
  · rw [Reach.announce, if_neg hlt]
    split
    · exact ⟨h, rfl⟩
    · next hzero =>
      have hold : b.lastSentConfidenceStep.any (tenths r.known.card r.nodes.card ≤ ·) = true := by
        cases hsent : b.lastSentConfidenceStep with
        | none =>
          rw [hsent] at hpeak
          exact absurd (hpeak.symm.trans_lt (Nat.pos_of_ne_zero hzero)) hlt
        | some last =>
          rw [hsent] at hpeak
          simpa [← hpeak] using hlt
      rw [hold, if_pos rfl]
      exact ⟨h, rfl⟩

omit [DecidableEq Addr] in
/-- A retrieved node set counts on both sides. -/
theorem nodes_ok (h : Gauges b r) {nodes : RetrievedNodes P} (hsmall : nodes.all.card ≤ 2 ^ 18) :
    Gauges (b.onWhitelistUpdate (.ok nodes : Except E _)) { r with nodes := nodes.all } := by
  have hregistry := congrArg Prod.fst (b.base.registry_onWhitelistUpdate (E := E) nodes)
  refine ⟨?_, ?_, h.known, h.peak, hsmall⟩
  · refine hregistry.trans ?_
    split
    · next hsame => exact hsame.symm
    · rfl
  · intro hinit
    obtain ⟨hbefore, hchanged⟩ := Bool.or_eq_false_iff.mp hinit
    by_cases hsame : nodes.all = b.base.whitelist.registeredNodes
    · exact hsame.trans (h.nodes.trans (h.initialized hbefore))
    · simp [WhitelistBehavior.onNodesUpdate, Except.map, hsame] at hchanged

/-- Other events change nothing on either side. -/
theorem other (h : Gauges b r) {event : BaseEvent P Addr E}
    (hevent : ∀ nodes, event ≠ .nodes (.ok nodes)) :
    Gauges { b with base := (b.base.handle rules event).1 } r :=
  { h with nodes := (congrArg Prod.fst (b.base.registry_handle rules event hevent)).trans h.nodes }

theorem step (h : Gauges b r) (rules : AddressRules P Addr) (event : BaseEvent P Addr E)
    (hsmall : event.Measurable) :
    Gauges (b.handle rules event).1 (r.step event).1 ∧
      (b.handle rules event).2 = (r.step event).2 := by
  cases event with
  | nodes result =>
    cases result with
    | ok nodes => exact ⟨h.nodes_ok hsmall, rfl⟩
    | error e =>
      exact ⟨⟨h.nodes, fun hinit => h.initialized (Bool.or_eq_false_iff.mp hinit).1, h.known,
        h.peak, h.small⟩, rfl⟩
  | identifyReceived peer listenAddrs =>
    exact announce ⟨h.nodes, h.initialized, congrArg (insert peer) h.known, h.peak, h.small⟩
  | allowPeer _ | kademlia _ | queryStarted | newExternalAddrOfPeer _ _
  | pendingOutboundConnection _ | cooldownExpires _ | connectionEstablished _ _
  | connectionClosed _ _ | dialFailure _ _ | poll => exact ⟨h.other (by simp), rfl⟩

end Gauges

namespace GaugedBase

variable {P Addr E : Type} [DecidableEq P] [DecidableEq Addr]

omit [DecidableEq Addr] in
theorem gauges_new (config : BaseConfig) (bootNodes : List P) (maintain : Bool) :
    Gauges (new config bootNodes maintain : GaugedBase P Addr) .start where
  nodes := by cases maintain <;> exact WhitelistBehavior.registeredNodes_foldl_allowPeer _ .new
  initialized := fun _ => rfl
  known := rfl
  peak := rfl
  small := Nat.zero_le _

/-- In a network of up to 2^18 nodes single precision makes no difference: each announcement is
the exact number of tenths, made at the event at which it first exceeds all before. -/
theorem announcements_are_exact_tenths (rules : AddressRules P Addr) (config : BaseConfig)
    (bootNodes : List P) (maintain : Bool) (events : List (BaseEvent P Addr E))
    (hsmall : ∀ event ∈ events, event.Measurable) :
    outputs (handle rules) (new config bootNodes maintain) events =
      outputs Reach.step Reach.start events := by
  refine outputs_eq_of_simulation (R := Gauges) ?_ (gauges_new config bootNodes maintain)
  intro b r event hevent h
  exact h.step rules event (hsmall event hevent)

/-- Two of four registered nodes and a peer that is not registered identify themselves; the tenths
in between are skipped. -/
theorem announcements_are_exact_tenths_sample :
    outputs (handle (AddressRules.plain Nat Nat)) (new ⟨20, 16, by decide⟩ [] false)
      ([.nodes (.ok (.single {1, 2, 3} 4)), .identifyReceived 1 [], .identifyReceived 2 [],
        .identifyReceived 7 []] : List (BaseEvent Nat Nat Unit)) =
      [none, some (confidenceOf 3), some (confidenceOf 6), some (confidenceOf 10)] := by
  refine (announcements_are_exact_tenths _ _ _ _ _ ?_).trans (by decide +kernel)
  simp only [List.forall_mem_cons]
  exact ⟨show Finset.card _ ≤ _ by decide, trivial, trivial, trivial, by simp⟩

end GaugedBase

end SqdNetwork.Transport
