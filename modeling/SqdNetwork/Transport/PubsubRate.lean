import SqdNetwork.Core.Burst
import SqdNetwork.Core.Script
import SqdNetwork.Transport.Pubsub

/-!
# The rate of accepted pub-sub messages

The state of a peer counts its messages in windows. A window opens no sooner than
`min_interval` after the last one, and admits `max_burst` messages; refusals for the
number or the order are not counted, refusals for the rate are. So the messages
accepted from a peer in any interval of that length are fewer than two bursts.
-/

namespace SqdNetwork.Transport

open SqdNetwork.Core

variable {P V : Type}

/-- The window of a peer. -/
def PeerState.window (s : PeerState) : Window := ⟨s.lastTime, s.burst.toNat⟩

theorem seen_window (s : PeerState) : s.window.seen = s.burst.toNat := rfl

/-- Counting a message counts it into the window, unless the counter overflows. -/
theorem window_countBurst {profile : Profile} {config : MsgValidationConfig P V} {s s' : PeerState}
    {clock : Clock} (h : s.countBurst profile config clock = .ok s')
    (hfits : s.burst.toNat + 1 < 2 ^ 32) :
    s'.window = s.window.count config.minInterval clock.checked clock.reopened := by
  rcases countBurst_cases h with ⟨hwithin, burst, hadd, rfl⟩ | ⟨hlate, rfl⟩
  · have hcount : s.window.count config.minInterval clock.checked clock.reopened =
        ⟨s.lastTime, s.burst.toNat + 1⟩ := if_pos hwithin
    rw [hcount]
    exact congrArg (Window.mk s.lastTime) (Exec.toNat_of_addU32 hadd hfits)
  · exact (if_neg hlate).symm

/-- The clock does not run backwards, neither from message to message nor within one. -/
structure Timely (msgs : List (TopicMsg P)) : Prop where
  between : msgs.Pairwise fun m m' => m.clock.reopened ≤ m'.clock.checked
  within : ∀ m ∈ msgs, m.clock.checked ≤ m.clock.reopened

theorem timely_append_singleton {msgs : List (TopicMsg P)} {m : TopicMsg P}
    (h : Timely (msgs ++ [m])) : Timely msgs ∧
      (∀ m' ∈ msgs, m'.clock.reopened ≤ m.clock.checked) ∧ m.clock.checked ≤ m.clock.reopened := by
  obtain ⟨hbetween, hwithin⟩ := h
  obtain ⟨hmsgs, -, hlast⟩ := List.pairwise_append.mp hbetween
  rw [List.forall_mem_append] at hwithin
  exact ⟨⟨hmsgs, hwithin.1⟩, fun m' hm' => hlast m' hm' m (List.mem_singleton_self m),
    hwithin.2 m (List.mem_singleton_self m)⟩

variable [DecidableEq P]

/-- When the accepted messages of a peer came. -/
def acceptedTimes (peer : P) (log : List (TopicMsg P × Except ValidationError Unit)) : List Nat :=
  (log.filter fun e => e.1.peerId = peer ∧ e.2 = .ok ()).map fun e => e.1.clock.checked

section AcceptedTimes

variable {peer : P} {log : List (TopicMsg P × Except ValidationError Unit)} {m : TopicMsg P}

theorem acceptedTimes_append_other {result : Except ValidationError Unit}
    (h : ¬ (m.peerId = peer ∧ result = .ok ())) :
    acceptedTimes peer (log ++ [(m, result)]) = acceptedTimes peer log := by
  rw [acceptedTimes, List.filter_append, List.filter_singleton]
  simp [h, acceptedTimes]

theorem acceptedTimes_append_accepted (h : m.peerId = peer) :
    acceptedTimes peer (log ++ [(m, .ok ())]) = acceptedTimes peer log ++ [m.clock.checked] := by
  rw [acceptedTimes, List.filter_append, List.filter_singleton]
  simp [h, acceptedTimes]

/-- The accepted messages came in order. -/
theorem sorted_acceptedTimes (h : Timely (log.map Prod.fst)) :
    (acceptedTimes peer log).Pairwise (· ≤ ·) := by
  have hlog := List.pairwise_map.mp h.between
  refine List.pairwise_map.mpr ((hlog.filter _).imp_of_mem ?_)
  intro e e' he he' hle
  have hwithin := h.within e.1 (List.mem_map_of_mem (List.mem_filter.mp he).1)
  exact hwithin.trans hle

end AcceptedTimes

/-- The window of a peer accounts for what was accepted from it. -/
structure Metered (peer : P) (limits : MsgValidationConfig P V) (t : TopicState P V)
    (log : List (TopicMsg P × Except ValidationError Unit)) : Prop where
  minInterval : t.validationConfig.minInterval = limits.minInterval
  maxBurst : t.validationConfig.maxBurst = limits.maxBurst
  unknown : t.peerStates peer = none → acceptedTimes peer log = []
  known : ∀ s, t.peerStates peer = some s →
    s.burst.toNat ≤ (log.map Prod.fst).countP (fun m => m.peerId = peer) ∧
    ∃ opened now, s.window.Accounts limits.maxBurst.toNat limits.minInterval
      (acceptedTimes peer log) opened now ∧ ∃ m ∈ log.map Prod.fst, now ≤ m.clock.reopened

namespace Metered

variable {peer : P} {limits : MsgValidationConfig P V} {profile : Profile}
  {t t' : TopicState P V} {log : List (TopicMsg P × Except ValidationError Unit)} {m : TopicMsg P}
  {result : Except ValidationError Unit}

omit [DecidableEq P] in
theorem limits_of_withValidator {v : V}
    (h : t'.validationConfig = (t.withValidator v).validationConfig) :
    t'.validationConfig.minInterval = t.validationConfig.minInterval ∧
      t'.validationConfig.maxBurst = t.validationConfig.maxBurst := by
  rw [h]
  exact ⟨rfl, rfl⟩

/-- A message that neither touches the state of the peer nor is accepted from it. -/
theorem unchanged (h : Metered peer limits t log)
    (hstep : t.validateMsg profile m = .ok (t', result))
    (hstate : t'.peerStates peer = t.peerStates peer)
    (hnot : ¬ (m.peerId = peer ∧ result = .ok ())) :
    Metered peer limits t' (log ++ [(m, result)]) := by
  obtain ⟨v, hconfig⟩ := validationConfig_validateMsg hstep
  obtain ⟨hinterval, hburst⟩ := limits_of_withValidator hconfig
  refine ⟨hinterval.trans h.minInterval, hburst.trans h.maxBurst, ?_, ?_⟩
  · rw [hstate, acceptedTimes_append_other hnot]
    exact h.unknown
  · rw [hstate, acceptedTimes_append_other hnot]
    intro s hs
    obtain ⟨hcount, opened, now, haccounts, m', hm', hnow⟩ := h.known s hs
    rw [List.map_append]
    refine ⟨?_, opened, now, haccounts, m', List.mem_append_left _ hm', hnow⟩
    rw [List.countP_append]
    exact Nat.le_add_right_of_le hcount

/-- A message of the peer that gives it a new state. -/
theorem updated (h : Metered peer limits t log)
    (hstep : t.validateMsg profile m = .ok (t', result)) {s : PeerState}
    (hstate : t'.peerStates peer = some s) (hm : m.peerId = peer)
    (hcount : s.burst.toNat ≤ (log.map Prod.fst).countP (fun m => m.peerId = peer) + 1)
    (haccounts : ∃ opened, s.window.Accounts limits.maxBurst.toNat limits.minInterval
      (acceptedTimes peer (log ++ [(m, result)])) opened m.clock.reopened) :
    Metered peer limits t' (log ++ [(m, result)]) := by
  obtain ⟨v, hconfig⟩ := validationConfig_validateMsg hstep
  obtain ⟨hinterval, hburst⟩ := limits_of_withValidator hconfig
  obtain ⟨opened, haccounts⟩ := haccounts
  refine ⟨hinterval.trans h.minInterval, hburst.trans h.maxBurst, ?_, ?_⟩
  · rw [hstate]
    intro hnone
    cases hnone
  · rw [hstate]
    intro s' hs'
    cases hs'
    rw [List.map_append, List.countP_append, List.map_singleton, List.countP_singleton]
    exact ⟨by simpa [hm] using hcount, opened, m.clock.reopened, haccounts, m,
      List.mem_append_right _ (List.mem_singleton_self m), Nat.le_refl _⟩

/-- A message of the peer itself. -/
theorem stepOwn (h : Metered m.peerId limits t log) (hburst : 1 ≤ limits.maxBurst.toNat)
    (hbefore : ∀ m' ∈ log.map Prod.fst, m'.clock.reopened ≤ m.clock.checked)
    (hwithin : m.clock.checked ≤ m.clock.reopened)
    (hroom : (log.map Prod.fst).countP (fun m' => m'.peerId = m.peerId) + 1 < 2 ^ 32)
    (hstep : t.validateMsg profile m = .ok (t', result)) :
    Metered m.peerId limits t' (log ++ [(m, result)]) := by
  obtain ⟨v, checked, -, hcases⟩ := TopicState.validateMsg_cases hstep
  rcases hcases with ⟨e, -, rfl, rfl⟩ | ⟨-, hnone, rfl, rfl⟩ | ⟨s, s', -, hs, hpeer, rfl⟩
  · exact h.unchanged hstep rfl fun haccepted => by cases haccepted.2
  · refine h.updated hstep (peerStates_setPeer_self _ _ _) rfl (Nat.le_add_left 1 _) ?_
    rw [acceptedTimes_append_accepted rfl, h.unknown hnone]
    exact ⟨m.clock.checked, Window.Accounts.first hburst hwithin⟩
  · obtain ⟨hcount, opened, now, haccounts, m', hm', hnow⟩ := h.known s hs
    rcases PeerState.validateMsg_cases hpeer with ⟨e, rfl, rfl⟩ |
      ⟨horizon, counted, -, -, -, hcounted, hverdict⟩
    · refine h.unchanged hstep ?_ fun haccepted => by cases haccepted.2
      rw [peerStates_setPeer_self, hs]
    · have hwindow := window_countBurst hcounted (by omega)
      obtain ⟨opened', hafter⟩ := haccounts.count hburst (hnow.trans (hbefore m' hm')) hwithin
      rw [h.minInterval] at hwindow
      rw [← hwindow, seen_window] at hafter
      have hseen : counted.burst.toNat ≤ s.burst.toNat + 1 := by
        have hle := Window.seen_count_le limits.minInterval s.window m.clock.checked
          m.clock.reopened
        rwa [← hwindow] at hle
      have hcount' := hseen.trans (Nat.succ_le_succ hcount)
      have hstate := peerStates_setPeer_self (t.withValidator v) s' m.peerId
      rcases hverdict with ⟨hmany, ⟨e, rfl⟩, rfl⟩ | ⟨hfew, rfl, rfl⟩
      · refine h.updated hstep hstate rfl hcount' ⟨opened', ?_⟩
        rw [h.maxBurst, UInt32.lt_iff_toNat_lt] at hmany
        rw [if_neg (Nat.not_le.mpr hmany)] at hafter
        rwa [acceptedTimes_append_other fun haccepted => by cases haccepted.2]
      · refine h.updated hstep hstate rfl hcount' ⟨opened', ?_⟩
        rw [h.maxBurst, UInt32.le_iff_toNat_le] at hfew
        rw [if_pos hfew] at hafter
        rwa [acceptedTimes_append_accepted rfl]

/-- Every message leaves the peer metered, as long as the clock keeps going and the messages of
the peer are fewer than its counter can count. -/
theorem step (h : Metered peer limits t log) (hburst : 1 ≤ limits.maxBurst.toNat)
    (htimely : Timely ((log ++ [(m, result)]).map Prod.fst))
    (hfew : ((log ++ [(m, result)]).map Prod.fst).countP (fun m => m.peerId = peer) < 2 ^ 32)
    (hstep : t.validateMsg profile m = .ok (t', result)) :
    Metered peer limits t' (log ++ [(m, result)]) := by
  rw [List.map_append, List.map_singleton] at htimely hfew
  obtain ⟨-, hbefore, hwithin⟩ := timely_append_singleton htimely
  by_cases hm : m.peerId = peer
  · subst hm
    rw [List.countP_append, List.countP_singleton] at hfew
    exact h.stepOwn hburst hbefore hwithin (by simpa using hfew) hstep
  · exact h.unchanged hstep (peerStates_validateMsg_ne hstep (Ne.symm hm))
      fun haccepted => hm haccepted.1

end Metered

/-- Throughout a run the peer stays metered. -/
theorem metered_of_run {peer : P} {limits : MsgValidationConfig P V} {profile : Profile}
    {t t' : TopicState P V} {msgs : List (TopicMsg P)}
    {log : List (TopicMsg P × Except ValidationError Unit)}
    (hburst : 1 ≤ limits.maxBurst.toNat) (htimely : Timely msgs)
    (hfew : msgs.countP (fun m => m.peerId = peer) < 2 ^ 32) (h0 : Metered peer limits t [])
    (hrun : runScript (TopicState.validateMsg profile) t msgs = .ok (t', log)) :
    Metered peer limits t' log := by
  have hops := map_fst_of_runScript hrun
  refine runScript_invariant (I := fun t log => Timely (log.map Prod.fst) →
    (log.map Prod.fst).countP (fun m => m.peerId = peer) < 2 ^ 32 → Metered peer limits t log)
    ?_ (fun _ _ => h0) hrun (by rwa [List.nil_append, hops]) (by rwa [List.nil_append, hops])
  intro s s' m r log hlog hstep htimely hfew
  refine (hlog ?_ ?_).step hburst htimely hfew hstep
  · rw [List.map_append] at htimely
    exact (timely_append_singleton htimely).1
  · rw [List.map_append, List.countP_append] at hfew
    omega

/-- Of fewer than 2^32 messages of a peer, on a clock that does not run backwards, fewer than two
bursts are accepted in any half-open interval as long as `min_interval`; when bursts are of one
message, accepted messages are at least `min_interval` apart. -/
theorem pubsub_rate_bound {P V : Type} [DecidableEq P] (profile : Profile) (name : String)
    (config : MsgValidationConfig P V) (hburst : 1 ≤ config.maxBurst.toNat)
    (msgs : List (TopicMsg P)) (htimely : Timely msgs) (peer : P)
    (hfew : msgs.countP (fun m => m.peerId = peer) < 2 ^ 32) {t : TopicState P V}
    {log : List (TopicMsg P × Except ValidationError Unit)}
    (hrun : runScript (TopicState.validateMsg profile) (.new name config) msgs = .ok (t, log)) :
    (∀ x, countIn config.minInterval x (acceptedTimes peer log) ≤
      2 * config.maxBurst.toNat - 1) ∧
    (config.maxBurst = 1 →
      (acceptedTimes peer log).Pairwise fun a b => a + config.minInterval ≤ b) := by
  have hstart : Metered peer config (TopicState.new name config) [] :=
    ⟨rfl, rfl, fun _ => rfl, fun s hs => by cases hs⟩
  have hmetered := metered_of_run hburst htimely hfew hstart hrun
  have hbound : ∀ x, countIn config.minInterval x (acceptedTimes peer log) ≤
      2 * config.maxBurst.toNat - 1 := by
    intro x
    cases hs : t.peerStates peer with
    | none =>
      rw [hmetered.unknown hs]
      exact Nat.zero_le _
    | some s =>
      obtain ⟨-, opened, now, haccounts, -⟩ := hmetered.known s hs
      exact haccounts.countIn_le hburst x
  refine ⟨hbound, fun hone => ?_⟩
  apply apart_of_countIn_le_one
  · rw [hone] at hbound
    exact hbound
  · apply sorted_acceptedTimes
    rwa [map_fst_of_runScript hrun]

/-- Four messages of one peer, the third and fourth half an interval after the second. -/
def quickMsgs : List (TopicMsg Nat) :=
  [⟨1, 10, [], ⟨100, 0, 0⟩⟩, ⟨1, 20, [], ⟨100, 999, 1000⟩⟩, ⟨1, 30, [], ⟨100, 1500, 1500⟩⟩,
    ⟨1, 40, [], ⟨100, 1500, 1500⟩⟩]

theorem pubsub_rate_bound_sample : ∃ t log,
    runScript (TopicState.validateMsg .debug) (.new "pings" (.new 1000)) quickMsgs =
      .ok (t, log) ∧ Timely quickMsgs ∧
    ∀ x, countIn 1000 x (acceptedTimes 1 log) ≤ 2 * (1 : UInt32).toNat - 1 := by
  have htimely : Timely quickMsgs := ⟨by decide, by decide⟩
  exact ⟨_, _, rfl, htimely, (pubsub_rate_bound .debug "pings" (.new 1000) (by decide) quickMsgs
    htimely 1 (by decide) rfl).1⟩

end SqdNetwork.Transport
