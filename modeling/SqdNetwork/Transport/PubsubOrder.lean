import SqdNetwork.Core.Script
import SqdNetwork.Transport.Pubsub

/-!
# The order of accepted pub-sub messages

The highest number accepted from a peer only grows, and a later message is accepted
only if it is less than `keep_last` behind. Peers do not affect each other. The
first message of a peer is taken as it is, so a number from the future gets in
there, and nowhere else.
-/

namespace SqdNetwork.Transport

open SqdNetwork.Core

variable {P V : Type}

/-- The highest number accepted from a peer. -/
def TopicState.lastSeqNo (t : TopicState P V) (peer : P) : Option UInt64 :=
  (t.peerStates peer).map PeerState.lastSeqNo

/-- The system clock is between 1970 and 2554. -/
def Clock.InRange (clock : Clock) : Prop := 0 ≤ clock.system ∧ clock.system < 2 ^ 64

variable [DecidableEq P] {profile : Profile} {t t' : TopicState P V} {m : TopicMsg P}

section Steps

theorem lastSeqNo_setPeer (t : TopicState P V) (peer : P) (s : PeerState) :
    (t.setPeer peer s).lastSeqNo = Function.update t.lastSeqNo peer (some s.lastSeqNo) := by
  ext1 p
  by_cases hp : p = peer
  · subst hp
    rw [TopicState.lastSeqNo, peerStates_setPeer_self, Function.update_self]
    rfl
  · rw [TopicState.lastSeqNo, peerStates_setPeer_ne _ _ hp, Function.update_of_ne hp]
    rfl

/-- A message that is not accepted leaves the highest numbers alone. -/
theorem lastSeqNo_of_rejected {e : ValidationError}
    (h : t.validateMsg profile m = .ok (t', .error e)) : t'.lastSeqNo = t.lastSeqNo := by
  have hsame : ∀ v s s', t.peerStates m.peerId = some s → s'.lastSeqNo = s.lastSeqNo →
      ((t.withValidator v).setPeer m.peerId s').lastSeqNo = t.lastSeqNo := by
    intro v s s' hs hlast
    have hknown : t.lastSeqNo m.peerId = some s.lastSeqNo := by rw [TopicState.lastSeqNo, hs]; rfl
    rw [lastSeqNo_setPeer, hlast, ← hknown]
    exact Function.update_eq_self _ _
  obtain ⟨v, checked, -, hcases⟩ := TopicState.validateMsg_cases h
  rcases hcases with ⟨e', -, -, rfl⟩ | ⟨-, -, hresult, -⟩ | ⟨s, s', -, hs, hpeer, rfl⟩
  · rfl
  · cases hresult
  · rcases PeerState.validateMsg_cases hpeer with ⟨e', -, rfl⟩ |
      ⟨horizon, counted, -, -, -, hcounted, ⟨-, -, rfl⟩ | ⟨-, hresult, -⟩⟩
    · exact hsame v _ _ hs rfl
    · exact hsame v _ _ hs (lastSeqNo_countBurst hcounted)
    · cases hresult

/-- An accepted message is the first of its peer or less than `keep_last` behind the highest, which
it raises. -/
theorem lastSeqNo_of_accepted (h : t.validateMsg profile m = .ok (t', .ok ())) :
    (t.lastSeqNo m.peerId = none ∧
      t'.lastSeqNo = Function.update t.lastSeqNo m.peerId (some m.seqNo)) ∨
    ∃ last horizon, t.lastSeqNo m.peerId = some last ∧ SeqNoPresent m.seqNo m.clock ∧
      Exec.addU64 profile m.seqNo t.validationConfig.keepLast = .ok horizon ∧ last < horizon ∧
      t'.lastSeqNo = Function.update t.lastSeqNo m.peerId (some (maxU64 last m.seqNo)) := by
  obtain ⟨v, checked, -, hcases⟩ := TopicState.validateMsg_cases h
  rcases hcases with ⟨e', -, hresult, -⟩ | ⟨-, hnone, -, rfl⟩ | ⟨s, s', -, hs, hpeer, rfl⟩
  · cases hresult
  · refine Or.inl ⟨by rw [TopicState.lastSeqNo, hnone]; rfl, ?_⟩
    rw [lastSeqNo_setPeer]
    rfl
  · rcases PeerState.validateMsg_cases hpeer with ⟨e', hresult, -⟩ |
      ⟨horizon, counted, hpresent, hhorizon, hlt, hcounted, ⟨-, ⟨e', hresult⟩, -⟩ | ⟨-, -, rfl⟩⟩
    · cases hresult
    · cases hresult
    · refine Or.inr ⟨s.lastSeqNo, horizon, by rw [TopicState.lastSeqNo, hs]; rfl, hpresent,
        hhorizon, hlt, ?_⟩
      rw [lastSeqNo_setPeer, lastSeqNo_countBurst hcounted]
      rfl

end Steps

section Runs

/-- The log of a topic is in order: the highest numbers cover what was accepted, and no accepted
message is `keep_last` or more behind an earlier one of its peer. -/
structure Ordered (keepLast : UInt64) (t : TopicState P V)
    (log : List (TopicMsg P × Except ValidationError Unit)) : Prop where
  config : t.validationConfig.keepLast = keepLast
  highest : ∀ e ∈ log, e.2 = .ok () → ∃ last, t.lastSeqNo e.1.peerId = some last ∧
    e.1.seqNo ≤ last
  ordered : log.Pairwise fun e e' => e.1.peerId = e'.1.peerId → e.2 = .ok () → e'.2 = .ok () →
    e.1.seqNo.toNat < e'.1.seqNo.toNat + keepLast.toNat

variable {keepLast : UInt64} {log : List (TopicMsg P × Except ValidationError Unit)}

theorem Ordered.reject (h : Ordered keepLast t log) {e : ValidationError}
    (hstep : t.validateMsg profile m = .ok (t', .error e)) :
    Ordered keepLast t' (log ++ [(m, .error e)]) := by
  obtain ⟨v, hconfig⟩ := validationConfig_validateMsg hstep
  refine ⟨by rw [hconfig]; exact h.config, ?_, ?_⟩
  · rw [lastSeqNo_of_rejected hstep]
    intro entry hentry haccepted
    rcases List.mem_append.mp hentry with hentry | hentry
    · exact h.highest entry hentry haccepted
    · rw [List.mem_singleton.mp hentry] at haccepted
      cases haccepted
  · refine List.pairwise_append.mpr ⟨h.ordered, List.pairwise_singleton _ _, ?_⟩
    intro entry _ entry' hentry' _ _ haccepted
    rw [List.mem_singleton.mp hentry'] at haccepted
    cases haccepted

theorem Ordered.accept (h : Ordered keepLast t log)
    (hfits : m.seqNo.toNat + keepLast.toNat < 2 ^ 64)
    (hstep : t.validateMsg profile m = .ok (t', .ok ())) :
    Ordered keepLast t' (log ++ [(m, .ok ())]) := by
  obtain ⟨v, hconfig⟩ := validationConfig_validateMsg hstep
  -- The new highest number of the peer covers both the message and the number before.
  have hraised : ∃ top, t'.lastSeqNo = Function.update t.lastSeqNo m.peerId (some top) ∧
      m.seqNo ≤ top ∧ ∀ last, t.lastSeqNo m.peerId = some last →
        last ≤ top ∧ last.toNat < m.seqNo.toNat + keepLast.toNat := by
    rcases lastSeqNo_of_accepted hstep with ⟨hnone, hnext⟩ |
      ⟨last, horizon, hlast, -, hhorizon, hlt, hnext⟩
    · refine ⟨m.seqNo, hnext, UInt64.le_refl _, fun last hlast => ?_⟩
      rw [hnone] at hlast
      cases hlast
    · refine ⟨maxU64 last m.seqNo, hnext, right_le_maxU64 _ _, fun last' hlast' => ?_⟩
      obtain rfl : last = last' := Option.some.inj (hlast.symm.trans hlast')
      rw [h.config] at hhorizon
      have hexact := Exec.toNat_of_addU64 hhorizon hfits
      have hnat := UInt64.lt_iff_toNat_lt.mp hlt
      exact ⟨left_le_maxU64 _ _, by omega⟩
  obtain ⟨top, hnext, hmine, hbefore⟩ := hraised
  refine ⟨by rw [hconfig]; exact h.config, ?_, ?_⟩
  · rw [hnext]
    intro entry hentry haccepted
    rcases List.mem_append.mp hentry with hentry | hentry
    · obtain ⟨last, hlast, hle⟩ := h.highest entry hentry haccepted
      by_cases hpeer : entry.1.peerId = m.peerId
      · rw [hpeer] at hlast ⊢
        exact ⟨top, Function.update_self _ _ _, UInt64.le_trans hle (hbefore last hlast).1⟩
      · rw [Function.update_of_ne hpeer]
        exact ⟨last, hlast, hle⟩
    · rw [List.mem_singleton.mp hentry]
      exact ⟨top, Function.update_self _ _ _, hmine⟩
  · refine List.pairwise_append.mpr ⟨h.ordered, List.pairwise_singleton _ _, ?_⟩
    intro entry hentry entry' hentry' hpeer haccepted _
    rw [List.mem_singleton.mp hentry'] at hpeer ⊢
    obtain ⟨last, hlast, hle⟩ := h.highest entry hentry haccepted
    rw [hpeer] at hlast
    have hnat := UInt64.le_iff_toNat_le.mp hle
    exact hnat.trans_lt (hbefore last hlast).2

/-- Throughout a run the log stays in order. -/
theorem ordered_of_run {msgs : List (TopicMsg P)}
    (hfits : ∀ m ∈ msgs, m.seqNo.toNat + keepLast.toNat < 2 ^ 64)
    (h0 : Ordered keepLast t [])
    (hrun : runScript (TopicState.validateMsg profile) t msgs = .ok (t', log)) :
    Ordered keepLast t' log := by
  have hall : ∀ e ∈ [] ++ log, e.1.seqNo.toNat + keepLast.toNat < 2 ^ 64 := by
    intro e he
    apply hfits
    rw [← map_fst_of_runScript hrun]
    exact List.mem_map_of_mem he
  refine runScript_invariant
    (I := fun t log => (∀ e ∈ log, e.1.seqNo.toNat + keepLast.toNat < 2 ^ 64) →
      Ordered keepLast t log) ?_ (fun _ => h0) hrun hall
  intro s s' m r log hlog hstep hall
  rw [List.forall_mem_append] at hall
  cases r with
  | error e => exact (hlog hall.1).reject hstep
  | ok u => exact (hlog hall.1).accept (hall.2 _ (List.mem_singleton_self _)) hstep

/-- Two topics that the messages of a peer do not tell apart. -/
def AlikeFor (peer : P) (t u : TopicState P V) : Prop :=
  t.validationConfig.msgValidator.AcceptsAll ∧ t.peerStates peer = u.peerStates peer ∧
    ∃ v, u.validationConfig = (t.withValidator v).validationConfig

/-- A message of the peer meets the same fate in both topics. -/
theorem AlikeFor.take {peer : P} {u : TopicState P V} (h : AlikeFor peer t u)
    (hm : m.peerId = peer) {result : Except ValidationError Unit}
    (hstep : t.validateMsg profile m = .ok (t', result)) :
    ∃ u', u.validateMsg profile m = .ok (u', result) ∧ AlikeFor peer t' u' := by
  subst hm
  obtain ⟨haccepts, hstate, w, hconfig⟩ := h
  obtain ⟨w', hw'⟩ := haccepts w m.peerId m.seqNo m.data
  have hu : u.validateMsg profile m = (u.withValidator w').validatePeer profile m := by
    simp only [TopicState.validateMsg, hconfig, TopicState.withValidator, hw', Exec.ok_bind]
  have hlimits : ∀ s : PeerState, s.validateMsg profile u.validationConfig m.seqNo m.clock =
      s.validateMsg profile t.validationConfig m.seqNo m.clock := by
    intro s
    rw [hconfig]
    rfl
  obtain ⟨v, checked, hchecked, hcases⟩ := TopicState.validateMsg_cases hstep
  obtain ⟨v', hv'⟩ := haccepts t.validationConfig.msgValidator.state m.peerId m.seqNo m.data
  rw [hv', Except.ok.injEq, Prod.mk.injEq] at hchecked
  obtain ⟨rfl, rfl⟩ := hchecked
  have halike : ∀ s, AlikeFor m.peerId ((t.withValidator v').setPeer m.peerId s)
      ((u.withValidator w').setPeer m.peerId s) := by
    intro s
    refine ⟨haccepts, ?_, w', ?_⟩
    · rw [peerStates_setPeer_self, peerStates_setPeer_self]
    · change (u.withValidator w').validationConfig = _
      simp only [TopicState.withValidator, hconfig]
      rfl
  rcases hcases with ⟨e, hnot, -⟩ | ⟨-, hnone, rfl, rfl⟩ | ⟨s, s', -, hs, hpeer, rfl⟩
  · cases hnot
  · refine ⟨_, ?_, halike (.new m.seqNo m.clock)⟩
    have hnone' : (u.withValidator w').peerStates m.peerId = none := hstate.symm.trans hnone
    rw [hu]
    simp only [TopicState.validatePeer, hnone']
  · refine ⟨_, ?_, halike s'⟩
    have hs' : (u.withValidator w').peerStates m.peerId = some s := hstate.symm.trans hs
    have hpeer' : s.validateMsg profile (u.withValidator w').validationConfig m.seqNo m.clock =
        .ok (s', result) := (hlimits s).trans hpeer
    rw [hu]
    simp only [TopicState.validatePeer, hs', hpeer', Exec.ok_bind]

/-- A message of another peer is not noticed. -/
theorem AlikeFor.skip {peer : P} {u : TopicState P V} (h : AlikeFor peer t u)
    (hm : m.peerId ≠ peer) {result : Except ValidationError Unit}
    (hstep : t.validateMsg profile m = .ok (t', result)) : AlikeFor peer t' u := by
  obtain ⟨haccepts, hstate, w, hconfig⟩ := h
  obtain ⟨v, hv⟩ := validationConfig_validateMsg hstep
  refine ⟨by rw [hv]; exact haccepts, ?_, w, ?_⟩
  · rw [peerStates_validateMsg_ne hstep (Ne.symm hm), hstate]
  · simp only [TopicState.withValidator, hv, hconfig]

end Runs

section Returns

/-- What is left to validate cannot make a topic panic: clocks and sums are in range, and no burst
counter can reach its end. -/
structure Safe (profile : Profile) (t : TopicState P V) (msgs : List (TopicMsg P)) : Prop where
  accepts : t.validationConfig.msgValidator.AcceptsAll
  clocks : ∀ m ∈ msgs, m.clock.InRange
  fits : ∀ m ∈ msgs, m.seqNo.toNat + t.validationConfig.keepLast.toNat < 2 ^ 64
  bursts : profile = .release ∨ msgs.length < 2 ^ 32 ∧
    ∀ peer s, t.peerStates peer = some s → s.burst.toNat + msgs.length < 2 ^ 32

omit [DecidableEq P] in
theorem returns_timestampNow {clock : Clock} (h : clock.InRange) :
    (timestampNow clock).Returns := by
  have hnat : clock.system.toNat < 2 ^ 64 := by
    have hpos := h.1
    have hlt := h.2
    omega
  simp only [timestampNow, if_pos h.1, Exec.expect_some, Exec.ok_bind, if_pos hnat]
  exact ⟨_, rfl⟩

omit [DecidableEq P] in
theorem returns_badSeqNo {clock : Clock} (h : clock.InRange) (seqNo : UInt64) :
    (PeerState.badSeqNo seqNo clock).Returns := by
  unfold PeerState.badSeqNo
  split
  · exact ⟨_, rfl⟩
  · exact (returns_timestampNow h).bind fun now _ => ⟨_, rfl⟩

omit [DecidableEq P] in
/-- Validation by the state of a peer returns, and leaves at most one more message counted. -/
theorem returns_validateMsg_peer (config : MsgValidationConfig P V) {s : PeerState}
    {seqNo : UInt64} {clock : Clock} (hclock : clock.InRange)
    (hfits : seqNo.toNat + config.keepLast.toNat < 2 ^ 64)
    (hburst : profile = .release ∨ s.burst.toNat + 1 < 2 ^ 32) :
    ∃ s' result, s.validateMsg profile config seqNo clock = .ok (s', result) := by
  have hcount : (s.countBurst profile config clock).Returns := by
    unfold PeerState.countBurst
    split
    · exact (Exec.returns_addU32 hburst).bind fun burst _ => ⟨_, rfl⟩
    · exact ⟨_, rfl⟩
  have hreturns : (s.validateMsg profile config seqNo clock).Returns := by
    refine (returns_badSeqNo hclock seqNo).bind fun bad _ => ?_
    cases bad with
    | true => exact ⟨_, rfl⟩
    | false =>
      refine (Exec.returns_addU64 hfits).bind fun horizon _ => ?_
      split
      · exact ⟨_, rfl⟩
      · refine hcount.bind fun counted _ => ?_
        split <;> exact ⟨_, rfl⟩
  obtain ⟨⟨s', result⟩, h⟩ := hreturns
  exact ⟨s', result, h⟩

omit [DecidableEq P] in
theorem burst_validateMsg_le {config : MsgValidationConfig P V} {s s' : PeerState}
    {seqNo : UInt64} {clock : Clock} {result : Except ValidationError Unit}
    (hburst : s.burst.toNat + 1 < 2 ^ 32)
    (h : s.validateMsg profile config seqNo clock = .ok (s', result)) :
    s'.burst.toNat ≤ s.burst.toNat + 1 := by
  have hcount : ∀ counted, s.countBurst profile config clock = .ok counted →
      counted.burst.toNat ≤ s.burst.toNat + 1 := by
    intro counted hcounted
    rcases countBurst_cases hcounted with ⟨-, burst, hadd, rfl⟩ | ⟨-, rfl⟩
    · exact (Exec.toNat_of_addU32 hadd hburst).le
    · exact Nat.le_add_left 1 _
  rcases PeerState.validateMsg_cases h with ⟨e, -, rfl⟩ |
    ⟨horizon, counted, -, -, -, hcounted, ⟨-, -, rfl⟩ | ⟨-, -, rfl⟩⟩
  · exact Nat.le_succ _
  · exact hcount _ hcounted
  · exact hcount counted hcounted

/-- A message leaves every burst counter at most one further. -/
theorem bursts_validateMsg {result : Except ValidationError Unit} {n : Nat}
    (h : t.validateMsg profile m = .ok (t', result)) (hn : n + 1 < 2 ^ 32)
    (hbursts : ∀ peer s, t.peerStates peer = some s → s.burst.toNat + (n + 1) < 2 ^ 32)
    (peer : P) (s : PeerState) (hs : t'.peerStates peer = some s) :
    s.burst.toNat + n < 2 ^ 32 := by
  by_cases hpeer : peer = m.peerId
  · subst hpeer
    obtain ⟨v, checked, -, hcases⟩ := TopicState.validateMsg_cases h
    rcases hcases with ⟨e, -, -, rfl⟩ | ⟨-, -, -, rfl⟩ | ⟨s₀, s₁, -, hs₀, hvalidate, rfl⟩
    · have hbefore := hbursts m.peerId s hs
      omega
    · rw [peerStates_setPeer_self] at hs
      cases hs
      change 1 + n < 2 ^ 32
      omega
    · rw [peerStates_setPeer_self] at hs
      cases hs
      have hbefore := hbursts m.peerId s₀ hs₀
      have hle := burst_validateMsg_le (by omega) hvalidate
      omega
  · rw [peerStates_validateMsg_ne h hpeer] at hs
    have hbefore := hbursts peer s hs
    omega

theorem Safe.step {msgs : List (TopicMsg P)} (h : Safe profile t (m :: msgs)) :
    ∃ t' result, t.validateMsg profile m = .ok (t', result) ∧ Safe profile t' msgs := by
  have hclock := h.clocks m List.mem_cons_self
  have hfits := h.fits m List.mem_cons_self
  obtain ⟨v, hv⟩ := h.accepts t.validationConfig.msgValidator.state m.peerId m.seqNo m.data
  have hstep : ∃ t' result, t.validateMsg profile m = .ok (t', result) := by
    have hstate : (t.withValidator v).peerStates m.peerId = t.peerStates m.peerId := rfl
    simp only [TopicState.validateMsg, hv, Exec.ok_bind, TopicState.validatePeer, hstate]
    cases hs : t.peerStates m.peerId with
    | none => exact ⟨_, _, rfl⟩
    | some s =>
      have hburst : profile = .release ∨ s.burst.toNat + 1 < 2 ^ 32 := by
        refine h.bursts.imp_right fun hlimit => ?_
        have hbefore := hlimit.2 m.peerId s hs
        rw [List.length_cons] at hbefore
        omega
      obtain ⟨s', result, hvalidate⟩ :=
        returns_validateMsg_peer (t.withValidator v).validationConfig hclock hfits hburst
      simp only [hvalidate, Exec.ok_bind]
      exact ⟨_, _, rfl⟩
  obtain ⟨t', result, hstep⟩ := hstep
  obtain ⟨w, hconfig⟩ := validationConfig_validateMsg hstep
  refine ⟨t', result, hstep, by rw [hconfig]; exact h.accepts,
    fun m' hm' => h.clocks m' (List.mem_cons_of_mem _ hm'), ?_, ?_⟩
  · intro m' hm'
    rw [hconfig]
    exact h.fits m' (List.mem_cons_of_mem _ hm')
  · refine h.bursts.imp_right fun hlimit => ?_
    rw [List.length_cons] at hlimit
    exact ⟨by omega, bursts_validateMsg hstep hlimit.1 hlimit.2⟩

end Returns

/-- With an accept-all check and numbers that leave room for `keep_last`: a run returns, but for
clocks out of range and burst counters that overflow in a debug build; every accepted message is
less than `keep_last` behind each one accepted earlier from its peer; a message that is not
accepted leaves the highest numbers alone; and a peer's messages have the same outcomes on their
own as among those of all peers. -/
theorem pubsub_replay_protection {P V : Type} [DecidableEq P] (profile : Profile) (name : String)
    (config : MsgValidationConfig P V) (hvalidator : config.msgValidator.AcceptsAll)
    (msgs : List (TopicMsg P))
    (hfits : ∀ m ∈ msgs, m.seqNo.toNat + config.keepLast.toNat < 2 ^ 64) :
    ((∀ m ∈ msgs, m.clock.InRange) → profile = .release ∨ msgs.length < 2 ^ 32 →
      (runScript (TopicState.validateMsg profile) (.new name config) msgs).Returns) ∧
    (∀ t log, runScript (TopicState.validateMsg profile) (.new name config) msgs = .ok (t, log) →
      (log.Pairwise fun e e' => e.1.peerId = e'.1.peerId → e.2 = .ok () → e'.2 = .ok () →
        e.1.seqNo.toNat < e'.1.seqNo.toNat + config.keepLast.toNat) ∧
      ∀ peer, ∃ t', runScript (TopicState.validateMsg profile) (.new name config)
        (msgs.filter fun m => m.peerId = peer) =
          .ok (t', log.filter fun e => e.1.peerId = peer)) ∧
    ∀ (t t' : TopicState P V) m e, t.validateMsg profile m = .ok (t', .error e) →
      t'.lastSeqNo = t.lastSeqNo := by
  refine ⟨fun hclocks hbursts => ?_, fun t log hrun => ⟨?_, fun peer => ?_⟩,
    fun t t' m e h => lastSeqNo_of_rejected h⟩
  · refine runScript_returns (I := Safe profile) (fun s m ms h => h.step) ?_
    exact ⟨hvalidator, hclocks, hfits,
      hbursts.imp_right fun hlength => ⟨hlength, fun peer s hs => by cases hs⟩⟩
  · have hstart : Ordered config.keepLast (TopicState.new name config) [] :=
      ⟨rfl, fun e he => absurd he List.not_mem_nil, List.Pairwise.nil⟩
    exact (ordered_of_run hfits hstart hrun).ordered
  · have hstart : AlikeFor peer (TopicState.new name config) (TopicState.new name config) :=
      ⟨hvalidator, rfl, config.msgValidator.state, rfl⟩
    refine runScript_filter (AlikeFor peer) ?_ ?_ hstart hrun
    · intro s t m s' r h hm hstep
      exact h.skip (of_decide_eq_false hm) hstep
    · intro s t m s' r h hm hstep
      exact h.take (of_decide_eq_true hm) hstep

/-- Five messages of two peers, half a second apart. -/
def sampleMsgs : List (TopicMsg Nat) :=
  [⟨1, 10, [], ⟨100, 0, 0⟩⟩, ⟨2, 50, [], ⟨100, 500, 500⟩⟩, ⟨1, 8, [], ⟨100, 1000, 1000⟩⟩,
    ⟨1, 7, [], ⟨100, 1500, 1500⟩⟩, ⟨1, 12, [], ⟨100, 2000, 2000⟩⟩]

/-- At most one message a second, up to three behind the highest. -/
def sampleConfig : MsgValidationConfig Nat Unit :=
  { MsgValidationConfig.new 1000 with keepLast := 3 }

theorem pubsub_replay_protection_sample :
    (∀ m ∈ sampleMsgs, m.seqNo.toNat + sampleConfig.keepLast.toNat < 2 ^ 64) ∧
    (runScript (TopicState.validateMsg .debug) (.new "pings" sampleConfig) sampleMsgs).Returns :=
  ⟨by decide, (pubsub_replay_protection .debug "pings" sampleConfig
    (fun _ _ _ _ => ⟨(), rfl⟩) sampleMsgs (by decide)).1 (by unfold Clock.InRange; decide)
      (Or.inr (by decide))⟩

/-- The custom check of a topic accepts a message. -/
def TopicState.Passes (t : TopicState P V) (m : TopicMsg P) : Prop :=
  ∃ v, t.validationConfig.msgValidator.validateMsg t.validationConfig.msgValidator.state
    m.peerId m.seqNo m.data = .ok (v, .ok ())

/-- A message that would be the first one accepted from its peer has a number that is neither zero
nor from the future. -/
def TopicState.FirstPresent (t : TopicState P V) (m : TopicMsg P) : Prop :=
  t.peerStates m.peerId = none → t.Passes m → SeqNoPresent m.seqNo m.clock

/-- What a message of a known peer has to be, the first of a peer has to be by itself. -/
theorem present_iff_firstPresent {result : Except ValidationError Unit}
    (h : t.validateMsg profile m = .ok (t', result)) :
    (result = .ok () → SeqNoPresent m.seqNo m.clock) ↔ t.FirstPresent m := by
  obtain ⟨v, checked, hchecked, hcases⟩ := TopicState.validateMsg_cases h
  constructor
  · intro himp hnone ⟨v', hpasses⟩
    rw [hchecked, Except.ok.injEq, Prod.mk.injEq] at hpasses
    rcases hcases with ⟨e, he, -⟩ | ⟨-, -, hresult, -⟩ | ⟨s, s', -, hs, -⟩
    · rw [he] at hpasses
      cases hpasses.2
    · exact himp hresult
    · rw [hnone] at hs
      cases hs
  · intro hfirst hresult
    rcases hcases with ⟨e, -, herror, -⟩ | ⟨hpasses, hnone, -, -⟩ | ⟨s, s', -, -, hpeer, -⟩
    · rw [herror] at hresult
      cases hresult
    · exact hfirst hnone ⟨v, by rw [hchecked, hpasses]⟩
    · rcases PeerState.validateMsg_cases hpeer with ⟨e, herror, -⟩ |
        ⟨horizon, counted, hpresent, -⟩
      · rw [herror] at hresult
        cases hresult
      · exact hpresent

/-- All messages that a topic accepts in a run have numbers that are neither zero nor from the
future, if and only if those have that are the first of their peer. -/
theorem pubsub_accepts_present_iff {P V : Type} [DecidableEq P] (profile : Profile)
    (t : TopicState P V) (msgs : List (TopicMsg P)) {t' : TopicState P V}
    {log : List (TopicMsg P × Except ValidationError Unit)}
    (hrun : runScript (TopicState.validateMsg profile) t msgs = .ok (t', log)) :
    (∀ e ∈ log, e.2 = .ok () → SeqNoPresent e.1.seqNo e.1.clock) ↔
      EveryOp (TopicState.validateMsg profile) TopicState.FirstPresent t msgs :=
  forall_log_iff_everyOp (fun e => e.2 = .ok () → SeqNoPresent e.1.seqNo e.1.clock)
    (fun _ _ _ _ h => present_iff_firstPresent h) hrun

theorem pubsub_accepts_present_sample : ∃ t log,
    runScript (TopicState.validateMsg .debug) (.new "pings" sampleConfig) sampleMsgs =
      .ok (t, log) ∧
    ((∀ e ∈ log, e.2 = .ok () → SeqNoPresent e.1.seqNo e.1.clock) ↔
      EveryOp (TopicState.validateMsg .debug) TopicState.FirstPresent (.new "pings" sampleConfig)
        sampleMsgs) :=
  ⟨_, _, rfl, pubsub_accepts_present_iff .debug _ sampleMsgs rfl⟩

/-- A first message with the highest of all numbers, and later one with a number of its time. -/
def futureMsgs : List (TopicMsg Nat) :=
  [⟨1, 18446744073709551615, [], ⟨100, 0, 0⟩⟩, ⟨1, 90, [], ⟨100, 2000, 2000⟩⟩]

/-- The first message is accepted from the future, and makes the next one look old. -/
theorem pubsub_accepts_from_the_future : ∃ t log,
    runScript (TopicState.validateMsg .release) (.new "pings" (.new 1000)) futureMsgs =
      .ok (t, log) ∧
    (∃ e ∈ log, e.2 = .ok () ∧ ¬ SeqNoPresent e.1.seqNo e.1.clock) ∧
    log.map Prod.snd = [.ok (), .error (.ignored "old message")] := by
  refine ⟨_, _, rfl, ⟨_, List.mem_cons_self, rfl, ?_⟩, rfl⟩
  rintro ⟨-, hle⟩
  exact absurd hle (by decide)

end SqdNetwork.Transport
