import SqdNetwork.Transport.Waiting

/-!
# Stranded workers

A registered worker without an outbound connection should never be forgotten: it
waits in the behaviour, its dial is on the way to the swarm, or the swarm has not
reported on its dial. Every step keeps this, except a dial failure the behaviour
does not react to when nothing else is left for the worker.
-/

namespace SqdNetwork.Transport

open SqdNetwork.Core

/-- The behaviour's books are right and agree with the connections the swarm has open. -/
structure Linked {P Addr : Type} (b : BaseBehaviour P Addr) (outbound : P → Nat) : Prop where
  books : b.Bookkept
  maintained : b.maintainWorkerConnections = true
  /-- Connections are counted with 32 bits. -/
  counted : ∀ p, (b.outboundConns p).getD 0 = UInt32.ofNat (outbound p)
  entered : ∀ p, outbound p ≠ 0 → (b.outboundConns p).isSome = true

namespace Linked

variable {P Addr E : Type} {b b' : BaseBehaviour P Addr} {outbound : P → Nat} {p peer : P}

/-- Without open connections the behaviour counts none. -/
theorem outboundConnExists_eq_false (h : Linked b outbound) (hp : outbound p = 0) :
    b.outboundConnExists p = false := by
  have hcount := h.counted p
  rw [hp] at hcount
  unfold BaseBehaviour.outboundConnExists
  cases hconns : b.outboundConns p with
  | none => rfl
  | some count =>
    rw [hconns, Option.getD_some] at hcount
    subst hcount
    rfl

theorem of_surroundings (h : Linked b outbound) (hbooks : b'.Bookkept)
    (hsame : b'.surroundings.2.2 = b.surroundings.2.2) : Linked b' outbound := by
  simp only [BaseBehaviour.surroundings, Prod.mk.injEq] at hsame
  exact ⟨hbooks, hsame.1.trans h.maintained, fun p => by rw [hsame.2]; exact h.counted p,
    fun p hp => by rw [hsame.2]; exact h.entered p hp⟩

variable [DecidableEq P]

theorem poll (h : Linked b outbound) : Linked b.poll.1 outbound :=
  h.of_surroundings h.books.poll (by rw [BaseBehaviour.surroundings_poll])

theorem onDialFailure (h : Linked b outbound) (peer : Option P) (error : DialError) :
    Linked (b.onDialFailure peer error) outbound :=
  h.of_surroundings (h.books.onDialFailure peer error)
    (by rw [BaseBehaviour.surroundings_onDialFailure])

theorem onConnectionClosed (h : Linked b outbound) (hopen : outbound peer ≠ 0) (address : Addr) :
    Linked (b.onConnectionClosed peer (.dialer address))
      (Function.update outbound peer (outbound peer - 1)) := by
  have hmid : Linked (b.uncount peer) (Function.update outbound peer (outbound peer - 1)) := by
    refine ⟨⟨h.books.waitlist, h.books.fresh, h.books.capped⟩, h.maintained, fun q => ?_,
      fun q hq => ?_⟩
    · by_cases he : q = peer
      · subst he
        obtain ⟨count, hcount⟩ := Option.isSome_iff_exists.mp (h.entered q hopen)
        have hnat := h.counted q
        rw [hcount, Option.getD_some] at hnat
        have hsucc : UInt32.ofNat (outbound q) = UInt32.ofNat (outbound q - 1) + 1 := by
          rw [← Nat.succ_pred_eq_of_ne_zero hopen, Nat.succ_eq_add_one, UInt32.ofNat_add]
          rfl
        simp only [BaseBehaviour.uncount, Function.update_self, hcount, Option.map_some,
          Option.getD_some]
        rw [hnat, hsucc, UInt32.add_sub_cancel]
      · simpa [BaseBehaviour.uncount, he] using h.counted q
    · by_cases he : q = peer
      · subst he
        simpa [BaseBehaviour.uncount] using h.entered q hopen
      · simp only [BaseBehaviour.uncount, Function.update_of_ne he] at hq ⊢
        exact h.entered q hq
  exact hmid.of_surroundings hmid.books.scheduleReconnect
    (congrArg (fun s => s.2.2) (BaseBehaviour.surroundings_scheduleReconnect _ peer))

variable [DecidableEq Addr] {rules : AddressRules P Addr}

theorem onConnectionEstablished (h : Linked b outbound) (address : Addr) :
    Linked (b.onConnectionEstablished rules peer (.dialer address))
      (Function.update outbound peer (outbound peer + 1)) := by
  refine ⟨⟨h.books.waitlist, h.books.fresh, h.books.capped⟩, h.maintained, fun q => ?_,
    fun q hq => ?_⟩
  · by_cases he : q = peer
    · subst he
      simp [BaseBehaviour.onConnectionEstablished, h.counted q]
    · simpa [BaseBehaviour.onConnectionEstablished, he] using h.counted q
  · by_cases he : q = peer
    · simp [BaseBehaviour.onConnectionEstablished, he]
    · simp only [Function.update_of_ne he, BaseBehaviour.onConnectionEstablished] at hq ⊢
      exact h.entered q hq

/-- Nothing from inside the node changes the connections. -/
theorem inner (h : Linked b outbound) {event : BaseEvent P Addr E}
    (hinner : event.fromSwarm = false) : Linked (b.handle rules event).1 outbound := by
  refine h.of_surroundings (h.books.handle event) ?_
  cases event with
  | nodes result =>
    cases result with
    | error e => rfl
    | ok nodes =>
      by_cases hsame : nodes.all = b.whitelist.registeredNodes
      · simp only [BaseBehaviour.handle, BaseBehaviour.onWhitelistUpdate_same hsame]
      · obtain ⟨allow, he⟩ := BaseBehaviour.onWhitelistUpdate_changed (E := E) hsame
        simp only [BaseBehaviour.handle, he, BaseBehaviour.onNodesUpdate]
        rw [if_pos h.maintained, BaseBehaviour.surroundings_foldl_sweep]
        rfl
  | kademlia event => exact congrArg (fun s => s.2.2) (b.surroundings_onKademliaEvent rules event)
  | allowPeer _ | identifyReceived _ _ | queryStarted | newExternalAddrOfPeer _ _
  | pendingOutboundConnection _ | cooldownExpires _ => rfl
  | connectionEstablished _ _ | connectionClosed _ _ | dialFailure _ _ | poll =>
    exact absurd hinner (by simp [BaseEvent.fromSwarm])

end Linked

namespace Node

variable {P Addr E : Type} {n : Node P Addr} {p : P}

/-- Something will still happen for the peer without anything new from outside. -/
inductive Obliged (n : Node P Addr) (p : P) : Prop where
  | waits (h : n.base.Waits p)
  /-- Its dial is on the way to the swarm. -/
  | emitted (opts : DialOpts P) (h : opts ∈ n.pendingEvents) (hpeer : opts.peer = p)
  /-- The swarm has not reported on its dial. -/
  | dialing (d : SwarmDial P) (h : d ∈ n.dials) (hown : d.own = true) (hpeer : d.peer = p)

/-- No registered worker is stranded. -/
def Covered (n : Node P Addr) : Prop :=
  ∀ p ∈ n.base.registeredWorkers, n.outbound p = 0 → n.Obliged p

/-- The swarm does not end the last dial of a stranded worker with an error that the behaviour
ignores. -/
def Spares (n : Node P Addr) : NodeAction P Addr E → Prop
  | .report index outcome => ∀ d error, n.dials[index]? = some d → d.own = true →
      d.reported outcome = .failed error → error.unreachable = false →
      d.peer ∈ n.base.registeredWorkers → n.outbound d.peer = 0 →
      (n.withoutDial index).Obliged d.peer
  | _ => True

/-- What is owed stays owed when no place it stands in loses anything. -/
theorem Obliged.mono {n' : Node P Addr} (hp : n.Obliged p)
    (hwaits : n.base.Waits p → n'.base.Waits p) (hevents : n.pendingEvents ⊆ n'.pendingEvents)
    (hdials : n.dials ⊆ n'.dials) : n'.Obliged p := by
  cases hp with
  | waits h => exact .waits (hwaits h)
  | emitted opts h hpeer => exact .emitted opts (hevents h) hpeer
  | dialing d h hown hpeer => exact .dialing d (hdials h) hown hpeer

/-- Other dials of a peer outlive one that was reported. -/
theorem Obliged.withoutDial (hp : n.Obliged p) {index : Nat} {d : SwarmDial P}
    (hd : n.dials[index]? = some d) (hother : d.own = false ∨ d.peer ≠ p) :
    (n.withoutDial index).Obliged p := by
  cases hp with
  | waits h => exact .waits h
  | emitted opts h hpeer => exact .emitted opts h hpeer
  | dialing d' h hown hpeer =>
    obtain ⟨i, hi⟩ := List.mem_iff_getElem?.mp h
    refine .dialing d' (List.mem_eraseIdx_iff_getElem?.mpr ⟨i, ?_, hi⟩) hown hpeer
    rintro rfl
    obtain rfl := Option.some.inj (hd.symm.trans hi)
    rcases hother with hnot | hne
    · exact absurd hown (by simp [hnot])
    · exact hne hpeer

variable [DecidableEq P]

/-- A dial handed over is one the swarm will report on. -/
theorem Obliged.handOver (own : Bool) (opts : DialOpts P) (hp : n.Obliged p) :
    (n.handOver own opts).Obliged p :=
  hp.mono id (List.Subset.refl _) (List.subset_append_left _ _)

theorem obliged_handOver (n : Node P Addr) (opts : DialOpts P) :
    (n.handOver true opts).Obliged opts.peer :=
  .dialing _ (List.mem_append_right _ (List.mem_singleton_self _)) rfl rfl

/-- Polling takes an event emitted before, or polls the base behaviour. -/
theorem poll_cases (n : Node P Addr) :
    (∃ ev rest, n.pendingEvents = ev :: rest ∧
      n.poll = { n with pendingEvents := rest }.handOver true ev) ∨
    n.pendingEvents = [] ∧
      ((n.base.poll.2 = none ∧ n.poll = { n with base := n.base.poll.1 }) ∨
      ∃ ev, n.base.poll.2 = some ev ∧
        n.poll = { n with base := n.base.poll.1 }.handOver true ev) := by
  cases hevents : n.pendingEvents with
  | cons ev rest =>
    left
    simp only [Node.poll, nextEvent, hevents]
    exact ⟨ev, rest, rfl, rfl⟩
  | nil =>
    right
    cases hev : n.base.poll.2 with
    | none => simp [Node.poll, nextEvent, hevents, hev]
    | some ev => simp [Node.poll, nextEvent, hevents, hev]

/-- Polling keeps what is owed to a needed worker. -/
theorem Obliged.poll (hbooks : n.base.Bookkept) (hneeds : n.base.Needs p) (hp : n.Obliged p) :
    n.poll.Obliged p := by
  rcases poll_cases n with ⟨ev, rest, hevents, he⟩ | ⟨hevents, hpoll⟩
  · rw [he]
    cases hp with
    | waits h => exact Obliged.handOver true ev (.waits h)
    | dialing d h hown hpeer => exact Obliged.handOver true ev (.dialing d h hown hpeer)
    | emitted opts h hpeer =>
      rw [hevents] at h
      rcases List.mem_cons.mp h with rfl | hrest
      · exact hpeer ▸ obliged_handOver _ opts
      · exact Obliged.handOver true ev (.emitted opts hrest hpeer)
  · have hkeep : Obliged { n with base := n.base.poll.1 } p ∨
        ∃ opts, n.base.poll.2 = some opts ∧ opts.peer = p := by
      cases hp with
      | waits h =>
        rcases h.poll hbooks hneeds with h | hemitted
        · exact Or.inl (.waits h)
        · exact Or.inr hemitted
      | emitted opts h hpeer => exact absurd (hevents ▸ h) List.not_mem_nil
      | dialing d h hown hpeer => exact Or.inl (.dialing d h hown hpeer)
    rcases hpoll with ⟨hnone, he⟩ | ⟨ev, hsome, he⟩
    · rw [he]
      rcases hkeep with hkeep | ⟨opts, hopts, -⟩
      · exact hkeep
      · exact absurd (hnone.symm.trans hopts) (by simp)
    · rw [he]
      rcases hkeep with hkeep | ⟨opts, hopts, hpeer⟩
      · exact hkeep.handOver true ev
      · obtain rfl := Option.some.inj (hsome.symm.trans hopts)
        exact hpeer ▸ obliged_handOver _ ev

/-- The state the swarm and the behaviour agree on. -/
def InStep (n : Node P Addr) : Prop := Linked n.base n.outbound

theorem inStep_start (config : BaseConfig) (bootNodes : List P) :
    (start config bootNodes : Node P Addr).InStep :=
  ⟨BaseBehaviour.bookkept_start config bootNodes true, rfl, fun _ => rfl,
    fun _ hp => absurd rfl hp⟩

theorem InStep.poll (h : n.InStep) : n.poll.InStep := by
  rcases poll_cases n with ⟨ev, rest, -, he⟩ | ⟨-, ⟨-, he⟩ | ⟨ev, -, he⟩⟩
  · rw [he]
    exact h
  · rw [he]
    exact Linked.poll h
  · rw [he]
    exact Linked.poll h

omit [DecidableEq P] in
theorem InStep.needs (h : n.InStep) (hp : p ∈ n.base.registeredWorkers)
    (hclosed : n.outbound p = 0) : n.base.Needs p :=
  ⟨hp, h.outboundConnExists_eq_false hclosed⟩

theorem Covered.poll (h : n.InStep) (hcovered : n.Covered) : n.poll.Covered := by
  intro p hp hclosed
  have hsame : n.poll.base.registeredWorkers = n.base.registeredWorkers ∧
      n.poll.outbound = n.outbound := by
    have hworkers : n.base.poll.1.registeredWorkers = n.base.registeredWorkers :=
      congrArg (fun s => s.2.1) n.base.surroundings_poll
    rcases poll_cases n with ⟨ev, rest, -, he⟩ | ⟨-, ⟨-, he⟩ | ⟨ev, -, he⟩⟩
    · rw [he]
      exact ⟨rfl, rfl⟩
    · rw [he]
      exact ⟨hworkers, rfl⟩
    · rw [he]
      exact ⟨hworkers, rfl⟩
  rw [hsame.1] at hp
  rw [hsame.2] at hclosed
  exact (hcovered p hp hclosed).poll h.books (h.needs hp hclosed)

variable [DecidableEq Addr] {rules : AddressRules P Addr}

/-- An event that passes a waiting peer on keeps what is owed to it. -/
theorem Obliged.deliver {event : BaseEvent P Addr E} (hp : n.Obliged p)
    (hpass : n.base.Waits p → BaseBehaviour.PassedOn (n.base.handle rules event).1
      (n.base.handle rules event).2 p) : (n.deliver rules event).Obliged p := by
  cases hp with
  | waits h =>
    rcases hpass h with h | ⟨opts, he, hpeer⟩
    · exact .waits h
    · exact .emitted opts (List.mem_append_right _ (Option.mem_toList.mpr he)) hpeer
  | emitted opts h hpeer => exact .emitted opts (List.mem_append_left _ h) hpeer
  | dialing d h hown hpeer => exact .dialing d h hown hpeer

theorem InStep.report (h : n.InStep) (index : Nat) (outcome : DialOutcome Addr) :
    (n.report rules index outcome).InStep := by
  unfold Node.report
  split
  · exact h
  · next d hd =>
    split
    · exact Linked.onConnectionEstablished h _
    · next error _ => exact Linked.onDialFailure h (some d.peer) error

/-- Every step keeps the behaviour in step with the swarm. -/
theorem InStep.step (h : n.InStep) (action : NodeAction P Addr E) :
    (n.step rules action).InStep := by
  cases action with
  | inner event =>
    simp only [Node.step]
    split
    · exact h
    · next hinner => exact Linked.inner h (Bool.eq_false_iff.mpr hinner)
  | inboundEstablished peer => exact h
  | inboundClosed peer =>
    simp only [Node.step]
    split <;> exact h
  | outboundEstablished peer address => exact Linked.onConnectionEstablished h address
  | outboundClosed peer address =>
    simp only [Node.step]
    split
    · exact h
    · next hopen => exact Linked.onConnectionClosed h hopen address
  | otherDial peer condition => exact h
  | poll => exact h.poll
  | report index outcome => exact h.report index outcome

/-- Events from inside the node strand nobody. -/
theorem Covered.inner (h : n.InStep) (hcovered : n.Covered) {event : BaseEvent P Addr E}
    (hinner : event.fromSwarm = false) : (n.deliver rules event).Covered := by
  intro p hp hclosed
  have hstep : (n.deliver rules event).InStep := Linked.inner h hinner
  rcases BaseBehaviour.handle_inner h.books h.maintained hinner (hstep.needs hp hclosed) with
    hwaits | ⟨hneeds, hpass⟩
  · exact .waits hwaits
  · exact (hcovered p hneeds.1 hclosed).deliver hpass

/-- A new outbound connection leaves only the other peers to be covered. -/
theorem covered_established {q : P} (address : Addr)
    (hothers : ∀ p ∈ n.base.registeredWorkers, n.outbound p = 0 → p ≠ q → n.Obliged p) :
    Covered ((n.openOutbound q).deliver rules
      (.connectionEstablished q (.dialer address) : BaseEvent P Addr E)) := by
  intro p hp hclosed
  have hne : p ≠ q := by
    rintro rfl
    simp [Node.deliver, openOutbound] at hclosed
  have hopen : n.outbound p = 0 := by simpa [Node.deliver, openOutbound, hne] using hclosed
  refine (hothers p hp hopen hne).mono (fun hwaits => ?_) (List.subset_append_left _ _)
    (List.Subset.refl _)
  exact hwaits.mono (List.Subset.refl _) (List.Subset.refl _) (List.Subset.refl _)
    (List.Subset.refl _)

/-- A closed outbound connection puts its peer in the queue. -/
theorem Covered.outboundClosed (h : n.InStep) (hcovered : n.Covered) {q : P}
    (hopen : n.outbound q ≠ 0) (address : Addr) :
    Covered ((n.closeOutbound q).deliver rules
      (.connectionClosed q (.dialer address) : BaseEvent P Addr E)) := by
  intro p hp hclosed
  have hsame := (n.base.uncount q).surroundings_scheduleReconnect q
  have hworkers : ((n.base.uncount q).scheduleReconnect q).registeredWorkers =
      n.base.registeredWorkers := congrArg (fun s => s.2.1) hsame
  by_cases he : p = q
  · subst he
    have hlinked := Linked.onConnectionClosed h hopen address
    have hneeds : (n.base.uncount p).Needs p :=
      (BaseBehaviour.needs_of_surroundings hsame).mp
        ⟨hp, hlinked.outboundConnExists_eq_false hclosed⟩
    have hbooks : (n.base.uncount p).Bookkept :=
      ⟨h.books.waitlist, h.books.fresh, h.books.capped⟩
    exact .waits (BaseBehaviour.waits_scheduleReconnect hbooks h.maintained hneeds)
  · have hother : n.outbound p = 0 := by simpa [Node.deliver, closeOutbound, he] using hclosed
    refine (hcovered p (hworkers ▸ hp) hother).mono (fun hwaits => ?_)
      (List.subset_append_left _ _) (List.Subset.refl _)
    have huncount : (n.base.uncount q).Waits p := hwaits.mono (List.Subset.refl _)
      (List.Subset.refl _) (List.Subset.refl _) (List.Subset.refl _)
    exact huncount.scheduleReconnect

/-- A failed dial leaves to be covered whom the behaviour does not retry. -/
theorem covered_dialFailed (h : n.InStep) {q : P} {error : DialError}
    (hothers : ∀ p ∈ n.base.registeredWorkers, n.outbound p = 0 →
      (p = q → error.unreachable = false) → n.Obliged p) :
    Covered (n.deliver rules (.dialFailure (some q) error : BaseEvent P Addr E)) := by
  intro p hp hclosed
  have hworkers : (n.base.onDialFailure (some q) error).registeredWorkers =
      n.base.registeredWorkers :=
    congrArg (fun s => s.2.1) (n.base.surroundings_onDialFailure (some q) error)
  have hregistered : p ∈ n.base.registeredWorkers := hworkers ▸ hp
  by_cases hretried : p = q ∧ error.unreachable = true
  · obtain ⟨rfl, herror⟩ := hretried
    exact .waits (BaseBehaviour.waits_onDialFailure h.books h.maintained
      (h.needs hregistered hclosed) herror)
  · have hobliged := hothers p hregistered hclosed fun he =>
      Bool.eq_false_iff.mpr fun herror => hretried ⟨he, herror⟩
    exact hobliged.deliver fun hwaits => Or.inl (hwaits.onDialFailure (some q) error)

/-- A dial failure that is not retried changes nothing. -/
theorem deliver_ignored (n : Node P Addr) (peer : Option P) {error : DialError}
    (hignored : error.unreachable = false) :
    n.deliver rules (.dialFailure peer error : BaseEvent P Addr E) = n := by
  have hbase : n.base.onDialFailure peer error = n.base := by
    cases error <;> first | exact absurd hignored (by decide) | cases peer <;> rfl
  simp only [Node.deliver, BaseBehaviour.handle, hbase, Option.toList_none, List.append_nil]

/-- A report keeps the workers covered exactly if it spares them. -/
theorem covered_report_iff (h : n.InStep) (hcovered : n.Covered) (index : Nat)
    (outcome : DialOutcome Addr) :
    (n.report rules index outcome).Covered ↔
      n.Spares (.report index outcome : NodeAction P Addr E) := by
  cases hd : n.dials[index]? with
  | none =>
    have hsame : n.report rules index outcome = n := by simp [Node.report, hd]
    rw [hsame]
    exact iff_of_true hcovered fun d _ he => absurd (hd.symm.trans he) (by simp)
  | some d =>
    have hothers : ∀ p ∈ n.base.registeredWorkers, n.outbound p = 0 →
        (d.own = false ∨ d.peer ≠ p) → (n.withoutDial index).Obliged p :=
      fun p hp hclosed hother => (hcovered p hp hclosed).withoutDial hd hother
    cases houtcome : d.reported outcome with
    | established address =>
      have he : n.report rules index outcome = ((n.withoutDial index).openOutbound d.peer).deliver
          rules (.connectionEstablished d.peer (.dialer address) : BaseEvent P Addr Empty) := by
        simp only [Node.report, hd, houtcome]
      rw [he]
      refine iff_of_true (covered_established address fun p hp hclosed hne => ?_) ?_
      · exact hothers p hp hclosed (Or.inr (Ne.symm hne))
      · intro d' error hd' _ hfailed
        obtain rfl := Option.some.inj (hd.symm.trans hd')
        exact absurd (houtcome.symm.trans hfailed) (by simp)
    | failed error =>
      have he : n.report rules index outcome = (n.withoutDial index).deliver rules
          (.dialFailure (some d.peer) error : BaseEvent P Addr Empty) := by
        simp only [Node.report, hd, houtcome]
      rw [he]
      constructor
      · intro hafter d' error' hd' hown hfailed hignored hregistered hclosed
        obtain rfl := Option.some.inj (hd.symm.trans hd')
        obtain rfl := DialOutcome.failed.inj (houtcome.symm.trans hfailed)
        rw [deliver_ignored (n.withoutDial index) _ hignored] at hafter
        exact hafter d.peer hregistered hclosed
      · intro hspares
        have hinStep : (n.withoutDial index).InStep := h
        refine covered_dialFailed hinStep fun p hp hclosed hignored => ?_
        by_cases hlast : d.own = true ∧ d.peer = p
        · obtain ⟨hown, rfl⟩ := hlast
          exact hspares d error hd hown houtcome (hignored rfl) hp hclosed
        · rw [not_and_or, Bool.not_eq_true] at hlast
          exact hothers p hp hclosed hlast

/-- A step keeps the workers covered exactly if it spares them. -/
theorem covered_step_iff (h : n.InStep) (hcovered : n.Covered) (action : NodeAction P Addr E) :
    (n.step rules action).Covered ↔ n.Spares action := by
  have hsame : ∀ n' : Node P Addr, n'.base = n.base → n'.outbound = n.outbound →
      n.pendingEvents ⊆ n'.pendingEvents → n.dials ⊆ n'.dials → n'.Covered := by
    intro n' hbase houtbound hevents hdials p hp hclosed
    rw [hbase] at hp
    rw [houtbound] at hclosed
    exact (hcovered p hp hclosed).mono (fun hwaits => hbase ▸ hwaits) hevents hdials
  cases action with
  | report index outcome => exact covered_report_iff h hcovered index outcome
  | inner event =>
    refine iff_of_true ?_ trivial
    simp only [Node.step]
    split
    · exact hcovered
    · next hinner => exact hcovered.inner h (Bool.eq_false_iff.mpr hinner)
  | inboundEstablished peer =>
    exact iff_of_true (hsame _ rfl rfl (List.subset_append_left _ _) (List.Subset.refl _)) trivial
  | inboundClosed peer =>
    refine iff_of_true ?_ trivial
    simp only [Node.step]
    split
    · exact hcovered
    · exact hsame _ rfl rfl (List.subset_append_left _ _) (List.Subset.refl _)
  | outboundEstablished peer address =>
    refine iff_of_true (covered_established address fun p hp hclosed _ => ?_) trivial
    exact hcovered p hp hclosed
  | outboundClosed peer address =>
    refine iff_of_true ?_ trivial
    simp only [Node.step]
    split
    · exact hcovered
    · next hopen => exact hcovered.outboundClosed h hopen address
  | otherDial peer condition =>
    exact iff_of_true (hsame _ rfl rfl (List.Subset.refl _) (List.subset_append_left _ _)) trivial
  | poll => exact iff_of_true (hcovered.poll h) trivial

end Node

/-- Throughout a run no registered worker is stranded, if and only if no dial failure that the
behaviour ignores ends the last thing on its way for a registered worker without an outbound
connection. -/
theorem no_worker_stranded_iff {P Addr E : Type} [DecidableEq P] [DecidableEq Addr]
    (rules : AddressRules P Addr) (config : BaseConfig) (bootNodes : List P)
    (actions : List (NodeAction P Addr E)) :
    Throughout (Node.step rules) Node.Covered (Node.start config bootNodes) actions ↔
      EveryStep (Node.step rules) Node.Spares (Node.start config bootNodes) actions := by
  have hstep : ∀ (n : Node P Addr) (action : NodeAction P Addr E), n.InStep →
      (n.step rules action).InStep := fun _ action h => h.step action
  refine throughout_iff_everyStep hstep ?_ actions (Node.inStep_start config bootNodes) ?_
  · intro n action h hcovered
    exact Node.covered_step_iff h hcovered action
  · intro p hp
    exact absurd hp (Finset.notMem_empty p)

/-- The worker is found and dialed, and dials back. Its outbound connection closes, and after
the cooldown the cached address is dialed on the condition of being disconnected. -/
def strandingRun : List (NodeAction Nat Nat Unit) :=
  [.inner (.nodes (.ok (.single ∅ 1))), .poll,
    .inner (.kademlia (.closestPeers 0 [⟨1, [77]⟩] true)), .poll, .report 0 (.established 77),
    .inboundEstablished 1, .outboundClosed 1 77, .inner (.cooldownExpires 1), .poll,
    .report 0 (.failed (.dialPeerConditionFalse .disconnectedAndNotDialing)), .inboundClosed 1]

/-- An inbound connection makes the swarm refuse the dial, and the worker is forgotten. -/
theorem worker_stranded_by_refused_dial :
    ¬ Throughout (Node.step (AddressRules.plain Nat Nat)) Node.Covered
      (Node.start ⟨20, 16, by decide⟩ []) strandingRun := by
  intro h
  have hobliged := h.last 1 (by decide) (by decide)
  cases hobliged with
  | waits h =>
    cases h with
    | queued h => exact absurd h (by decide)
    | pending h => exact absurd h (by decide)
    | lookedUp query h => exact absurd (List.length_pos_of_mem h) (by decide)
    | dialed opts h _ => exact absurd (List.length_pos_of_mem h) (by decide)
  | emitted opts h _ => exact absurd (List.length_pos_of_mem h) (by decide)
  | dialing d h _ _ => exact absurd (List.length_pos_of_mem h) (by decide)

end SqdNetwork.Transport
