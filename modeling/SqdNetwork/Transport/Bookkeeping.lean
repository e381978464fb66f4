import Mathlib.Data.Finset.Basic
import Mathlib.Data.List.Perm.Basic
import SqdNetwork.Transport.Base

/-!
# Reconnect bookkeeping

The peers waiting for a reconnection stand in the delay queue or among the pending
lookups, each once, and a set beside them says who they are. Every handler moves
one peer in, out or along. Lookups have ids not used before and never exceed
their limit.
-/

namespace SqdNetwork.Transport

open SqdNetwork.Core

/-- A set that lists the peers of a list without repetition. -/
structure Waitlist {P : Type} (scheduled : Finset P) (peers : List P) : Prop where
  nodup : peers.Nodup
  mem_iff : ∀ p, p ∈ scheduled ↔ p ∈ peers

namespace Waitlist

variable {P : Type} {scheduled : Finset P} {peers peers' : List P} {p : P}

/-- The peers may change places. -/
theorem perm (h : Waitlist scheduled peers) (hperm : peers'.Perm peers) :
    Waitlist scheduled peers' :=
  ⟨hperm.nodup_iff.mpr h.nodup, fun p => (h.mem_iff p).trans hperm.mem_iff.symm⟩

variable [DecidableEq P]

/-- A peer not listed yet may join. -/
theorem push (h : Waitlist scheduled peers) (hp : p ∉ scheduled)
    (hperm : peers'.Perm (p :: peers)) : Waitlist (insert p scheduled) peers' := by
  refine perm ⟨List.nodup_cons.mpr ⟨fun hmem => hp ((h.mem_iff p).mpr hmem), h.nodup⟩, ?_⟩ hperm
  intro q
  rw [Finset.mem_insert, List.mem_cons, h.mem_iff]

/-- A peer may leave. -/
theorem pop (h : Waitlist scheduled peers) (hperm : peers.Perm (p :: peers')) :
    Waitlist (scheduled.erase p) peers' := by
  have hcons := hperm.nodup_iff.mp h.nodup
  refine ⟨(List.nodup_cons.mp hcons).2, fun q => ?_⟩
  rw [Finset.mem_erase, h.mem_iff, hperm.mem_iff, List.mem_cons]
  constructor
  · rintro ⟨hne, rfl | hmem⟩
    · exact absurd rfl hne
    · exact hmem
  · intro hmem
    refine ⟨?_, Or.inr hmem⟩
    rintro rfl
    exact (List.nodup_cons.mp hcons).1 hmem

end Waitlist

namespace DelayQueue

variable {P : Type} {q : DelayQueue P} {p : P}

theorem peers_insert_perm : (q.insert p).peers.Perm (p :: q.peers) := by
  simp only [insert, peers, List.append_assoc, List.singleton_append]
  exact List.perm_middle

theorem peers_expire_perm [DecidableEq P] : (q.expire p).peers.Perm q.peers := by
  unfold expire
  split
  · next hmem =>
    simp only [peers, ← List.append_assoc]
    refine (List.perm_append_singleton p _).trans ?_
    exact (List.perm_cons_erase hmem).symm.append_right q.expired
  · exact List.Perm.refl _

end DelayQueue

namespace BaseBehaviour

variable {P Addr E : Type} [DecidableEq P] {b : BaseBehaviour P Addr} {peer : P} {rest : List P}

/-- Everyone waiting for a reconnection. -/
def agenda (b : BaseBehaviour P Addr) : List P := b.reconnectQueue.peers ++ b.pendingLookups

/-- The bookkeeping of waiting peers and of lookups is right. -/
structure Bookkept (b : BaseBehaviour P Addr) : Prop where
  waitlist : Waitlist b.reconnectScheduled b.agenda
  /-- Ongoing lookups have ids given out before. -/
  fresh : ∀ e ∈ b.ongoingLookups.entries, e.2 < b.nextQuery
  capped : b.ongoingLookups.length ≤ b.maxConcurrentLookups

theorem pendingLookups_findAndDial (b : BaseBehaviour P Addr) (peer : P) :
    (b.findAndDial peer).pendingLookups = b.pendingLookups := by
  unfold findAndDial
  split
  · rfl
  · split <;> rfl

@[simp] theorem expired_takeExpired (b : BaseBehaviour P Addr) (peer : P) (rest : List P) :
    (b.takeExpired peer rest).reconnectQueue.expired = rest := by
  unfold takeExpired
  dsimp only
  split <;> rfl

@[simp] theorem pendingLookups_takeLookup (b : BaseBehaviour P Addr) (peer : P) (rest : List P) :
    (b.takeLookup peer rest).pendingLookups = rest := by
  unfold takeLookup
  split
  · exact pendingLookups_findAndDial _ _
  · rfl

namespace Bookkept

omit [DecidableEq P] in
theorem withCache (h : Bookkept b) (cache : AddressCache P Addr) :
    Bookkept { b with addressCache := cache } :=
  ⟨h.waitlist, h.fresh, h.capped⟩

/-- A lookup starts only when there is room for it. -/
theorem findAndDial (h : Bookkept b)
    (hroom : b.ongoingLookups.length < b.maxConcurrentLookups) :
    Bookkept (b.findAndDial peer) := by
  unfold BaseBehaviour.findAndDial
  split
  · exact ⟨h.waitlist, h.fresh, h.capped⟩
  · split
    · exact h
    · refine ⟨h.waitlist, fun e he => ?_, BiMap.length_insert_le.trans hroom⟩
      rcases BiMap.mem_insert.mp he with rfl | ⟨hmem, -⟩
      · exact Nat.lt_succ_self _
      · exact Nat.lt_succ_of_lt (h.fresh e hmem)

/-- An expired peer moves on to the pending lookups or out. -/
theorem takeExpired (h : Bookkept b) (hexpired : b.reconnectQueue.expired = peer :: rest) :
    Bookkept (b.takeExpired peer rest) := by
  have hagenda : b.agenda.Perm
      (peer :: (b.reconnectQueue.waiting ++ rest ++ b.pendingLookups)) := by
    simp only [agenda, DelayQueue.peers, hexpired, List.append_assoc, List.cons_append]
    exact List.perm_middle
  unfold BaseBehaviour.takeExpired
  dsimp only
  split
  · refine ⟨h.waitlist.perm ?_, h.fresh, h.capped⟩
    refine List.Perm.trans ?_ hagenda.symm
    simp only [agenda, DelayQueue.peers, ← List.append_assoc]
    exact List.perm_append_singleton _ _
  · exact ⟨h.waitlist.pop hagenda, h.fresh, h.capped⟩

theorem drainExpired (h : Bookkept b) {expired : List P}
    (hexpired : b.reconnectQueue.expired = expired) : Bookkept (b.drainExpired expired) := by
  induction expired generalizing b with
  | nil => exact h
  | cons peer rest ih =>
    exact ih (h.takeExpired hexpired) (expired_takeExpired b peer rest)

/-- A pending peer leaves when its lookup or dial starts. -/
theorem takeLookup (h : Bookkept b) (hpending : b.pendingLookups = peer :: rest)
    (hroom : b.ongoingLookups.length < b.maxConcurrentLookups) :
    Bookkept (b.takeLookup peer rest) := by
  have hagenda : b.agenda.Perm (peer :: (b.reconnectQueue.peers ++ rest)) := by
    rw [agenda, hpending]
    exact List.perm_middle
  have hleft : Bookkept (b.popPending peer rest) :=
    ⟨h.waitlist.pop hagenda, h.fresh, h.capped⟩
  unfold BaseBehaviour.takeLookup
  split
  · exact hleft.findAndDial hroom
  · exact hleft

theorem startLookups (h : Bookkept b) {pending : List P} (hpending : b.pendingLookups = pending) :
    Bookkept (b.startLookups pending) := by
  induction pending generalizing b with
  | nil => exact h
  | cons peer rest ih =>
    rw [BaseBehaviour.startLookups]
    split
    · next hroom =>
      exact ih (h.takeLookup hpending hroom) (pendingLookups_takeLookup b peer rest)
    · exact h

theorem poll (h : Bookkept b) : Bookkept b.poll.1 := by
  have hmid := h.drainExpired rfl
  have hlast := hmid.startLookups rfl
  unfold BaseBehaviour.poll
  dsimp only
  split
  · exact hlast
  · exact ⟨hlast.waitlist, hlast.fresh, hlast.capped⟩

theorem scheduleReconnect (h : Bookkept b) : Bookkept (b.scheduleReconnect peer) := by
  unfold BaseBehaviour.scheduleReconnect
  split
  · next hneeded =>
    refine ⟨h.waitlist.push hneeded.2.2.2 ?_, h.fresh, h.capped⟩
    exact DelayQueue.peers_insert_perm.append_right b.pendingLookups
  · exact h

theorem onDialFailure (h : Bookkept b) (peer : Option P) (error : DialError) :
    Bookkept (b.onDialFailure peer error) := by
  have hcache := h.withCache (b.addressCache.onDialFailure peer error)
  unfold BaseBehaviour.onDialFailure
  dsimp only
  split
  · exact hcache
  · split
    · exact hcache.scheduleReconnect
    · exact hcache

theorem sweep (h : Bookkept b) : Bookkept (b.sweep peer) := by
  unfold BaseBehaviour.sweep
  split
  · next hneeded =>
    refine ⟨h.waitlist.push hneeded.2 ?_, h.fresh, h.capped⟩
    simp only [agenda, ← List.append_assoc]
    exact List.perm_append_singleton _ _
  · exact h

theorem onNodesUpdate (h : Bookkept b) (nodes : RetrievedNodes P) :
    Bookkept (b.onNodesUpdate nodes) := by
  have hadopt : Bookkept { b with registeredWorkers := nodes.workers } :=
    ⟨h.waitlist, h.fresh, h.capped⟩
  unfold BaseBehaviour.onNodesUpdate
  dsimp only
  split
  · exact List.foldlRecOn nodes.order BaseBehaviour.sweep hadopt fun _ hb _ _ => hb.sweep
  · exact hadopt

theorem onWhitelistUpdate (h : Bookkept b) (result : Except E (RetrievedNodes P)) :
    Bookkept (b.onWhitelistUpdate result) := by
  have hwhitelist : ∀ w, Bookkept { b with whitelist := w } :=
    fun w => ⟨h.waitlist, h.fresh, h.capped⟩
  unfold BaseBehaviour.onWhitelistUpdate
  dsimp only
  split
  · exact (hwhitelist _).onNodesUpdate _
  · exact hwhitelist _

variable [DecidableEq Addr] {rules : AddressRules P Addr}

theorem onKademliaEvent (h : Bookkept b) (event : KadEvent P Addr) :
    Bookkept (b.onKademliaEvent rules event).1 := by
  rcases onKademliaEvent_cases rules b event with ⟨cache, he⟩ | ⟨cache, peer, query, -, he⟩
  · rw [he]
    exact h.withCache cache
  · rw [he]
    exact ⟨h.waitlist, fun e hmem => h.fresh e (BiMap.mem_removeByRight.mp hmem).1,
      BiMap.length_removeByRight_le.trans h.capped⟩

/-- Every event keeps the books. -/
theorem handle (h : Bookkept b) (event : BaseEvent P Addr E) :
    Bookkept (b.handle rules event).1 := by
  cases event with
  | nodes result => exact h.onWhitelistUpdate result
  | kademlia event => exact h.onKademliaEvent event
  | queryStarted => exact ⟨h.waitlist, fun e he => Nat.lt_succ_of_lt (h.fresh e he), h.capped⟩
  | cooldownExpires peer =>
    exact ⟨h.waitlist.perm (DelayQueue.peers_expire_perm.append_right _), h.fresh, h.capped⟩
  | connectionEstablished peer endpoint =>
    cases endpoint with
    | dialer address => exact ⟨h.waitlist, h.fresh, h.capped⟩
    | listener => exact h
  | connectionClosed peer endpoint =>
    cases endpoint with
    | dialer address =>
      have huncount : Bookkept (b.uncount peer) := ⟨h.waitlist, h.fresh, h.capped⟩
      exact huncount.scheduleReconnect
    | listener => exact h
  | dialFailure peer error => exact h.onDialFailure peer error
  | poll => exact h.poll
  | allowPeer _ | identifyReceived _ _ | newExternalAddrOfPeer _ _ | pendingOutboundConnection _ =>
    exact ⟨h.waitlist, h.fresh, h.capped⟩

end Bookkept

/-- A behaviour at startup, with or without maintained connections. -/
def start (config : BaseConfig) (bootNodes : List P) (maintain : Bool) : BaseBehaviour P Addr :=
  if maintain then (new config bootNodes).setMaintainWorkerConnections else new config bootNodes

theorem bookkept_start (config : BaseConfig) (bootNodes : List P) (maintain : Bool) :
    Bookkept (start config bootNodes maintain : BaseBehaviour P Addr) := by
  cases maintain <;>
    exact ⟨⟨List.nodup_nil, fun p => by simp [start, new, agenda, DelayQueue.peers,
      setMaintainWorkerConnections]⟩, fun e he => absurd he List.not_mem_nil, Nat.zero_le _⟩

/-- The waiting peers and the lookups are in order: who waits is known, nobody waits twice, and
lookups are one per peer and per query and within their limit. -/
structure Orderly (b : BaseBehaviour P Addr) : Prop where
  scheduled : b.reconnectScheduled =
    b.reconnectQueue.peers.toFinset ∪ b.pendingLookups.toFinset
  queue_nodup : b.reconnectQueue.peers.Nodup
  pending_nodup : b.pendingLookups.Nodup
  disjoint : b.reconnectQueue.peers.Disjoint b.pendingLookups
  lookups_injective : ∀ p q p' q', (p, q) ∈ b.ongoingLookups.entries →
    (p', q') ∈ b.ongoingLookups.entries → (p = p' ↔ q = q')
  lookups_nodup : b.ongoingLookups.entries.Nodup
  lookups_capped : b.ongoingLookups.entries.length ≤ b.maxConcurrentLookups

theorem Bookkept.orderly (h : Bookkept b) : Orderly b := by
  have hnodup := List.nodup_append'.mp h.waitlist.nodup
  refine ⟨?_, hnodup.1, hnodup.2.1, hnodup.2.2, ?_, ?_, h.capped⟩
  · ext p
    rw [h.waitlist.mem_iff, agenda, List.mem_append, Finset.mem_union, List.mem_toFinset,
      List.mem_toFinset]
  · intro p q p' q' hp hp'
    constructor
    · exact fun he => congrArg Prod.snd (BiMap.eq_of_mem hp hp' (Or.inl he))
    · exact fun he => congrArg Prod.fst (BiMap.eq_of_mem hp hp' (Or.inr he))
  · exact b.ongoingLookups.unique.imp fun hne he => hne.1 (congrArg Prod.fst he)

end BaseBehaviour

/-- Whatever happens, in whatever order, the reconnect bookkeeping stays in order. -/
theorem reconnect_bookkeeping {P Addr E : Type} [DecidableEq P] [DecidableEq Addr]
    (rules : AddressRules P Addr) (config : BaseConfig) (bootNodes : List P) (maintain : Bool)
    (events : List (BaseEvent P Addr E)) :
    Throughout (fun b event => (BaseBehaviour.handle rules b event).1) BaseBehaviour.Orderly
      (BaseBehaviour.start config bootNodes maintain) events := by
  have hstep : ∀ (b : BaseBehaviour P Addr) (event : BaseEvent P Addr E), b.Bookkept →
      (b.handle rules event).1.Bookkept := fun _ event h => h.handle event
  have hstart := @BaseBehaviour.bookkept_start P Addr _ config bootNodes maintain
  exact (throughout_of_invariant hstep events hstart).imp fun _ h => h.orderly

end SqdNetwork.Transport
