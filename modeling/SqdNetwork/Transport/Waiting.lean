import SqdNetwork.Transport.Swarm

/-!
# What the base behaviour still owes a peer

A peer the behaviour will come back to stands in the delay queue, among the
pending lookups, among the ongoing lookups, or has a dial waiting to be emitted.
Each handler passes a peer that is still needed on to another of these places, or
emits its dial.
-/

namespace SqdNetwork.Transport.BaseBehaviour

open SqdNetwork.Core

variable {P Addr E : Type} {b b' : BaseBehaviour P Addr} {p peer : P} {rest : List P}

/-- The behaviour will come back to the peer by itself. -/
inductive Waits (b : BaseBehaviour P Addr) (p : P) : Prop where
  /-- It waits for a cooldown. -/
  | queued (h : p ∈ b.reconnectQueue.peers)
  /-- It waits for its turn. -/
  | pending (h : p ∈ b.pendingLookups)
  /-- It is being looked up. -/
  | lookedUp (query : QueryId) (h : (p, query) ∈ b.ongoingLookups.entries)
  /-- Its dial waits to be emitted. -/
  | dialed (opts : DialOpts P) (h : opts ∈ b.pendingEvents) (hpeer : opts.peer = p)

/-- The peer is a registered worker without an outbound connection. -/
def Needs (b : BaseBehaviour P Addr) (p : P) : Prop :=
  p ∈ b.registeredWorkers ∧ b.outboundConnExists p = false

theorem needs_of_surroundings (h : b'.surroundings = b.surroundings) :
    b'.Needs p ↔ b.Needs p := by
  simp only [surroundings, Prod.mk.injEq] at h
  obtain ⟨-, hworkers, -, hconns⟩ := h
  simp only [Needs, outboundConnExists, hworkers, hconns]

theorem Waits.of_scheduled (h : Bookkept b) (hp : p ∈ b.reconnectScheduled) : b.Waits p := by
  rcases List.mem_append.mp ((h.waitlist.mem_iff p).mp hp) with hq | hq
  · exact .queued hq
  · exact .pending hq

/-- The peer goes on waiting when no place it may wait in loses anyone. -/
theorem Waits.mono (hp : b.Waits p) (hqueue : b.reconnectQueue.peers ⊆ b'.reconnectQueue.peers)
    (hpending : b.pendingLookups ⊆ b'.pendingLookups)
    (hlookups : b.ongoingLookups.entries ⊆ b'.ongoingLookups.entries)
    (hevents : b.pendingEvents ⊆ b'.pendingEvents) : b'.Waits p := by
  cases hp with
  | queued h => exact .queued (hqueue h)
  | pending h => exact .pending (hpending h)
  | lookedUp query h => exact .lookedUp query (hlookups h)
  | dialed opts h hpeer => exact .dialed opts (hevents h) hpeer

variable [DecidableEq P]

/-- Whoever waits still does after a peer is looked up or dialed. -/
theorem Waits.findAndDial (hfresh : ∀ e ∈ b.ongoingLookups.entries, e.2 < b.nextQuery)
    (hp : b.Waits p) : (b.findAndDial peer).Waits p := by
  unfold BaseBehaviour.findAndDial
  split
  · exact hp.mono (List.Subset.refl _) (List.Subset.refl _) (List.Subset.refl _)
      (List.subset_append_left _ _)
  · split
    · exact hp
    · next hongoing =>
      refine hp.mono (List.Subset.refl _) (List.Subset.refl _) (fun e he => ?_)
        (List.Subset.refl _)
      refine BiMap.mem_insert.mpr (Or.inr ⟨he, ?_, Nat.ne_of_lt (hfresh e he)⟩)
      rintro rfl
      exact hongoing (BiMap.containsLeft_iff.mpr ⟨e.2, he⟩)

/-- The peer that is looked up or dialed waits from then on. -/
theorem waits_findAndDial (b : BaseBehaviour P Addr) (peer : P) :
    (b.findAndDial peer).Waits peer := by
  unfold BaseBehaviour.findAndDial
  split
  · exact .dialed _ (List.mem_append_right _ (List.mem_singleton_self _)) rfl
  · split
    · next hongoing =>
      obtain ⟨query, hquery⟩ := BiMap.containsLeft_iff.mp hongoing
      exact .lookedUp query hquery
    · exact .lookedUp _ (BiMap.mem_insert.mpr (Or.inl rfl))

/-- A needed peer that waits is not lost when an expired peer is taken from the queue. -/
theorem Waits.takeExpired (hexpired : b.reconnectQueue.expired = peer :: rest) (hneeds : b.Needs p)
    (hp : b.Waits p) : (b.takeExpired peer rest).Waits p := by
  have hqueue : p ∈ b.reconnectQueue.peers →
      p = peer ∨ p ∈ b.reconnectQueue.waiting ++ rest := by
    simp only [DelayQueue.peers, hexpired, List.mem_append, List.mem_cons]
    tauto
  unfold BaseBehaviour.takeExpired
  dsimp only
  split
  · cases hp with
    | queued h =>
      rcases hqueue h with rfl | hq
      · exact .pending (List.mem_append_right _ (List.mem_singleton_self _))
      · exact .queued hq
    | pending h => exact .pending (List.mem_append_left _ h)
    | lookedUp query h => exact .lookedUp query h
    | dialed opts h hpeer => exact .dialed opts h hpeer
  · next hnot =>
    cases hp with
    | queued h =>
      rcases hqueue h with rfl | hq
      · exact absurd ⟨ne_true_of_eq_false hneeds.2, hneeds.1⟩ hnot
      · exact .queued hq
    | pending h => exact .pending h
    | lookedUp query h => exact .lookedUp query h
    | dialed opts h hpeer => exact .dialed opts h hpeer

theorem Waits.drainExpired {expired : List P} (hexpired : b.reconnectQueue.expired = expired)
    (hneeds : b.Needs p) (hp : b.Waits p) : (b.drainExpired expired).Waits p := by
  induction expired generalizing b with
  | nil => exact hp
  | cons peer rest ih =>
    refine ih (expired_takeExpired b peer rest) ?_ (hp.takeExpired hexpired hneeds)
    exact (needs_of_surroundings (surroundings_takeExpired b peer rest)).mpr hneeds

/-- Nor when a pending peer is taken. -/
theorem Waits.takeLookup (h : Bookkept b) (hpending : b.pendingLookups = peer :: rest)
    (hneeds : b.Needs p) (hp : b.Waits p) : (b.takeLookup peer rest).Waits p := by
  have hleft : p ≠ peer → (b.popPending peer rest).Waits p := by
    intro hne
    cases hp with
    | queued h => exact .queued h
    | pending h => exact .pending (List.mem_of_ne_of_mem hne (hpending ▸ h))
    | lookedUp query h => exact .lookedUp query h
    | dialed opts h hpeer => exact .dialed opts h hpeer
  unfold BaseBehaviour.takeLookup
  by_cases hpeer : p = peer
  · rw [← hpeer, if_pos (ne_true_of_eq_false hneeds.2)]
    exact waits_findAndDial _ p
  · split
    · exact (hleft hpeer).findAndDial h.fresh
    · exact hleft hpeer

theorem Waits.startLookups (h : Bookkept b) {pending : List P}
    (hpending : b.pendingLookups = pending) (hneeds : b.Needs p) (hp : b.Waits p) :
    (b.startLookups pending).Waits p := by
  induction pending generalizing b with
  | nil => exact hp
  | cons peer rest ih =>
    rw [BaseBehaviour.startLookups]
    split
    · next hroom =>
      refine ih (h.takeLookup hpending hroom) (pendingLookups_takeLookup b peer rest) ?_
        (hp.takeLookup h hpending hneeds)
      exact (needs_of_surroundings (surroundings_takeLookup b peer rest)).mpr hneeds
    · exact hp

/-- The peer still waits, or its dial was just emitted. -/
def PassedOn (b : BaseBehaviour P Addr) (emitted : Option (DialOpts P)) (p : P) : Prop :=
  b.Waits p ∨ ∃ opts, emitted = some opts ∧ opts.peer = p

/-- Polling passes every needed peer on. -/
theorem Waits.poll (h : Bookkept b) (hneeds : b.Needs p) (hp : b.Waits p) :
    PassedOn b.poll.1 b.poll.2 p := by
  have hmid := h.drainExpired rfl
  have hneeds' := (needs_of_surroundings
    (surroundings_drainExpired b b.reconnectQueue.expired)).mpr hneeds
  have hlast := (hp.drainExpired rfl hneeds).startLookups hmid rfl hneeds'
  unfold BaseBehaviour.poll
  dsimp only
  split
  · exact Or.inl hlast
  · next ev rest hevents =>
    cases hlast with
    | queued h => exact Or.inl (.queued h)
    | pending h => exact Or.inl (.pending h)
    | lookedUp query h => exact Or.inl (.lookedUp query h)
    | dialed opts h hpeer =>
      rw [hevents] at h
      rcases List.mem_cons.mp h with rfl | hrest
      · exact Or.inr ⟨opts, rfl, hpeer⟩
      · exact Or.inl (.dialed opts hrest hpeer)

/-- Scheduling a reconnection loses nobody. -/
theorem Waits.scheduleReconnect (hp : b.Waits p) : (b.scheduleReconnect peer).Waits p := by
  unfold BaseBehaviour.scheduleReconnect
  split
  · refine hp.mono (fun q hq => ?_) (List.Subset.refl _) (List.Subset.refl _) (List.Subset.refl _)
    exact DelayQueue.peers_insert_perm.mem_iff.mpr (List.mem_cons_of_mem _ hq)
  · exact hp

/-- A needed peer that is scheduled waits from then on. -/
theorem waits_scheduleReconnect (h : Bookkept b) (hmaintain : b.maintainWorkerConnections = true)
    (hneeds : b.Needs p) : (b.scheduleReconnect p).Waits p := by
  unfold BaseBehaviour.scheduleReconnect
  split
  · exact .queued (DelayQueue.peers_insert_perm.mem_iff.mpr List.mem_cons_self)
  · next hnot =>
    by_cases hscheduled : p ∈ b.reconnectScheduled
    · exact .of_scheduled h hscheduled
    · exact absurd ⟨hmaintain, hneeds.1, ne_true_of_eq_false hneeds.2, hscheduled⟩ hnot

/-- A dial failure loses nobody. -/
theorem Waits.onDialFailure (hp : b.Waits p) (peer : Option P) (error : DialError) :
    (b.onDialFailure peer error).Waits p := by
  have hcache : Waits { b with addressCache := b.addressCache.onDialFailure peer error } p :=
    hp.mono (List.Subset.refl _) (List.Subset.refl _) (List.Subset.refl _) (List.Subset.refl _)
  unfold BaseBehaviour.onDialFailure
  dsimp only
  split
  · exact hcache
  · split
    · exact hcache.scheduleReconnect
    · exact hcache

/-- A needed peer that could not be reached waits from then on. -/
theorem waits_onDialFailure (h : Bookkept b) (hmaintain : b.maintainWorkerConnections = true)
    (hneeds : b.Needs p) {error : DialError} (herror : error.unreachable = true) :
    (b.onDialFailure (some p) error).Waits p := by
  unfold BaseBehaviour.onDialFailure
  dsimp only
  rw [if_pos herror]
  exact waits_scheduleReconnect (h.withCache _) hmaintain hneeds

/-- Sweeping the workers loses nobody. -/
theorem Waits.sweep (hp : b.Waits p) : (b.sweep peer).Waits p := by
  unfold BaseBehaviour.sweep
  split
  · exact hp.mono (List.Subset.refl _) (List.subset_append_left _ _) (List.Subset.refl _)
      (List.Subset.refl _)
  · exact hp

theorem waits_sweep (h : Bookkept b) (hneeds : b.Needs p) : (b.sweep p).Waits p := by
  unfold BaseBehaviour.sweep
  split
  · exact .pending (List.mem_append_right _ (List.mem_singleton_self _))
  · next hnot =>
    by_cases hscheduled : p ∈ b.reconnectScheduled
    · exact .of_scheduled h hscheduled
    · exact absurd ⟨ne_true_of_eq_false hneeds.2, hscheduled⟩ hnot

/-- After the sweep every needed worker waits. -/
theorem waits_foldl_sweep (h : Bookkept b) (hneeds : b.Needs p) {order : List P}
    (hp : p ∈ order ∨ b.Waits p) : (order.foldl sweep b).Waits p := by
  induction order generalizing b with
  | nil => exact hp.resolve_left List.not_mem_nil
  | cons peer rest ih =>
    refine ih h.sweep ((needs_of_surroundings (surroundings_sweep b peer)).mpr hneeds) ?_
    rcases hp with hp | hp
    · rcases List.mem_cons.mp hp with rfl | hrest
      · exact Or.inr (waits_sweep h hneeds)
      · exact Or.inl hrest
    · exact Or.inr hp.sweep

/-- Every needed worker of a node set just adopted waits. -/
theorem waits_onNodesUpdate (h : Bookkept b) (hmaintain : b.maintainWorkerConnections = true)
    {nodes : RetrievedNodes P} (hneeds : (b.onNodesUpdate nodes).Needs p) :
    (b.onNodesUpdate nodes).Waits p := by
  have hadopt : Bookkept { b with registeredWorkers := nodes.workers } :=
    ⟨h.waitlist, h.fresh, h.capped⟩
  unfold BaseBehaviour.onNodesUpdate at hneeds ⊢
  dsimp only at hneeds ⊢
  rw [if_pos hmaintain] at hneeds ⊢
  have hneeds' := (needs_of_surroundings (surroundings_foldl_sweep _ _)).mp hneeds
  exact waits_foldl_sweep hadopt hneeds' (Or.inl ((nodes.mem_order p).mpr hneeds'.1))

variable [DecidableEq Addr] {rules : AddressRules P Addr}

/-- A Kademlia event passes everyone on. -/
theorem Waits.onKademliaEvent (hp : b.Waits p) (event : KadEvent P Addr) :
    PassedOn (b.onKademliaEvent rules event).1 (b.onKademliaEvent rules event).2 p := by
  rcases onKademliaEvent_cases rules b event with ⟨cache, he⟩ | ⟨cache, peer, query, hmem, he⟩
  · rw [he]
    exact Or.inl (hp.mono (List.Subset.refl _) (List.Subset.refl _) (List.Subset.refl _)
      (List.Subset.refl _))
  · rw [he]
    cases hp with
    | queued h => exact Or.inl (.queued h)
    | pending h => exact Or.inl (.pending h)
    | dialed opts h hpeer => exact Or.inl (.dialed opts h hpeer)
    | lookedUp query' h =>
      by_cases hquery : query' = query
      · have hsame := BiMap.eq_of_mem hmem h (Or.inr hquery.symm)
        exact Or.inr ⟨_, rfl, congrArg Prod.fst hsame⟩
      · exact Or.inl (.lookedUp query' (BiMap.mem_removeByRight.mpr ⟨h, hquery⟩))

/-- An event from inside the node makes a needed worker wait or passes it on. -/
theorem handle_inner (h : Bookkept b) (hmaintain : b.maintainWorkerConnections = true)
    {event : BaseEvent P Addr E} (hinner : event.fromSwarm = false)
    (hneeds : (b.handle rules event).1.Needs p) :
    (b.handle rules event).1.Waits p ∨
      b.Needs p ∧ (b.Waits p → PassedOn (b.handle rules event).1 (b.handle rules event).2 p) := by
  cases event with
  | nodes result =>
    cases result with
    | error e => exact Or.inr ⟨hneeds, Or.inl⟩
    | ok nodes =>
      by_cases hsame : nodes.all = b.whitelist.registeredNodes
      · simp only [handle, onWhitelistUpdate_same hsame] at hneeds ⊢
        exact Or.inr ⟨hneeds, Or.inl⟩
      · obtain ⟨allow, he⟩ := onWhitelistUpdate_changed (E := E) hsame
        have hbooks : Bookkept { b with whitelist := ⟨allow, nodes.all⟩ } :=
          ⟨h.waitlist, h.fresh, h.capped⟩
        simp only [handle, he] at hneeds ⊢
        exact Or.inl (waits_onNodesUpdate hbooks hmaintain hneeds)
  | kademlia event =>
    refine Or.inr ⟨?_, fun hp => hp.onKademliaEvent event⟩
    exact (needs_of_surroundings (surroundings_onKademliaEvent b rules event)).mp hneeds
  | cooldownExpires peer =>
    refine Or.inr ⟨hneeds, fun hp => Or.inl (hp.mono (fun q hq => ?_) (List.Subset.refl _)
      (List.Subset.refl _) (List.Subset.refl _))⟩
    exact DelayQueue.peers_expire_perm.mem_iff.mpr hq
  | allowPeer _ | identifyReceived _ _ | queryStarted | newExternalAddrOfPeer _ _
  | pendingOutboundConnection _ =>
    exact Or.inr ⟨hneeds, fun hp => Or.inl (hp.mono (List.Subset.refl _) (List.Subset.refl _)
      (List.Subset.refl _) (List.Subset.refl _))⟩
  | connectionEstablished _ _ | connectionClosed _ _ | dialFailure _ _ | poll =>
    exact absurd hinner (by simp [BaseEvent.fromSwarm])

end SqdNetwork.Transport.BaseBehaviour
