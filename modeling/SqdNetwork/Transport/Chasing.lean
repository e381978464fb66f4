import SqdNetwork.Core.Machine
import SqdNetwork.Transport.Bookkeeping

/-!
# Whom a node chases

Each poll takes peers from the pending lookups, in order and as far as the number of
ongoing lookups allows, and dials those it is not connected to or looks them up.
Peers whose cooldown ended are checked for being registered when they join the
pending lookups, but nobody is checked when leaving them: a peer that was dropped
from the registered workers in between is chased all the same.
-/

namespace SqdNetwork.Transport

open SqdNetwork.Core

namespace BaseBehaviour

variable {P Addr E : Type} [DecidableEq P]

/-- A poll dials the peer, now or later, or starts a lookup for it. -/
def Chases (b : BaseBehaviour P Addr) (p : P) : Prop :=
  ({ peer := p } : DialOpts P) ∈
      (b.poll.2.toList ++ b.poll.1.pendingEvents).drop b.pendingEvents.length ∨
    ∃ e ∈ b.poll.1.ongoingLookups.entries, e.1 = p ∧ b.nextQuery ≤ e.2

/-- The peer would be looked up. -/
def needsLookup (b : BaseBehaviour P Addr) (p : P) : Bool :=
  !b.outboundConnExists p && !b.addressCache.contains p && !b.ongoingLookups.containsLeft p

/-- The peer would be dialed or looked up. -/
def Ready (b : BaseBehaviour P Addr) (p : P) : Prop :=
  ¬ b.outboundConnExists p ∧ (b.addressCache.contains p ∨ ¬ b.ongoingLookups.containsLeft p)

/-- The peer is ready, and the lookups of those before it in the list leave room to get to it. -/
def Releases (b : BaseBehaviour P Addr) (pending : List P) (p : P) : Prop :=
  ∃ before after, pending = before ++ p :: after ∧
    b.ongoingLookups.length + before.countP b.needsLookup < b.maxConcurrentLookups ∧ b.Ready p

/-- Ongoing lookups have ids given out before. -/
def Fresh (b : BaseBehaviour P Addr) : Prop := ∀ e ∈ b.ongoingLookups.entries, e.2 < b.nextQuery

/-- Between two states the peer was dialed or a lookup was started for it. -/
def Chased (b b' : BaseBehaviour P Addr) (p : P) : Prop :=
  ({ peer := p } : DialOpts P) ∈ b'.pendingEvents.drop b.pendingEvents.length ∨
    ∃ e ∈ b'.ongoingLookups.entries, e.1 = p ∧ b.nextQuery ≤ e.2

/-- Between two states these dials were queued and these lookups started. -/
structure Starts (b b' : BaseBehaviour P Addr) (dials : List (DialOpts P))
    (lookups : List (P × QueryId)) : Prop where
  events : b'.pendingEvents = b.pendingEvents ++ dials
  entries : b'.ongoingLookups.entries = lookups ++ b.ongoingLookups.entries
  ids : ∀ e ∈ lookups, b.nextQuery ≤ e.2 ∧ e.2 < b'.nextQuery
  next : b.nextQuery ≤ b'.nextQuery

section Starts

variable {b b' b'' : BaseBehaviour P Addr} {dials dials' : List (DialOpts P)}
  {lookups lookups' : List (P × QueryId)} {p : P}

omit [DecidableEq P] in
theorem Starts.trans (h : Starts b b' dials lookups) (h' : Starts b' b'' dials' lookups') :
    Starts b b'' (dials ++ dials') (lookups' ++ lookups) where
  events := by rw [h'.events, h.events, List.append_assoc]
  entries := by rw [h'.entries, h.entries, List.append_assoc]
  ids := by
    rw [List.forall_mem_append]
    refine ⟨fun e he => ?_, fun e he => ?_⟩
    · exact ⟨h.next.trans (h'.ids e he).1, (h'.ids e he).2⟩
    · exact ⟨(h.ids e he).1, (h.ids e he).2.trans_le h'.next⟩
  next := h.next.trans h'.next

omit [DecidableEq P] in
theorem Starts.fresh (h : Starts b b' dials lookups) (hfresh : b.Fresh) : b'.Fresh := by
  intro e he
  rw [h.entries] at he
  rcases List.mem_append.mp he with he | he
  · exact (h.ids e he).2
  · exact (hfresh e he).trans_le h.next

omit [DecidableEq P] in
/-- Who was chased is read off the new dials and lookups. -/
theorem Starts.chased_iff (h : Starts b b' dials lookups) (hfresh : b.Fresh) :
    Chased b b' p ↔ { peer := p } ∈ dials ∨ ∃ e ∈ lookups, e.1 = p := by
  rw [Chased, h.events, List.drop_left, h.entries]
  refine or_congr_right ⟨?_, ?_⟩
  · rintro ⟨e, he, hp, hnew⟩
    rcases List.mem_append.mp he with he | he
    · exact ⟨e, he, hp⟩
    · exact absurd hnew (Nat.not_le.mpr (hfresh e he))
  · rintro ⟨e, he, hp⟩
    exact ⟨e, List.mem_append_left _ he, hp, (h.ids e he).1⟩

omit [DecidableEq P] in
theorem Starts.chased_trans (h : Starts b b' dials lookups) (h' : Starts b' b'' dials' lookups')
    (hfresh : b.Fresh) : Chased b b'' p ↔ Chased b b' p ∨ Chased b' b'' p := by
  have hlookups : (∃ e ∈ lookups' ++ lookups, e.1 = p) ↔
      (∃ e ∈ lookups, e.1 = p) ∨ ∃ e ∈ lookups', e.1 = p := by
    simp only [List.mem_append, or_and_right, exists_or]
    exact or_comm
  rw [(h.trans h').chased_iff hfresh, h.chased_iff hfresh, h'.chased_iff (h.fresh hfresh),
    List.mem_append, hlookups]
  exact or_or_or_comm

omit [DecidableEq P] in
theorem Starts.refl (b : BaseBehaviour P Addr) : Starts b b [] [] :=
  ⟨(List.append_nil _).symm, rfl, fun _ he => absurd he List.not_mem_nil, Nat.le_refl _⟩

omit [DecidableEq P] in
theorem not_chased_self (hfresh : b.Fresh) : ¬ Chased b b p := by
  rw [(Starts.refl b).chased_iff hfresh]
  simp

end Starts

section Take

variable (b : BaseBehaviour P Addr) (peer : P) (rest : List P)

/-- What becomes of the first pending peer: nothing, a dial or a lookup. -/
theorem takeLookup_cases :
    (¬ b.Ready peer ∧ b.needsLookup peer = false ∧
      b.takeLookup peer rest = b.popPending peer rest) ∨
    (b.Ready peer ∧ b.needsLookup peer = false ∧
      b.takeLookup peer rest = { b.popPending peer rest with
        pendingEvents := b.pendingEvents ++ [{ peer := peer }] }) ∨
    (b.Ready peer ∧ b.needsLookup peer = true ∧ b.ongoingLookups.containsLeft peer = false ∧
      b.takeLookup peer rest = { b.popPending peer rest with
        nextQuery := b.nextQuery + 1
        ongoingLookups := b.ongoingLookups.insert peer b.nextQuery }) := by
  have hcache : (b.popPending peer rest).addressCache = b.addressCache := rfl
  have hlookups : (b.popPending peer rest).ongoingLookups = b.ongoingLookups := rfl
  cases hconn : b.outboundConnExists peer with
  | true => exact Or.inl ⟨by simp [Ready, hconn], by simp [needsLookup, hconn],
      by simp [takeLookup, hconn]⟩
  | false =>
    cases hcached : b.addressCache.contains peer with
    | true =>
      refine Or.inr (Or.inl ⟨by simp [Ready, hconn, hcached], by simp [needsLookup, hcached], ?_⟩)
      simp only [takeLookup, hconn, findAndDial, hcache, hcached]
      rfl
    | false =>
      cases hongoing : b.ongoingLookups.containsLeft peer with
      | true =>
        refine Or.inl ⟨by simp [Ready, hcached, hongoing], by simp [needsLookup, hongoing], ?_⟩
        simp [takeLookup, hconn, findAndDial, hcache, hcached, hlookups, hongoing]
      | false =>
        refine Or.inr (Or.inr ⟨by simp [Ready, hconn, hongoing],
          by simp [needsLookup, hconn, hcached, hongoing], rfl, ?_⟩)
        simp only [takeLookup, hconn, findAndDial, hcache, hcached, hlookups, hongoing]
        rfl

variable {b}

/-- The first pending peer is chased exactly if it is ready; a lookup takes up one place, and what
holds for other peers stays. -/
theorem takeLookup_spec (hfresh : b.Fresh) :
    (∃ dials lookups, Starts b (b.takeLookup peer rest) dials lookups) ∧
    (∀ p, Chased b (b.takeLookup peer rest) p ↔ p = peer ∧ b.Ready peer) ∧
    (b.takeLookup peer rest).ongoingLookups.length =
      b.ongoingLookups.length + (if b.needsLookup peer then 1 else 0) ∧
    ∀ p, p ≠ peer → (b.takeLookup peer rest).needsLookup p = b.needsLookup p ∧
      ((b.takeLookup peer rest).Ready p ↔ b.Ready p) := by
  have hids : ∀ e ∈ b.ongoingLookups.entries, e.2 ≠ b.nextQuery :=
    fun e he => Nat.ne_of_lt (hfresh e he)
  rcases takeLookup_cases b peer rest with ⟨hready, hneeds, he⟩ | ⟨hready, hneeds, he⟩ |
    ⟨hready, hneeds, hleft, he⟩
  · have hstarts : Starts b (b.popPending peer rest) [] [] :=
      ⟨(List.append_nil _).symm, rfl, fun e he => absurd he List.not_mem_nil, Nat.le_refl _⟩
    rw [he, hneeds]
    refine ⟨⟨_, _, hstarts⟩, fun p => ?_, rfl, fun p _ => ⟨rfl, Iff.rfl⟩⟩
    rw [hstarts.chased_iff hfresh]
    simp [hready]
  · have hstarts : Starts b { b.popPending peer rest with
        pendingEvents := b.pendingEvents ++ [{ peer := peer }] } [{ peer := peer }] [] :=
      ⟨rfl, rfl, fun e he => absurd he List.not_mem_nil, Nat.le_refl _⟩
    rw [he, hneeds]
    refine ⟨⟨_, _, hstarts⟩, fun p => ?_, rfl, fun p _ => ⟨rfl, Iff.rfl⟩⟩
    rw [hstarts.chased_iff hfresh]
    simp [hready]
  · have hentries := BiMap.entries_insert hleft hids
    have hstarts : Starts b { b.popPending peer rest with
        nextQuery := b.nextQuery + 1
        ongoingLookups := b.ongoingLookups.insert peer b.nextQuery } []
          [(peer, b.nextQuery)] := by
      refine ⟨(List.append_nil _).symm, hentries, fun e he => ?_, Nat.le_succ _⟩
      rw [List.mem_singleton.mp he]
      exact ⟨Nat.le_refl _, Nat.lt_succ_self _⟩
    rw [he, hneeds]
    refine ⟨⟨_, _, hstarts⟩, fun p => ?_, congrArg List.length hentries, fun p hp => ?_⟩
    · rw [hstarts.chased_iff hfresh]
      simp [hready, eq_comm]
    · have hother := BiMap.containsLeft_insert_of_ne hp hids
      constructor
      · exact congrArg (fun c => !b.outboundConnExists p && !b.addressCache.contains p && !c)
          hother
      · change _ ∧ (_ ∨ ¬ (b.ongoingLookups.insert peer b.nextQuery).containsLeft p = true) ↔ _
        rw [hother]
        exact Iff.rfl

end Take

section Loops

/-- Looking up or dialing one peer leaves the limit alone. -/
theorem maxConcurrentLookups_takeLookup (b : BaseBehaviour P Addr) (peer : P) (rest : List P) :
    (b.takeLookup peer rest).maxConcurrentLookups = b.maxConcurrentLookups := by
  rcases takeLookup_cases b peer rest with ⟨-, -, he⟩ | ⟨-, -, he⟩ | ⟨-, -, -, he⟩ <;>
  · rw [he]
    rfl

/-- Taking the first peer off a list without repetitions leaves the others as they were. -/
theorem releases_cons {b : BaseBehaviour P Addr} {peer : P} {rest : List P} (hfresh : b.Fresh)
    (hnodup : (peer :: rest).Nodup)
    (hroom : b.ongoingLookups.length < b.maxConcurrentLookups) (p : P) :
    b.Releases (peer :: rest) p ↔
      (p = peer ∧ b.Ready peer) ∨ (b.takeLookup peer rest).Releases rest p := by
  obtain ⟨-, -, hlength, hother⟩ := takeLookup_spec peer rest hfresh
  have hpeer := (List.nodup_cons.mp hnodup).1
  have hcount : ∀ before after, rest = before ++ p :: after →
      before.countP (b.takeLookup peer rest).needsLookup = before.countP b.needsLookup := by
    intro before after hrest
    apply List.countP_congr
    intro q hq
    rw [(hother q ?_).1]
    rintro rfl
    exact hpeer (hrest ▸ List.mem_append_left _ hq)
  have hmem : ∀ before after, rest = before ++ p :: after → p ≠ peer := by
    rintro before after hrest rfl
    exact hpeer (hrest ▸ List.mem_append_right _ List.mem_cons_self)
  have hmax := maxConcurrentLookups_takeLookup b peer rest
  constructor
  · rintro ⟨before, after, hsplit, hlimit, hready⟩
    cases before with
    | nil =>
      cases hsplit
      exact Or.inl ⟨rfl, hready⟩
    | cons q before =>
      cases hsplit
      refine Or.inr ⟨before, after, rfl, ?_, (hother p (hmem before after rfl)).2.mpr hready⟩
      rw [hcount before after rfl, hlength, hmax]
      rw [List.countP_cons] at hlimit
      omega
  · rintro (⟨rfl, hready⟩ | ⟨before, after, hrest, hlimit, hready⟩)
    · exact ⟨[], rest, rfl, hroom, hready⟩
    · refine ⟨peer :: before, after, by rw [hrest, List.cons_append], ?_,
        (hother p (hmem before after hrest)).2.mp hready⟩
      rw [hcount before after hrest, hlength, hmax] at hlimit
      rw [List.countP_cons]
      omega

/-- The loop over the pending lookups chases exactly the peers it gets to that are ready. -/
theorem startLookups_spec {b : BaseBehaviour P Addr} {pending : List P} (hfresh : b.Fresh)
    (hnodup : pending.Nodup) :
    (∃ dials lookups, Starts b (b.startLookups pending) dials lookups) ∧
      ∀ p, Chased b (b.startLookups pending) p ↔ b.Releases pending p := by
  induction pending generalizing b with
  | nil =>
    refine ⟨⟨_, _, Starts.refl b⟩, fun p => iff_of_false (not_chased_self hfresh) ?_⟩
    rintro ⟨before, after, hsplit, -⟩
    exact absurd hsplit.symm (by simp)
  | cons peer rest ih =>
    rw [startLookups]
    split
    · next hroom =>
      obtain ⟨⟨_, _, hfirst⟩, hchased, -⟩ := takeLookup_spec peer rest hfresh
      obtain ⟨⟨_, _, hrest⟩, hreleases⟩ := ih (hfirst.fresh hfresh) (List.nodup_cons.mp hnodup).2
      refine ⟨⟨_, _, hfirst.trans hrest⟩, fun p => ?_⟩
      rw [hfirst.chased_trans hrest hfresh, hchased, hreleases,
        releases_cons hfresh hnodup hroom]
    · next hfull =>
      refine ⟨⟨_, _, Starts.refl b⟩, fun p => iff_of_false (not_chased_self hfresh) ?_⟩
      rintro ⟨before, after, -, hlimit, -⟩
      omega

/-- Emptying the queue of expired peers lets registered ones join the pending lookups. -/
theorem drainExpired_eq (b : BaseBehaviour P Addr) (expired : List P) :
    ∃ queue scheduled joining, b.drainExpired expired = { b with
        reconnectQueue := queue
        reconnectScheduled := scheduled
        pendingLookups := b.pendingLookups ++ joining } ∧
      ∀ p ∈ joining, p ∈ b.registeredWorkers := by
  induction expired generalizing b with
  | nil =>
    refine ⟨b.reconnectQueue, b.reconnectScheduled, [], ?_, fun _ hp => absurd hp List.not_mem_nil⟩
    rw [List.append_nil, drainExpired]
  | cons peer rest ih =>
    obtain ⟨queue, scheduled, joining, he, hjoining⟩ := ih (b.takeExpired peer rest)
    rw [drainExpired, he]
    unfold takeExpired at hjoining ⊢
    dsimp only at hjoining ⊢
    split at hjoining
    · next hneeded =>
      rw [if_pos hneeded]
      refine ⟨queue, scheduled, peer :: joining, by simp, fun p hp => ?_⟩
      rcases List.mem_cons.mp hp with rfl | hp
      · exact hneeded.2
      · exact hjoining p hp
    · next hneeded =>
      rw [if_neg hneeded]
      exact ⟨queue, scheduled, joining, rfl, hjoining⟩

/-- Who is released from the first part of a list does not depend on the rest. -/
theorem releases_append {b : BaseBehaviour P Addr} {pending joining : List P} {p : P} :
    b.Releases pending p → b.Releases (pending ++ joining) p := by
  rintro ⟨before, after, rfl, hlimit, hready⟩
  exact ⟨before, after ++ joining, by simp, hlimit, hready⟩

theorem releases_of_append {b : BaseBehaviour P Addr} {pending joining : List P} {p : P}
    (h : b.Releases (pending ++ joining) p) (hp : p ∉ joining) : b.Releases pending p := by
  obtain ⟨before, after, hsplit, hlimit, hready⟩ := h
  rcases List.append_eq_append_iff.mp hsplit with ⟨tail, -, htail⟩ | ⟨tail, hpending, htail⟩
  · exact absurd (htail ▸ List.mem_append_right _ List.mem_cons_self) hp
  · cases tail with
    | nil =>
      have hjoining : joining = p :: after := htail.symm
      exact absurd (hjoining ▸ List.mem_cons_self) hp
    | cons q tail =>
      cases htail
      exact ⟨before, tail, hpending, hlimit, hready⟩

end Loops

section Poll

variable {b : BaseBehaviour P Addr}

/-- A poll chases whom its two loops chase. -/
theorem chases_iff (b : BaseBehaviour P Addr) (p : P) :
    b.Chases p ↔ Chased b
      ((b.drainExpired b.reconnectQueue.expired).startLookups
        (b.drainExpired b.reconnectQueue.expired).pendingLookups) p := by
  unfold Chases Chased poll
  dsimp only
  split
  · next hnone => rw [hnone, Option.toList_none, List.nil_append]
  · next ev rest hsome => rw [hsome, Option.toList_some, List.singleton_append]

/-- Whether a poll chases only registered workers it is not connected to depends on the peers it
releases from the lookups pending before. -/
theorem chases_registered_step (h : Bookkept b) :
    (∀ p, b.Chases p → p ∈ b.registeredWorkers ∧ ¬ b.outboundConnExists p) ↔
      ∀ p, b.Releases b.pendingLookups p → p ∈ b.registeredWorkers := by
  have hdrained := h.drainExpired rfl
  have hnodup := hdrained.orderly.pending_nodup
  have hchased := (startLookups_spec hdrained.fresh hnodup).2
  obtain ⟨queue, scheduled, joining, he, hjoining⟩ := drainExpired_eq b b.reconnectQueue.expired
  have hreleases : ∀ p, b.Chases p ↔ b.Releases (b.pendingLookups ++ joining) p := by
    intro p
    rw [chases_iff, he]
    rw [he] at hchased
    exact hchased p
  constructor
  · intro hall p hp
    exact (hall p ((hreleases p).mpr (releases_append hp))).1
  · intro hall p hp
    have hreleased := (hreleases p).mp hp
    refine ⟨?_, hreleased.choose_spec.choose_spec.2.2.1⟩
    by_cases hmem : p ∈ joining
    · exact hjoining p hmem
    · exact hall p (releases_of_append hreleased hmem)

/-- A poll chases only registered workers it has no outbound connection to. -/
def ChasesRegistered (b : BaseBehaviour P Addr) : BaseEvent P Addr E → Prop
  | .poll => ∀ p, b.Chases p → p ∈ b.registeredWorkers ∧ ¬ b.outboundConnExists p
  | _ => True

/-- The pending lookups a poll gets to are of registered workers. -/
def ReleasesRegistered (b : BaseBehaviour P Addr) : BaseEvent P Addr E → Prop
  | .poll => ∀ p, b.Releases b.pendingLookups p → p ∈ b.registeredWorkers
  | _ => True

end Poll

end BaseBehaviour

/-- In every run only registered workers are chased, if and only if no pending lookup that a poll
gets to is of a peer that has left the registered workers. -/
theorem chases_registered_iff {P Addr E : Type} [DecidableEq P] [DecidableEq Addr]
    (rules : AddressRules P Addr) (config : BaseConfig) (bootNodes : List P) (maintain : Bool)
    (events : List (BaseEvent P Addr E)) :
    EveryStep (fun b event => (BaseBehaviour.handle rules b event).1)
        BaseBehaviour.ChasesRegistered
        (BaseBehaviour.start config bootNodes maintain : BaseBehaviour P Addr) events ↔
      EveryStep (fun b event => (BaseBehaviour.handle rules b event).1)
        BaseBehaviour.ReleasesRegistered
        (BaseBehaviour.start config bootNodes maintain) events := by
  have hstep : ∀ (b : BaseBehaviour P Addr) (event : BaseEvent P Addr E), b.Bookkept →
      (b.handle rules event).1.Bookkept := fun _ event h => h.handle event
  have hiff : ∀ (b : BaseBehaviour P Addr) (event : BaseEvent P Addr E), b.Bookkept →
      (b.ChasesRegistered event ↔ b.ReleasesRegistered event) := by
    intro b event h
    cases event with
    | poll => exact BaseBehaviour.chases_registered_step h
    | _ => exact Iff.rfl
  exact everyStep_congr hstep hiff events
    (BaseBehaviour.bookkept_start config bootNodes maintain)

/-- While the one lookup allowed is going on, worker 2 waits; by the time it is worker 2's turn,
only worker 3 is registered, and worker 2 is looked up. -/
theorem chases_a_dropped_worker :
    ¬ EveryStep (fun b event => (BaseBehaviour.handle (AddressRules.plain Nat Nat) b event).1)
      BaseBehaviour.ChasesRegistered (BaseBehaviour.start ⟨1, 16, by decide⟩ [] true)
      ([.nodes (.ok (.single ∅ 1)), .poll, .nodes (.ok (.single ∅ 2)), .poll,
        .nodes (.ok (.single ∅ 3)), .kademlia (.closestPeers 0 [] true), .poll] :
        List (BaseEvent Nat Nat Unit)) := by
  rintro ⟨-, -, -, -, -, -, hlast, -⟩
  have hregistered := (hlast 2 (Or.inr ⟨(2, 1), by decide, by decide⟩)).1
  revert hregistered
  decide

end SqdNetwork.Transport
