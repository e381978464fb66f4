import SqdNetwork.Transport.StreamNode
import SqdNetwork.Core.Machine

/-!
# Dials behind pending stream requests

A request for a stream to a peer without a connection waits in a pending channel
while the peer is dialed. Throughout every run, a pending channel has a dial behind
it, and every request that waits in a channel waits for a handler or for a dial.
-/

namespace SqdNetwork.Transport

open SqdNetwork.Core

namespace StreamNode

variable {P R : Type} [DecidableEq P]

/-- The handlers of all connections. -/
def handlers (n : StreamNode P R) : List (StreamHandler P) := n.halfOpen ++ n.established

/-- All connections, also those whose handler is gone. -/
def links (n : StreamNode P R) : List (StreamHandler P) := n.handlers ++ n.closing

/-- A dial to the peer is queued, or handed to the swarm and not reported on. -/
def HasDial (n : StreamNode P R) (peer : P) : Prop :=
  peer ∈ n.shared.dialQueue ∨ peer ∈ n.emitted ∨ peer ∈ n.dialing

/-- A pending channel for the peer exists or is about to be made. -/
def Awaits (n : StreamNode P R) (peer : P) : Prop :=
  peer ∈ n.shared.pendingChannels ∨ ∃ request, n.locked = some (request, peer)

/-- What holds of a node at all times. -/
structure Sound (n : StreamNode P R) : Prop where
  dialed : n.stage = .alive → ∀ p, n.Awaits p → n.HasDial p
  /-- The behaviour knows the connections of the swarm. -/
  connections : ∀ c p, n.shared.connections.lookup c = some p ↔
    ∃ h ∈ n.reported, h.connection = c ∧ h.peer = p
  senders : ∀ h ∈ n.links, n.shared.senders.lookup h.connection = some h.channel
  numbered : (n.links.map (·.connection)).Nodup
  bounded : ∀ h ∈ n.links, h.connection < n.nextConnection
  /-- A channel that can be sent to is pending or the channel of a handler. -/
  held : ∀ ch, n.shared.channels.Open ch →
    (∃ p, n.shared.pendingChannels.lookup p = some ch) ∨ ∃ h ∈ n.handlers, h.channel = ch
  /-- A request that queues a dial found no pending channel. -/
  locked : ∀ request p, n.locked = some (request, p) → p ∉ n.shared.pendingChannels
  closed : n.stage ≠ .alive → n.shared.dialClosed = true
  dropped : n.stage = .dropped → n.locked = none ∧ n.shared.pendingChannels = ∅

omit [DecidableEq P] in
theorem mem_links_of_mem_reported {n : StreamNode P R} {h : StreamHandler P} (hh : h ∈ n.reported) :
    h ∈ n.links := by
  rw [links, handlers, List.append_assoc]
  exact List.mem_append_right _ hh

section Links

omit [DecidableEq P]

variable {n : StreamNode P R} {index : Nat} {h : StreamHandler P}

/-- Denying a connection takes it out. -/
theorem links_denied (hindex : n.halfOpen[index]? = some h) :
    n.links.Perm (h :: (n.halfOpen.eraseIdx index ++ n.established ++ n.closing)) :=
  ((perm_eraseIdx hindex).append_right n.established).append_right n.closing

/-- Reporting a connection only moves it, and so does its end. -/
theorem handlers_reported (hindex : n.halfOpen[index]? = some h) :
    (n.halfOpen.eraseIdx index ++ (n.established ++ [h])).Perm n.handlers := by
  rw [← List.append_assoc]
  refine (List.perm_append_singleton _ _).trans ?_
  exact ((perm_eraseIdx hindex).append_right n.established).symm

theorem reported_ended (hindex : n.established[index]? = some h) :
    (n.established.eraseIdx index ++ (n.closing ++ [h])).Perm n.reported := by
  rw [← List.append_assoc]
  refine (List.perm_append_singleton _ _).trans ?_
  exact ((perm_eraseIdx hindex).append_right n.closing).symm

theorem links_ended (hindex : n.established[index]? = some h) :
    (n.halfOpen ++ n.established.eraseIdx index ++ (n.closing ++ [h])).Perm n.links := by
  rw [links, handlers, List.append_assoc, List.append_assoc]
  exact (reported_ended hindex).append_left n.halfOpen

/-- The report that a connection is closed takes it out. -/
theorem links_closed (hindex : n.closing[index]? = some h) :
    n.links.Perm (h :: (n.handlers ++ n.closing.eraseIdx index)) :=
  ((perm_eraseIdx hindex).append_left n.handlers).trans List.perm_middle

end Links

section Books

omit [DecidableEq P]

variable {connections : AList (fun _ : Nat => P)} {links links' : List (StreamHandler P)}
  {h : StreamHandler P}

/-- Books that list the connections list them after one more is entered. -/
theorem lookup_insert_iff
    (hbooks : ∀ c p, connections.lookup c = some p ↔ ∃ h ∈ links, h.connection = c ∧ h.peer = p)
    (hperm : links'.Perm (h :: links)) (hnew : ∀ h' ∈ links, h'.connection ≠ h.connection)
    (c : Nat) (p : P) : (connections.insert h.connection h.peer).lookup c = some p ↔
      ∃ h' ∈ links', h'.connection = c ∧ h'.peer = p := by
  by_cases hc : c = h.connection
  · subst hc
    rw [AList.lookup_insert, Option.some.injEq]
    constructor
    · rintro rfl
      exact ⟨h, hperm.mem_iff.mpr List.mem_cons_self, rfl, rfl⟩
    · rintro ⟨h', hh', hconn, rfl⟩
      rcases List.mem_cons.mp (hperm.mem_iff.mp hh') with rfl | hh'
      · rfl
      · exact absurd hconn (hnew h' hh')
  · rw [AList.lookup_insert_ne hc, hbooks]
    constructor
    · rintro ⟨h', hh', hconn, hpeer⟩
      exact ⟨h', hperm.mem_iff.mpr (List.mem_cons_of_mem _ hh'), hconn, hpeer⟩
    · rintro ⟨h', hh', hconn, hpeer⟩
      rcases List.mem_cons.mp (hperm.mem_iff.mp hh') with rfl | hh'
      · exact absurd hconn.symm hc
      · exact ⟨h', hh', hconn, hpeer⟩

/-- They do so too after one is struck out. -/
theorem lookup_erase_iff
    (hbooks : ∀ c p, connections.lookup c = some p ↔ ∃ h ∈ links, h.connection = c ∧ h.peer = p)
    (hperm : links.Perm (h :: links')) (hother : ∀ h' ∈ links', h'.connection ≠ h.connection)
    (c : Nat) (p : P) : (connections.erase h.connection).lookup c = some p ↔
      ∃ h' ∈ links', h'.connection = c ∧ h'.peer = p := by
  by_cases hc : c = h.connection
  · subst hc
    rw [AList.lookup_erase]
    refine iff_of_false (by simp) ?_
    rintro ⟨h', hh', hconn, -⟩
    exact hother h' hh' hconn
  · rw [AList.lookup_erase_ne hc, hbooks]
    constructor
    · rintro ⟨h', hh', rfl, hpeer⟩
      have hne : h' ≠ h := fun heq => hc (heq ▸ rfl)
      exact ⟨h', List.mem_of_ne_of_mem hne (hperm.mem_iff.mp hh'), rfl, hpeer⟩
    · rintro ⟨h', hh', hconn, hpeer⟩
      exact ⟨h', hperm.mem_iff.mpr (List.mem_cons_of_mem _ hh'), hconn, hpeer⟩

end Books

theorem Sound.bounded_established {n : StreamNode P R} (hn : n.Sound) {h : StreamHandler P}
    (hh : h ∈ n.established) : h.connection < n.nextConnection :=
  hn.bounded h (mem_links_of_mem_reported (List.mem_append_left _ hh))

theorem sound_start : (start : StreamNode P R).Sound where
  dialed := by simp [Awaits, start, Shared.new]
  connections := by simp [reported, start, Shared.new]
  senders := by simp [links, handlers, start]
  numbered := by simp [links, handlers, start]
  bounded := by simp [links, handlers, start]
  held := by simp [start, Shared.new]
  locked := by simp [start]
  closed := by simp [start]
  dropped := by simp [start]

/-- Only messages and answers change. -/
theorem Sound.books {n : StreamNode P R} (hn : n.Sound) {s : Shared P R}
    (hs : Shared.SameBooks n.shared s) (holding : List (R × Nat)) (upgrade : Nat → Option R) :
    { n with shared := s, holding := holding
             pendingUpgrade := upgrade : StreamNode P R }.Sound where
  dialed halive p hp := by
    simp only [Awaits, HasDial, hs.pendingChannels, hs.dialQueue] at hp ⊢
    exact hn.dialed halive p hp
  connections c p := by
    rw [hs.connections]
    exact hn.connections c p
  senders h hh := by
    rw [hs.senders]
    exact hn.senders h hh
  numbered := hn.numbered
  bounded := hn.bounded
  held ch hopen := by
    rw [hs.pendingChannels]
    exact hn.held ch (hs.channels ch hopen)
  locked request p hp := by
    rw [hs.pendingChannels]
    exact hn.locked request p hp
  closed hstage := by
    rw [hs.dialClosed]
    exact hn.closed hstage
  dropped hstage := by
    rw [hs.pendingChannels]
    exact hn.dropped hstage

/-- A peer that stays pending when another one is released keeps its dial. -/
theorem Sound.hasDial_of_mem_erase {n : StreamNode P R} (hn : n.Sound) (halive : n.stage = .alive)
    {peer p : P} {emitted dialing : List P} (hp : p ∈ n.shared.pendingChannels.erase peer)
    (hemitted : ∀ p, p ≠ peer → p ∈ n.emitted → p ∈ emitted)
    (hdialing : ∀ p, p ≠ peer → p ∈ n.dialing → p ∈ dialing) :
    p ∈ n.shared.dialQueue ∨ p ∈ emitted ∨ p ∈ dialing := by
  obtain ⟨hne, hp⟩ := AList.mem_erase.mp hp
  rcases hn.dialed halive p (.inl hp) with h | h | h
  · exact .inl h
  · exact .inr (.inl (hemitted p hne h))
  · exact .inr (.inr (hdialing p hne h))

/-- So does every open channel but the released one keep who holds it. -/
theorem Sound.held_of_ne_released {n : StreamNode P R} (hn : n.Sound) {ch : Nat} {peer : P}
    (hopen : n.shared.channels.Open ch)
    (hother : n.shared.pendingChannels.lookup peer ≠ some ch) :
    (∃ p, (n.shared.pendingChannels.erase peer).lookup p = some ch) ∨
      ∃ h ∈ n.handlers, h.channel = ch := by
  rcases hn.held ch hopen with ⟨p, hp⟩ | h
  · have hne : p ≠ peer := fun heq => hother (heq ▸ hp)
    exact .inl ⟨p, by rw [AList.lookup_erase_ne hne]; exact hp⟩
  · exact .inr h

/-- The pending channel of a peer goes away, and with it perhaps dials to the peer. -/
theorem Sound.release {n : StreamNode P R} (hn : n.Sound) (hfree : n.locked = none)
    {s : Shared P R} {peer : P} (hs : Shared.Releases n.shared s peer) {emitted dialing : List P}
    (hemitted : ∀ p, p ≠ peer → p ∈ n.emitted → p ∈ emitted)
    (hdialing : ∀ p, p ≠ peer → p ∈ n.dialing → p ∈ dialing) :
    { n with shared := s, emitted := emitted, dialing := dialing : StreamNode P R }.Sound where
  dialed halive p hp := by
    simp only [Awaits, HasDial, hs.pendingChannels, hs.dialQueue, hfree] at hp ⊢
    rcases hp with hp | ⟨_, hp⟩
    · exact hn.hasDial_of_mem_erase halive hp hemitted hdialing
    · exact absurd hp (by simp)
  connections c p := by
    rw [hs.connections]
    exact hn.connections c p
  senders h hh := by
    rw [hs.senders]
    exact hn.senders h hh
  numbered := hn.numbered
  bounded := hn.bounded
  held ch hopen := by
    obtain ⟨hopen, hother⟩ := hs.channels ch hopen
    rw [hs.pendingChannels]
    exact hn.held_of_ne_released hopen hother
  locked _ _ hp := absurd (hfree.symm.trans hp) (by simp)
  closed hstage := by
    rw [hs.dialClosed]
    exact hn.closed hstage
  dropped hstage := by
    refine ⟨hfree, ?_⟩
    rw [hs.pendingChannels, (hn.dropped hstage).2]
    rfl

/-- Dials are added or move on. -/
theorem Sound.dials {n : StreamNode P R} (hn : n.Sound) {queue emitted dialing : List P}
    (h : ∀ p, n.HasDial p → p ∈ queue ∨ p ∈ emitted ∨ p ∈ dialing) :
    { n with shared := { n.shared with dialQueue := queue }, emitted := emitted
             dialing := dialing : StreamNode P R }.Sound where
  dialed halive p hp := h p (hn.dialed halive p hp)
  connections := hn.connections
  senders := hn.senders
  numbered := hn.numbered
  bounded := hn.bounded
  held := hn.held
  locked := hn.locked
  closed := hn.closed
  dropped := hn.dropped

theorem Sound.poll {n : StreamNode P R} (hn : n.Sound) : n.poll.Sound := by
  unfold StreamNode.poll
  split
  · exact hn
  · next peer queue hqueue =>
    refine hn.dials fun p hp => ?_
    simp only [HasDial, hqueue, List.mem_cons] at hp
    rcases hp with (rfl | hp) | hp | hp
    · exact .inr (.inl (by simp))
    · exact .inl hp
    · exact .inr (.inl (by simp [hp]))
    · exact .inr (.inr hp)

/-- A peer the swarm is connected to has a sender. -/
theorem Sound.connectedSender {n : StreamNode P R} (hn : n.Sound) {peer : P}
    (h : n.isConnected peer = true) (pick : Nat) :
    ∃ ch, n.shared.connectedSender pick peer = some ch := by
  obtain ⟨handler, hmem, hpeer⟩ := List.any_eq_true.mp h
  refine Shared.connectedSender_of_connected pick (fun c q hc => ?_)
    ((hn.connections _ _).mpr ⟨handler, hmem, rfl, of_decide_eq_true hpeer⟩)
  obtain ⟨handler', hmem', rfl, -⟩ := (hn.connections c q).mp hc
  exact ⟨_, hn.senders handler' (mem_links_of_mem_reported hmem')⟩

/-- A skipped dial of any behaviour. -/
theorem Sound.skip {n : StreamNode P R} (hn : n.Sound) (hfree : n.locked = none) (pick : Nat)
    (peer : P) : { n with shared := n.shared.onDialSkipped pick peer : StreamNode P R }.Sound := by
  cases hsender : n.shared.connectedSender pick peer with
  | none =>
    rw [Shared.onDialSkipped_of_none hsender]
    exact hn
  | some sender =>
    exact hn.release hfree (Shared.onDialSkipped_releases hsender) (fun _ _ h => h) fun _ _ h => h

/-- A failed dial, after which dials to the peer may be gone. -/
theorem Sound.fails {n : StreamNode P R} (hn : n.Sound) (hfree : n.locked = none) {peer : P}
    {error : DialError} (herror : error.terminal = true) (pick : Nat) (reason : String)
    {emitted dialing : List P} (hemitted : ∀ p, p ≠ peer → p ∈ n.emitted → p ∈ emitted)
    (hdialing : ∀ p, p ≠ peer → p ∈ n.dialing → p ∈ dialing) :
    { n with
      shared := n.shared.onSwarmDialFailure pick (some peer) error reason
      emitted := emitted
      dialing := dialing : StreamNode P R }.Sound := by
  have hs : n.shared.onSwarmDialFailure pick (some peer) error reason =
      n.shared.onDialFailure peer reason := by
    cases error <;> first | rfl | exact absurd herror (by simp [DialError.terminal])
  rw [hs]
  exact hn.release hfree (n.shared.onDialFailure_releases peer reason) hemitted hdialing

theorem Sound.answerDial {n : StreamNode P R} (hn : n.Sound) (index pick : Nat)
    (answer : DialAnswer) : (n.answerDial index pick answer).Sound := by
  unfold StreamNode.answerDial
  split
  · exact hn
  · next peer hpeer =>
    have hothers := mem_eraseIdx_of_ne hpeer
    split
    · split
      · refine hn.dials fun p hp => ?_
        rcases hp with hp | hp | hp
        · exact .inl hp
        · by_cases hne : p = peer
          · exact .inr (.inr (by simp [hne]))
          · exact .inr (.inl (hothers p hne hp))
        · exact .inr (.inr (by simp [hp]))
      · split
        · next hcond =>
          rw [Bool.and_eq_true, Option.isNone_iff_eq_none] at hcond
          exact hn.fails hcond.1 hcond.2 pick _ hothers fun _ _ h => h
        · exact hn
    · next hadmits =>
      split
      · next hfree =>
        rw [Option.isNone_iff_eq_none] at hfree
        cases hsender : n.shared.connectedSender pick peer with
        | some sender =>
          exact hn.release hfree (Shared.onDialSkipped_releases hsender) hothers fun _ _ h => h
        | none =>
          have hdialing : peer ∈ n.dialing := by
            by_contra hnot
            have hconnected : n.isConnected peer = true := by
              by_contra hother
              exact hadmits (by simp [admits, hother, hnot])
            obtain ⟨ch, hch⟩ := hn.connectedSender hconnected pick
            rw [hsender] at hch
            cases hch
          simp only [Shared.onSwarmDialFailure, Shared.onDialSkipped_of_none hsender]
          refine hn.dials fun p hp => ?_
          rcases hp with hp | hp | hp
          · exact .inl hp
          · by_cases hne : p = peer
            · exact .inr (.inr (hne ▸ hdialing))
            · exact .inr (.inl (hothers p hne hp))
          · exact .inr (.inr hp)
      · exact hn

theorem Sound.openStream {n : StreamNode P R} (hn : n.Sound) (request : R) (peer : P)
    (pick : Nat) : (n.openStream request peer pick).Sound := by
  unfold StreamNode.openStream
  split
  · exact hn.books (.refl _) _ _
  · exact hn.books (Shared.fail_sameBooks _ _ _) _ _
  · next shared hshared =>
    obtain ⟨hpending, hopen, rfl⟩ := Shared.sender_eq_dials hshared
    have halive : n.stage = .alive := by
      by_contra hstage
      rw [hn.closed hstage] at hopen
      cases hopen
    refine ⟨fun _ p hp => ?_, hn.connections, hn.senders, hn.numbered, hn.bounded, hn.held,
      fun r p hp => ?_, hn.closed, fun hstage => ?_⟩
    · rcases hp with hp | ⟨r, hp⟩
      · rcases hn.dialed halive p (.inl hp) with h | h
        · exact .inl (List.mem_append_left _ h)
        · exact .inr h
      · cases hp
        exact .inl (List.mem_append_right _ (by simp))
    · cases hp
      exact hpending
    · exact absurd (halive.symm.trans hstage) (by simp)

theorem Sound.insertPending {n : StreamNode P R} (hn : n.Sound) : n.insertPending.Sound := by
  unfold StreamNode.insertPending
  split
  · exact hn
  · next request peer hlocked =>
    refine ⟨fun halive p hp => ?_, hn.connections, hn.senders, hn.numbered, hn.bounded,
      fun ch hopen => ?_, by simp, hn.closed, fun hstage => ?_⟩
    · rcases hp with hp | ⟨_, hp⟩
      · refine hn.dialed halive p ?_
        rcases (AList.mem_insert _).mp hp with rfl | hp
        · exact .inr ⟨request, hlocked⟩
        · exact .inl hp
      · cases hp
    · rcases Channels.open_create.mp hopen with rfl | hopen
      · exact .inl ⟨peer, AList.lookup_insert _⟩
      · rcases hn.held ch hopen with ⟨p, hp⟩ | h
        · have hne : p ≠ peer := by
            rintro rfl
            have hnone := AList.lookup_eq_none.mpr (hn.locked request p hlocked)
            rw [hnone] at hp
            cases hp
          exact .inl ⟨p, (AList.lookup_insert_ne hne).trans hp⟩
        · exact .inr h
    · rw [(hn.dropped hstage).1] at hlocked
      cases hlocked

theorem Sound.sendRequest {n : StreamNode P R} (hn : n.Sound) (index : Nat) :
    (n.sendRequest index).Sound := by
  unfold StreamNode.sendRequest
  split
  · exact hn
  · exact hn.books (Shared.trySend_sameBooks _ _ _) _ _

theorem Sound.handlerPoll {n : StreamNode P R} (hn : n.Sound) (index : Nat) :
    (n.handlerPoll index).Sound := by
  unfold StreamNode.handlerPoll
  split
  · exact hn
  · split
    · refine hn.books ?_ _ _
      exact ⟨⟨rfl, rfl, rfl, rfl⟩, rfl, fun _ => Channels.open_receive.mp⟩
    · exact hn

theorem Sound.negotiated {n : StreamNode P R} (hn : n.Sound) (index : Nat)
    (error : Option OpenStreamError) : (n.negotiated index error).Sound := by
  unfold StreamNode.negotiated
  split
  · exact hn
  · split
    · exact hn
    · refine hn.books ?_ _ _
      exact ⟨⟨rfl, rfl, rfl, rfl⟩, rfl, fun _ hopen => hopen⟩

theorem Sound.failDial {n : StreamNode P R} (hn : n.Sound) (hfree : n.locked = none)
    (index : Nat) (error : DialError) (reason : String) :
    (n.failDial index error reason).Sound := by
  unfold StreamNode.failDial
  split
  · exact hn
  · next peer hpeer =>
    split
    · next herror =>
      exact hn.fails hfree herror 0 reason (fun _ _ h => h) (mem_eraseIdx_of_ne hpeer)
    · exact hn

theorem Sound.makeHandler {n : StreamNode P R} (hn : n.Sound) (hfree : n.locked = none) (peer : P)
    {dialing : List P} (hdialing : ∀ p, p ≠ peer → p ∈ n.dialing → p ∈ dialing) :
    ({ n with dialing := dialing : StreamNode P R }.makeHandler peer).Sound := by
  have hs := n.shared.receiver_receives peer n.nextConnection
  simp only [StreamNode.makeHandler]
  generalize n.shared.receiver peer n.nextConnection = out at hs ⊢
  obtain ⟨shared, channel⟩ := out
  replace hs : Shared.Receives n.shared shared peer n.nextConnection channel := hs
  have hfresh : ∀ h ∈ n.links, h.connection ≠ n.nextConnection :=
    fun h hh => (hn.bounded h hh).ne
  have hperm : (n.halfOpen ++ [(⟨n.nextConnection, peer, channel⟩ : StreamHandler P)] ++
      n.established).Perm (⟨n.nextConnection, peer, channel⟩ :: n.handlers) := by
    rw [List.append_assoc]
    exact List.perm_middle
  have hlinks := hperm.append_right n.closing
  refine ⟨fun halive p hp => ?_, fun c p => ?_, fun h hh => ?_, ?_, fun h hh => ?_,
    fun ch hopen => ?_, fun r p hp => ?_, fun hstage => ?_, fun hstage => ?_⟩
  · simp only [Awaits, HasDial, hs.pendingChannels, hs.dialQueue, hfree] at hp ⊢
    rcases hp with hp | ⟨_, hp⟩
    · exact hn.hasDial_of_mem_erase halive hp (fun _ _ h => h) hdialing
    · cases hp
  · rw [hs.connections]
    exact hn.connections c p
  · rw [hs.senders]
    rcases List.mem_cons.mp (hlinks.mem_iff.mp hh) with rfl | hh
    · exact AList.lookup_insert _
    · rw [AList.lookup_insert_ne (hfresh h hh)]
      exact hn.senders h hh
  · refine (hlinks.map _).nodup_iff.mpr (List.nodup_cons.mpr ⟨fun hmem => ?_, hn.numbered⟩)
    obtain ⟨h, hh, heq⟩ := List.mem_map.mp hmem
    exact hfresh h hh heq
  · rcases List.mem_cons.mp (hlinks.mem_iff.mp hh) with rfl | hh
    · exact Nat.lt_succ_self _
    · exact Nat.lt_succ_of_lt (hn.bounded h hh)
  · rcases hs.channels ch hopen with rfl | ⟨hopen, hother⟩
    · exact .inr ⟨⟨n.nextConnection, peer, ch⟩, hperm.mem_iff.mpr List.mem_cons_self, rfl⟩
    · rw [hs.pendingChannels]
      rcases hn.held_of_ne_released hopen hother with hpending | ⟨h, hh, hch⟩
      · exact .inl hpending
      · exact .inr ⟨h, hperm.mem_iff.mpr (List.mem_cons_of_mem _ hh), hch⟩
  · exact absurd (hfree.symm.trans hp) (by simp)
  · rw [hs.dialClosed]
    exact hn.closed hstage
  · refine ⟨hfree, ?_⟩
    rw [hs.pendingChannels, (hn.dropped hstage).2]
    rfl

theorem Sound.connectDial {n : StreamNode P R} (hn : n.Sound) (hfree : n.locked = none)
    (index : Nat) : (n.connectDial index).Sound := by
  unfold StreamNode.connectDial
  split
  · exact hn
  · next peer hpeer => exact hn.makeHandler hfree peer (mem_eraseIdx_of_ne hpeer)

theorem Sound.report {n : StreamNode P R} (hn : n.Sound) (index : Nat) :
    (n.report index).Sound := by
  unfold StreamNode.report
  split
  · exact hn
  · next h hindex =>
    have hhandlers := handlers_reported hindex
    have hlinks := hhandlers.append_right n.closing
    have hreported : (n.established ++ [h] ++ n.closing).Perm (h :: n.reported) := by
      rw [List.append_assoc]
      exact List.perm_middle
    have hnew : ∀ h' ∈ n.reported, h'.connection ≠ h.connection := by
      intro h' hh' heq
      have hnodup := ((links_denied hindex).map (·.connection)).nodup_iff.mp hn.numbered
      rw [List.append_assoc, List.map_cons, List.nodup_cons] at hnodup
      exact hnodup.1 (List.mem_map.mpr ⟨h', List.mem_append_right _ hh', heq⟩)
    refine ⟨hn.dialed, lookup_insert_iff hn.connections hreported hnew, fun h' hh' => ?_, ?_,
      fun h' hh' => ?_, fun ch hopen => ?_, hn.locked, hn.closed, hn.dropped⟩
    · exact hn.senders h' (hlinks.mem_iff.mp hh')
    · exact (hlinks.map _).nodup_iff.mpr hn.numbered
    · exact hn.bounded h' (hlinks.mem_iff.mp hh')
    · rcases hn.held ch hopen with hp | ⟨h', hh', hch⟩
      · exact .inl hp
      · exact .inr ⟨h', hhandlers.mem_iff.mpr hh', hch⟩

/-- A handler goes away, and its channel with it; its connection may go or stay to be reported. -/
theorem Sound.dropHandler {n : StreamNode P R} (hn : n.Sound) {h : StreamHandler P}
    (gone : List (StreamHandler P)) {halfOpen established closing : List (StreamHandler P)}
    (hhandlers : n.handlers.Perm (h :: (halfOpen ++ established)))
    (hlinks : n.links.Perm (gone ++ (halfOpen ++ established ++ closing)))
    (hreported : n.reported.Perm (established ++ closing)) :
    ({ n with halfOpen := halfOpen, established := established
              closing := closing : StreamNode P R }.dropHandler h).Sound := by
  have hold : ∀ h' ∈ halfOpen ++ established ++ closing, h' ∈ n.links :=
    fun h' hh' => hlinks.mem_iff.mpr (List.mem_append_right _ hh')
  refine ⟨hn.dialed, fun c p => ?_, fun h' hh' => hn.senders h' (hold h' hh'), ?_,
    fun h' hh' => hn.bounded h' (hold h' hh'), fun ch hch => ?_, hn.locked, hn.closed, hn.dropped⟩
  · refine (hn.connections c p).trans (exists_congr fun h' => ?_)
    rw [hreported.mem_iff]
    rfl
  · have hnodup := (hlinks.map (·.connection)).nodup_iff.mp hn.numbered
    rw [List.map_append] at hnodup
    exact hnodup.of_append_right
  · obtain ⟨hne, hopen⟩ := Channels.open_close.mp hch
    rcases hn.held ch hopen with hp | ⟨h', hh', rfl⟩
    · exact .inl hp
    · rcases List.mem_cons.mp (hhandlers.mem_iff.mp hh') with rfl | hh'
      · exact absurd rfl hne
      · exact .inr ⟨h', hh', rfl⟩

theorem Sound.deny {n : StreamNode P R} (hn : n.Sound) (hfree : n.locked = none) (index : Nat)
    (dialed : Bool) (reason : String) : (n.deny index dialed reason).Sound := by
  unfold StreamNode.deny
  split
  · exact hn
  · next h hindex =>
    have hhandlers : n.handlers.Perm (h :: (n.halfOpen.eraseIdx index ++ n.established)) :=
      (perm_eraseIdx hindex).append_right n.established
    have hdropped : ({ n with halfOpen := n.halfOpen.eraseIdx index }.dropHandler h).Sound :=
      hn.dropHandler [h] hhandlers (links_denied hindex) (.refl _)
    cases dialed with
    | false => exact hdropped
    | true => exact hdropped.fails hfree rfl 0 reason (fun _ _ h => h) fun _ _ h => h

theorem Sound.endConnection {n : StreamNode P R} (hn : n.Sound) (index : Nat) :
    (n.endConnection index).Sound := by
  unfold StreamNode.endConnection
  split
  · exact hn
  · next h hindex =>
    have hhandlers : n.handlers.Perm (h :: (n.halfOpen ++ n.established.eraseIdx index)) :=
      ((perm_eraseIdx hindex).append_left n.halfOpen).trans List.perm_middle
    exact hn.dropHandler [] hhandlers (links_ended hindex).symm (reported_ended hindex).symm

/-- The report that a connection is closed takes it out of the books. -/
theorem Sound.close {n : StreamNode P R} (hn : n.Sound) (index : Nat) :
    (n.close index).Sound := by
  unfold StreamNode.close
  split
  · exact hn
  · next h hindex =>
    have hlinks := links_closed hindex
    have hreported : n.reported.Perm (h :: (n.established ++ n.closing.eraseIdx index)) :=
      ((perm_eraseIdx hindex).append_left n.established).trans List.perm_middle
    obtain ⟨hnot, hnodup⟩ :=
      List.nodup_cons.mp ((hlinks.map (·.connection)).nodup_iff.mp hn.numbered)
    have hother : ∀ h' ∈ n.handlers ++ n.closing.eraseIdx index, h'.connection ≠ h.connection :=
      fun h' hh' heq => hnot (List.mem_map.mpr ⟨h', hh', heq⟩)
    have hold : ∀ h' ∈ n.handlers ++ n.closing.eraseIdx index, h' ∈ n.links :=
      fun h' hh' => hlinks.mem_iff.mpr (List.mem_cons_of_mem _ hh')
    refine ⟨hn.dialed, lookup_erase_iff hn.connections hreported fun h' hh' => ?_, fun h' hh' => ?_,
      hnodup, fun h' hh' => hn.bounded h' (hold h' hh'), hn.held, hn.locked, hn.closed, hn.dropped⟩
    · refine hother h' ?_
      rw [handlers, List.append_assoc]
      exact List.mem_append_right _ hh'
    · change (n.shared.senders.erase h.connection).lookup h'.connection = _
      rw [AList.lookup_erase_ne (hother h' hh')]
      exact hn.senders h' (hold h' hh')

theorem Sound.closeQueue {n : StreamNode P R} (hn : n.Sound) : n.closeQueue.Sound where
  dialed halive := absurd halive (by simp [StreamNode.closeQueue])
  connections := hn.connections
  senders := hn.senders
  numbered := hn.numbered
  bounded := hn.bounded
  held := hn.held
  locked := hn.locked
  closed _ := rfl
  dropped hstage := absurd hstage (by simp [StreamNode.closeQueue])

theorem Sound.dropPending {n : StreamNode P R} (hn : n.Sound) (hfree : n.locked = none)
    (hstage : n.stage = .closing) : n.dropPending.Sound := by
  have hs := n.shared.onBehaviourDropped_sameDials
  refine ⟨fun halive => ?_, fun c p => ?_, fun h hh => ?_, hn.numbered, hn.bounded,
    fun ch hopen => ?_, fun r p hp => ?_, fun _ => ?_, fun _ => ⟨hfree, rfl⟩⟩
  · exact absurd halive (by simp [StreamNode.dropPending])
  · change n.shared.onBehaviourDropped.connections.lookup c = some p ↔ _
    rw [hs.connections]
    exact hn.connections c p
  · change n.shared.onBehaviourDropped.senders.lookup h.connection = _
    rw [hs.senders]
    exact hn.senders h hh
  · obtain ⟨hopen, hnone⟩ := Shared.not_open_onBehaviourDropped hopen
    rcases hn.held ch hopen with ⟨p, hp⟩ | h
    · exact absurd hp (hnone p)
    · exact .inr h
  · exact absurd (hfree.symm.trans hp) (by simp)
  · exact hs.dialClosed.trans (hn.closed (by simp [hstage]))

/-- A failed dial of another behaviour. -/
theorem Sound.otherFailure {n : StreamNode P R} (hn : n.Sound) (hfree : n.locked = none)
    (peer : Option P) (error : DialError) (reason : String) (pick : Nat) :
    { n with
      shared := n.shared.onSwarmDialFailure pick peer error reason : StreamNode P R }.Sound := by
  cases peer with
  | none => exact hn
  | some peer =>
    cases hterminal : error.terminal with
    | true => exact hn.fails hfree hterminal pick reason (fun _ _ h => h) fun _ _ h => h
    | false => cases error <;> first | exact hn.skip hfree pick peer | cases hterminal

/-- A step that has to wait changes nothing. -/
theorem Sound.guarded {n m : StreamNode P R} {c : Prop} [Decidable c] (hn : n.Sound)
    (hm : c → m.Sound) : (if c then m else n).Sound := by
  split
  · next hc => exact hm hc
  · exact hn

/-- Every step keeps a node sound. -/
theorem Sound.step {n : StreamNode P R} (hn : n.Sound) (a : StreamAction P R) :
    (n.step a).Sound := by
  have hfree : n.attends = true → n.locked = none := by
    intro h
    rw [attends, Bool.and_eq_true, Option.isNone_iff_eq_none] at h
    exact h.1
  cases a with
  | openStream request peer pick => exact hn.guarded fun _ => hn.openStream request peer pick
  | insertPending => exact hn.insertPending
  | sendRequest index => exact hn.sendRequest index
  | poll => exact hn.guarded fun _ => hn.poll
  | answer index pick answer => exact hn.guarded fun _ => hn.answerDial index pick answer
  | otherDial peer =>
    refine hn.dials fun p hp => ?_
    exact hp.imp_right fun hp => hp.imp_right fun hp => List.mem_append_left _ hp
  | otherDialRefused peer error reason pick =>
    exact hn.guarded fun h => hn.otherFailure (hfree h) peer error reason pick
  | dialFailed index error reason =>
    exact hn.guarded fun h => hn.failDial (hfree h) index error reason
  | dialConnected index => exact hn.guarded fun h => hn.connectDial (hfree h) index
  | connected peer => exact hn.guarded fun h => hn.makeHandler (hfree h) peer fun _ _ h => h
  | reported index => exact hn.guarded fun _ => hn.report index
  | denied index dialed reason =>
    exact hn.guarded fun h => hn.deny (hfree h) index dialed reason
  | ended index => exact hn.endConnection index
  | closed index => exact hn.guarded fun _ => hn.close index
  | handlerPoll index => exact hn.handlerPoll index
  | negotiated index error => exact hn.negotiated index error
  | closeQueue => exact hn.guarded fun _ => hn.closeQueue
  | dropPending =>
    refine hn.guarded fun h => ?_
    rw [Bool.and_eq_true, Option.isNone_iff_eq_none, decide_eq_true_iff] at h
    exact hn.dropPending h.1 h.2

/-- In every run, a peer with a pending channel has a dial queued or in the hands of the swarm
for as long as the behaviour lives, and no peer has one afterwards. A request that waits in a
channel waits for the handler of a connection or for such a peer. -/
theorem pending_requests_have_dials (actions : List (StreamAction P R)) :
    Throughout StreamNode.step (fun n =>
        (n.stage = .alive → ∀ peer ∈ n.shared.pendingChannels, n.HasDial peer) ∧
        (n.stage = .dropped → n.shared.pendingChannels = ∅) ∧
        ∀ channel, ∀ request ∈ n.shared.channels.messages channel,
          (∃ h ∈ n.handlers, h.channel = channel) ∨
          ∃ peer, n.shared.pendingChannels.lookup peer = some channel ∧
            (n.stage = .alive → n.HasDial peer))
      start actions := by
  have hsound : Throughout StreamNode.step Sound (start : StreamNode P R) actions :=
    throughout_of_invariant (fun _ a hn => hn.step a) actions sound_start
  refine hsound.imp fun n hn => ⟨fun halive p hp => hn.dialed halive p (.inl hp),
    fun hstage => (hn.dropped hstage).2, fun channel request hrequest => ?_⟩
  rcases hn.held channel (Channels.open_of_mem_messages hrequest) with ⟨p, hp⟩ | h
  · have hpending : p ∈ n.shared.pendingChannels := by
      rw [← AList.lookup_isSome, hp]
      rfl
    exact .inr ⟨p, hp, fun halive => hn.dialed halive p (.inl hpending)⟩
  · exact .inl h

/-- A request that comes between the handler of a connection and its report makes a pending
channel; the dial is skipped, and the request moves to the connection. -/
example :
    let n := ([.connected 7, .openStream 1 7 0, .insertPending, .sendRequest 0, .reported 0, .poll,
      .answer 0 0 .starts] : List (StreamAction Nat Nat)).foldl step start
    n.shared.pendingChannels.keys = [] ∧ n.shared.channels.messages 0 = [1] ∧ n.dialing = [] := by
  decide

/-- Where the handler of that connection is gone by then, and the connection is not reported closed
yet, the request fails. -/
example :
    let n := ([.connected 7, .openStream 1 7 0, .insertPending, .sendRequest 0, .reported 0, .poll,
      .ended 0, .answer 0 0 .starts] : List (StreamAction Nat Nat)).foldl step start
    n.shared.pendingChannels.keys = [] ∧ n.shared.answers = [(1, .error .reset)] := by
  decide

end StreamNode

end SqdNetwork.Transport
