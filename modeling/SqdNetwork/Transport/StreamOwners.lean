import SqdNetwork.Transport.StreamAnswers

/-!
# The peers of stream requests

A request names the peer it wants a stream to, and is handed on through channels that
know nothing of it. A channel belongs to one peer from when it is made: it is pending
for that peer, then the channel of a connection to it. So a stream a request is
answered with is a stream to the peer it asked for.
-/

namespace SqdNetwork.Transport

open SqdNetwork.Core

namespace Shared

variable {P R : Type}

/-- All that is answered meanwhile is errors. -/
def OnlyFails (s t : Shared P R) : Prop :=
  ∀ r c, (r, .ok c) ∈ t.answers → (r, .ok c) ∈ s.answers

theorem onlyFails_fail (s : Shared P R) (requests : List R) (error : OpenStreamError) :
    OnlyFails s (s.fail requests error) := by
  intro r c h
  rcases List.mem_append.mp h with h | h
  · exact h
  · obtain ⟨_, -, heq⟩ := List.mem_map.mp h
    cases congrArg Prod.snd heq

theorem onlyFails_trySend (s : Shared P R) (channel : Nat) (request : R) :
    OnlyFails s (s.trySend channel request) := by
  unfold trySend
  split
  · exact fun _ _ h => h
  · exact onlyFails_fail s [request] .reset

theorem onlyFails_onBehaviourDropped (s : Shared P R) : OnlyFails s s.onBehaviourDropped :=
  List.foldlRecOn (motive := fun t => OnlyFails s t) s.pendingChannels.entries _
    (fun _ _ h => h) fun t ht _ _ r c h => ht r c (onlyFails_fail t _ .reset r c h)

variable [DecidableEq P] {s : Shared P R}

/-- Channels belong to peers: those pending for a peer to that peer, and those a request is in to
the peer it asks for. -/
structure Carries (peerOf : R → P) (owner : Nat → Option P) (s : Shared P R) : Prop where
  made : ∀ channel, s.channels.made ≤ channel → owner channel = none
  pending : ∀ p channel, s.pendingChannels.lookup p = some channel → owner channel = some p
  messages : ∀ channel, ∀ r ∈ s.channels.messages channel, owner channel = some (peerOf r)

theorem onlyFails_receiver (s : Shared P R) (peer : P) (connection : Nat) :
    OnlyFails s (s.receiver peer connection).1 := by
  unfold receiver
  split <;> exact fun _ _ h => h

theorem onlyFails_onSwarmDialFailure (s : Shared P R) (pick : Nat) (peer : Option P)
    (error : DialError) (reason : String) :
    OnlyFails s (s.onSwarmDialFailure pick peer error reason) := by
  have hfailure : ∀ peer, OnlyFails s (s.onDialFailure peer reason) := by
    intro peer
    unfold onDialFailure
    split
    · exact fun _ _ h => h
    · exact onlyFails_fail s _ _
  have hskipped : ∀ peer, OnlyFails s (s.onDialSkipped pick peer) := by
    intro peer
    unfold onDialSkipped
    split
    · exact fun _ _ h => h
    · split
      · exact fun _ _ h => h
      · exact List.foldlRecOn (motive := fun t => OnlyFails s t) _ _ (fun _ _ h => h)
          fun t ht request _ r c h => ht r c (onlyFails_trySend t _ request r c h)
  cases peer with
  | none => exact fun _ _ h => h
  | some peer =>
    cases error with
    | dialPeerConditionFalse _ => exact hskipped peer
    | _ => exact hfailure peer

variable {peerOf : R → P} {owner : Nat → Option P}

/-- Pending channels and messages that go away leave the others where they belong. -/
theorem Carries.mono {t : Shared P R} (hs : s.Carries peerOf owner)
    (hmade : t.channels.made = s.channels.made)
    (hpending : ∀ p channel, t.pendingChannels.lookup p = some channel →
      s.pendingChannels.lookup p = some channel)
    (hmessages : ∀ channel, ∀ r ∈ t.channels.messages channel, r ∈ s.channels.messages channel) :
    t.Carries peerOf owner where
  made channel h := hs.made channel (hmade ▸ h)
  pending p channel h := hs.pending p channel (hpending p channel h)
  messages channel r h := hs.messages channel r (hmessages channel r h)

/-- A request in a channel of a peer asks for that peer. -/
theorem Carries.peer_of_message (hs : s.Carries peerOf owner) {channel : Nat} {peer : P}
    (howner : owner channel = some peer) {request : R}
    (hrequest : request ∈ s.channels.messages channel) : peerOf request = peer :=
  Option.some.inj ((hs.messages channel request hrequest).symm.trans howner)

theorem Carries.fail (hs : s.Carries peerOf owner) (requests : List R) (error : OpenStreamError) :
    (s.fail requests error).Carries peerOf owner :=
  ⟨hs.made, hs.pending, hs.messages⟩

theorem lookup_of_lookup_erase {p peer : P} {channel : Nat}
    (h : (s.pendingChannels.erase peer).lookup p = some channel) :
    s.pendingChannels.lookup p = some channel := by
  by_cases hp : p = peer
  · subst hp
    rw [AList.lookup_erase] at h
    cases h
  · rwa [AList.lookup_erase_ne hp] at h

/-- A request sent into a channel of its peer is where it belongs. -/
theorem Carries.trySend (hs : s.Carries peerOf owner) {channel : Nat} {request : R}
    (howner : owner channel = some (peerOf request)) :
    (s.trySend channel request).Carries peerOf owner := by
  cases hsend : s.channels.send channel request with
  | none =>
    simp only [Shared.trySend, hsend]
    exact hs.fail [request] .reset
  | some channels =>
    simp only [Shared.trySend, hsend]
    refine ⟨fun ch hch => hs.made ch ?_, hs.pending, fun ch r hr => ?_⟩
    · rwa [← Channels.made_send hsend]
    rcases Channels.mem_messages_send hsend hr with hr | ⟨rfl, rfl⟩
    · exact hs.messages ch r hr
    · exact howner

theorem Carries.onDialFailure (hs : s.Carries peerOf owner) (peer : P) (reason : String) :
    (s.onDialFailure peer reason).Carries peerOf owner := by
  unfold Shared.onDialFailure
  split
  · exact hs
  · exact hs.mono rfl (fun _ _ h => lookup_of_lookup_erase h)
      fun _ _ h => Channels.mem_messages_close h

/-- The requests of a peer move to a connection to that peer. -/
theorem Carries.onDialSkipped (hs : s.Carries peerOf owner) {pick : Nat} {peer : P}
    (hsender : ∀ channel, s.connectedSender pick peer = some channel →
      owner channel = some peer) :
    (s.onDialSkipped pick peer).Carries peerOf owner := by
  unfold Shared.onDialSkipped
  split
  · exact hs
  · next sender hconnected =>
    split
    · exact hs
    · next channel hchannel =>
      refine List.foldlRecOn (motive := fun t => Carries peerOf owner t) _ _ ?_ ?_
      · exact hs.mono rfl (fun _ _ h => lookup_of_lookup_erase h)
          fun _ _ h => Channels.mem_messages_close h
      · intro t ht request hrequest
        refine ht.trySend ?_
        rw [hsender sender hconnected, ← hs.pending peer channel hchannel]
        exact hs.messages channel request hrequest

theorem Carries.onSwarmDialFailure (hs : s.Carries peerOf owner) {pick : Nat} {peer : Option P}
    (hsender : ∀ p, peer = some p → ∀ channel, s.connectedSender pick p = some channel →
      owner channel = some p) (error : DialError) (reason : String) :
    (s.onSwarmDialFailure pick peer error reason).Carries peerOf owner := by
  cases peer with
  | none => exact hs
  | some peer =>
    cases error with
    | dialPeerConditionFalse _ => exact hs.onDialSkipped (hsender peer rfl)
    | _ => exact hs.onDialFailure peer reason

theorem Carries.onBehaviourDropped (hs : s.Carries peerOf owner) :
    s.onBehaviourDropped.Carries peerOf owner := by
  have hdrop : (s.pendingChannels.entries.foldl (fun s e => s.dropReceiver e.2) s).Carries
      peerOf owner :=
    List.foldlRecOn (motive := fun t => Carries peerOf owner t) _ _ hs fun t ht e _ =>
      ht.mono rfl (fun _ _ h => h) fun _ _ h => Channels.mem_messages_close h
  refine ⟨hdrop.made, fun p channel h => ?_, hdrop.messages⟩
  rw [show s.onBehaviourDropped.pendingChannels = ∅ from rfl, AList.lookup_empty] at h
  cases h

/-- A new channel is given to a peer. -/
theorem Carries.own_fresh (hs : s.Carries peerOf owner) {channel : Nat} {p : P} (peer : P)
    (h : owner channel = some p) :
    Function.update owner s.channels.fresh (some peer) channel = some p := by
  have hne : channel ≠ s.channels.fresh := by
    rintro rfl
    exact absurd ((hs.made _ (Nat.le_refl _)).symm.trans h) (by simp)
  rwa [Function.update_of_ne hne]

/-- The channels and their peers after a channel was made for a peer. -/
theorem Carries.create {t : Shared P R} (hs : s.Carries peerOf owner) (peer : P)
    (hchannels : t.channels = s.channels.create)
    (hpending : ∀ p channel, t.pendingChannels.lookup p = some channel →
      s.pendingChannels.lookup p = some channel ∨ p = peer ∧ channel = s.channels.fresh) :
    t.Carries peerOf (Function.update owner s.channels.fresh (some peer)) where
  made channel h := by
    rw [hchannels] at h
    have hne : channel ≠ s.channels.fresh := Nat.ne_of_gt h
    rw [Function.update_of_ne hne]
    exact hs.made channel (Nat.le_of_succ_le h)
  pending p channel h := by
    rcases hpending p channel h with h | ⟨rfl, rfl⟩
    · exact hs.own_fresh peer (hs.pending p channel h)
    · exact Function.update_self _ _ _
  messages channel r h := by
    rw [hchannels] at h
    exact hs.own_fresh peer (hs.messages channel r (Channels.mem_messages_create h))

/-- A sender that is returned is that of a connection or pending. -/
theorem sender_eq_ok {pick : Nat} {peer : P} {channel : Nat}
    (h : s.sender pick peer = .returns (.ok channel)) :
    s.connectedSender pick peer = some channel ∨ s.pendingChannels.lookup peer = some channel := by
  unfold sender at h
  split at h
  · next hconnected =>
    cases h
    exact .inl hconnected
  · split at h
    · next hpending =>
      cases h
      exact .inr hpending
    · split at h <;> cases h

/-- The channel of a connected peer is that of one of its connections. -/
theorem exists_of_connectedSender {pick : Nat} {peer : P} {channel : Nat}
    (h : s.connectedSender pick peer = some channel) :
    ∃ c, s.connections.lookup c = some peer ∧ s.senders.lookup c = some channel := by
  obtain ⟨c, hc, hchannel⟩ := Option.bind_eq_some_iff.mp h
  exact ⟨c, mem_connectionsTo.mp (List.mem_of_getElem? hc), hchannel⟩

end Shared

namespace StreamNode

variable {P R : Type} [DecidableEq P] {n : StreamNode P R}

/-- A stream is only given to the request its handler was negotiating for. -/
theorem ok_answer_cases (a : StreamAction P R) {request : R} {connection : Nat}
    (h : (request, .ok connection) ∈ (n.step a).shared.answers) :
    (request, .ok connection) ∈ n.shared.answers ∨
      ∃ h ∈ n.established, h.connection = connection ∧
        n.pendingUpgrade connection = some request := by
  have hguard : ∀ {c : Prop} [Decidable c] {m : StreamNode P R},
      Shared.OnlyFails n.shared m.shared →
      Shared.OnlyFails n.shared (if c then m else n).shared := by
    intro c _ m hm
    split
    · exact hm
    · exact fun _ _ h => h
  have hfailure := n.shared.onlyFails_onSwarmDialFailure
  have hdrop : ∀ (m : StreamNode P R) (handler : StreamHandler P),
      m.shared.answers = n.shared.answers →
      Shared.OnlyFails n.shared (m.dropHandler handler).shared := by
    intro m handler hm r c h
    have hmid := Shared.onlyFails_fail (m.shared.dropReceiver handler.channel) _ .reset r c h
    exact hm ▸ Shared.onlyFails_fail m.shared _ .reset r c hmid
  cases a with
  | negotiated index error =>
    simp only [step, StreamNode.negotiated] at h
    split at h
    · exact .inl h
    · next handler hindex =>
      split at h
      · exact .inl h
      · next pending hpending =>
        rcases List.mem_append.mp h with h | h
        · exact .inl h
        · have heq := List.mem_singleton.mp h
          cases error with
          | some error => cases congrArg Prod.snd heq
          | none =>
            cases heq
            exact .inr ⟨handler, List.mem_of_getElem? hindex, rfl, hpending⟩
  | openStream r peer pick =>
    refine .inl (hguard ?_ _ _ h)
    unfold StreamNode.openStream
    split
    · exact fun _ _ h => h
    · exact n.shared.onlyFails_fail _ _
    · next shared hshared =>
      obtain ⟨-, -, rfl⟩ := Shared.sender_eq_dials hshared
      exact fun _ _ h => h
  | insertPending =>
    simp only [step, StreamNode.insertPending] at h
    split at h <;> exact .inl h
  | sendRequest index =>
    simp only [step, StreamNode.sendRequest] at h
    split at h
    · exact .inl h
    · exact .inl (n.shared.onlyFails_trySend _ _ _ _ h)
  | poll =>
    refine .inl (hguard ?_ _ _ h)
    unfold StreamNode.poll
    split <;> exact fun _ _ h => h
  | answer index pick answer =>
    refine .inl (hguard ?_ _ _ h)
    unfold answerDial
    split
    · exact fun _ _ h => h
    · split
      · split
        · exact fun _ _ h => h
        · exact hguard (hfailure _ _ _ _)
      · exact hguard (hfailure _ _ _ _)
  | otherDial peer => exact .inl h
  | otherDialRefused peer error reason pick => exact .inl (hguard (hfailure _ _ _ _) _ _ h)
  | dialFailed index error reason =>
    refine .inl (hguard ?_ _ _ h)
    unfold failDial
    split
    · exact fun _ _ h => h
    · exact hguard (hfailure _ _ _ _)
  | dialConnected index =>
    refine .inl (hguard ?_ _ _ h)
    unfold connectDial
    split
    · exact fun _ _ h => h
    · exact n.shared.onlyFails_receiver _ _
  | connected peer => exact .inl (hguard (n.shared.onlyFails_receiver _ _) _ _ h)
  | reported index =>
    refine .inl (hguard ?_ _ _ h)
    unfold report
    split <;> exact fun _ _ h => h
  | denied index dialed reason =>
    refine .inl (hguard ?_ _ _ h)
    unfold deny
    split
    · exact fun _ _ h => h
    · next handler _ =>
      have hdropped := hdrop { n with halfOpen := n.halfOpen.eraseIdx index } handler rfl
      cases dialed with
      | true =>
        intro r c h
        exact hdropped r c (Shared.onlyFails_onSwarmDialFailure _ 0 _ .denied reason r c h)
      | false => exact hdropped
  | ended index =>
    simp only [step, StreamNode.endConnection] at h
    split at h
    · exact .inl h
    · exact .inl (hdrop _ _ rfl _ _ h)
  | closed index =>
    refine .inl (hguard ?_ _ _ h)
    unfold StreamNode.close
    split <;> exact fun _ _ h => h
  | handlerPoll index =>
    simp only [step, StreamNode.handlerPoll] at h
    split at h
    · exact .inl h
    · split at h <;> exact .inl h
  | closeQueue =>
    refine .inl (hguard ?_ _ _ h)
    exact fun _ _ h => h
  | dropPending =>
    exact .inl (hguard n.shared.onlyFails_onBehaviourDropped _ _ h)

/-- Every request that is made names the peer it asks for. -/
def Asks (peerOf : R → P) : StreamAction P R → Prop
  | .openStream request peer _ => peer = peerOf request
  | _ => True

/-- Requests are with handlers and in channels of the peers they ask for. -/
structure Belongs (peerOf : R → P) (owner : Nat → Option P) (n : StreamNode P R) : Prop
    extends n.shared.Carries peerOf owner where
  handler : ∀ h ∈ n.links, owner h.channel = some h.peer
  holding : ∀ e ∈ n.holding, owner e.2 = some (peerOf e.1)
  locked : ∀ r p, n.locked = some (r, p) → p = peerOf r
  upgrade : ∀ h ∈ n.links, ∀ r, n.pendingUpgrade h.connection = some r → h.peer = peerOf r

variable {peerOf : R → P} {owner : Nat → Option P}

/-- Handlers and requests that go away leave the others where they belong. -/
theorem Belongs.mono (hn : n.Belongs peerOf owner) {m : StreamNode P R}
    (hcarries : m.shared.Carries peerOf owner) (hlinks : ∀ h ∈ m.links, h ∈ n.links)
    (hholding : ∀ e ∈ m.holding, e ∈ n.holding) (hlocked : m.locked = n.locked)
    (hupgrade : ∀ c r, m.pendingUpgrade c = some r → n.pendingUpgrade c = some r) :
    m.Belongs peerOf owner where
  toCarries := hcarries
  handler h hh := hn.handler h (hlinks h hh)
  holding e he := hn.holding e (hholding e he)
  locked r p h := hn.locked r p (hlocked ▸ h)
  upgrade h hh r hr := hn.upgrade h (hlinks h hh) r (hupgrade _ r hr)

theorem Belongs.withShared (hn : n.Belongs peerOf owner) {s : Shared P R}
    (hs : s.Carries peerOf owner) (emitted dialing : List P) :
    { n with shared := s, emitted := emitted
             dialing := dialing : StreamNode P R }.Belongs peerOf owner :=
  hn.mono hs (fun _ h => h) (fun _ h => h) rfl fun _ _ h => h

/-- A channel of a connected peer belongs to the peer. -/
theorem Belongs.connectedSender (hn : n.Belongs peerOf owner) (hsound : n.Sound) {pick : Nat}
    {peer : P} {channel : Nat} (h : n.shared.connectedSender pick peer = some channel) :
    owner channel = some peer := by
  obtain ⟨c, hc, hchannel⟩ := Shared.exists_of_connectedSender h
  obtain ⟨handler, hmem, rfl, rfl⟩ := (hsound.connections c peer).mp hc
  have hlink := mem_links_of_mem_reported hmem
  rw [hsound.senders handler hlink] at hchannel
  cases hchannel
  exact hn.handler handler hlink

theorem Belongs.openStream (hn : n.Belongs peerOf owner) (hsound : n.Sound) {request : R}
    {peer : P} (hpeer : peer = peerOf request) (pick : Nat) :
    (n.openStream request peer pick).Belongs peerOf owner := by
  unfold StreamNode.openStream
  split
  · next channel hsender =>
    have howner : owner channel = some peer := by
      rcases Shared.sender_eq_ok hsender with h | h
      · exact hn.connectedSender hsound h
      · exact hn.pending peer channel h
    refine ⟨hn.toCarries, hn.handler, fun e he => ?_, hn.locked, hn.upgrade⟩
    rcases List.mem_append.mp he with he | he
    · exact hn.holding e he
    · rw [List.mem_singleton.mp he, ← hpeer]
      exact howner
  · exact hn.withShared (hn.toCarries.fail _ _) _ _
  · next shared hshared =>
    obtain ⟨-, -, rfl⟩ := Shared.sender_eq_dials hshared
    refine ⟨⟨hn.made, hn.pending, hn.messages⟩, hn.handler, hn.holding, fun r p h => ?_,
      hn.upgrade⟩
    cases h
    exact hpeer

/-- The pending channel that is made belongs to the peer of the request that makes it. -/
theorem Belongs.insertPending (hn : n.Belongs peerOf owner) :
    ∃ owner, n.insertPending.Belongs peerOf owner := by
  unfold StreamNode.insertPending
  split
  · exact ⟨owner, hn⟩
  · next request peer hlocked =>
    have hpeer := hn.locked request peer hlocked
    refine ⟨_, hn.toCarries.create peer rfl fun p channel h => ?_,
      fun h hh => hn.own_fresh peer (hn.handler h hh), fun e he => ?_, by simp, hn.upgrade⟩
    · by_cases hp : p = peer
      · subst hp
        rw [Shared.insertPending, AList.lookup_insert] at h
        exact .inr ⟨rfl, (Option.some.inj h).symm⟩
      · rw [Shared.insertPending, AList.lookup_insert_ne hp] at h
        exact .inl h
    · rcases List.mem_append.mp he with he | he
      · exact hn.own_fresh peer (hn.holding e he)
      · rw [List.mem_singleton.mp he, ← hpeer]
        exact Function.update_self _ _ _

theorem Belongs.sendRequest (hn : n.Belongs peerOf owner) (index : Nat) :
    (n.sendRequest index).Belongs peerOf owner := by
  unfold StreamNode.sendRequest
  split
  · exact hn
  · next request channel hindex =>
    have howner := hn.holding _ (List.mem_of_getElem? hindex)
    exact hn.mono (hn.toCarries.trySend howner) (fun _ h => h)
      (fun _ h => List.mem_of_mem_eraseIdx h) rfl fun _ _ h => h

/-- A handler takes over the channel that is pending for its peer, or a new one. -/
theorem Belongs.makeHandler (hn : n.Belongs peerOf owner)
    (hidle : n.pendingUpgrade n.nextConnection = none) (peer : P) :
    ∃ owner, (n.makeHandler peer).Belongs peerOf owner := by
  have hmem : ∀ {channel : Nat} {h : StreamHandler P},
      h ∈ n.halfOpen ++ [⟨n.nextConnection, peer, channel⟩] ++ n.established ++ n.closing →
      h = ⟨n.nextConnection, peer, channel⟩ ∨ h ∈ n.links := by
    intro channel h hh
    simp only [links, handlers, List.mem_append, List.mem_singleton] at hh ⊢
    tauto
  have hupgrade : ∀ {channel : Nat} {h : StreamHandler P} {r : R},
      h = ⟨n.nextConnection, peer, channel⟩ ∨ h ∈ n.links →
      n.pendingUpgrade h.connection = some r → h.peer = peerOf r := by
    rintro channel h r (rfl | hh) hr
    · exact absurd (hidle.symm.trans hr) (by simp)
    · exact hn.upgrade h hh r hr
  unfold StreamNode.makeHandler Shared.receiver
  split
  · next channel hchannel =>
    refine ⟨owner, hn.toCarries.mono rfl (fun _ _ h => Shared.lookup_of_lookup_erase h)
      fun _ _ h => h, fun h hh => ?_, hn.holding, hn.locked, fun h hh r => hupgrade (hmem hh)⟩
    rcases hmem hh with rfl | hh
    · exact hn.pending peer channel hchannel
    · exact hn.handler h hh
  · refine ⟨_, hn.toCarries.create peer rfl fun _ _ h => .inl h, fun h hh => ?_,
      fun e he => hn.own_fresh peer (hn.holding e he), hn.locked, fun h hh r => hupgrade (hmem hh)⟩
    rcases hmem hh with rfl | hh
    · exact Function.update_self _ _ _
    · exact hn.own_fresh peer (hn.handler h hh)

omit [DecidableEq P] in
theorem pendingUpgrade_of_cleared {connection c : Nat} {r : R}
    (h : Function.update n.pendingUpgrade connection none c = some r) :
    n.pendingUpgrade c = some r := by
  by_cases hc : c = connection
  · subst hc
    rw [Function.update_self] at h
    cases h
  · rwa [Function.update_of_ne hc] at h

theorem Belongs.dropHandler (hn : n.Belongs peerOf owner) (h : StreamHandler P) :
    (n.dropHandler h).Belongs peerOf owner := by
  refine hn.mono ?_ (fun _ h => h) (fun _ h => h) rfl fun _ _ => pendingUpgrade_of_cleared
  exact hn.toCarries.mono rfl (fun _ _ h => h) fun _ _ h => Channels.mem_messages_close h

theorem Belongs.deny (hn : n.Belongs peerOf owner) (index : Nat) (dialed : Bool)
    (reason : String) : (n.deny index dialed reason).Belongs peerOf owner := by
  unfold StreamNode.deny
  split
  · exact hn
  · next h hindex =>
    have herase : { n with halfOpen := n.halfOpen.eraseIdx index }.Belongs peerOf owner := by
      refine hn.mono hn.toCarries (fun h' hh' => ?_) (fun _ h => h) rfl fun _ _ h => h
      exact (links_denied hindex).mem_iff.mpr (List.mem_cons_of_mem _ hh')
    have hdrop := herase.dropHandler h
    cases dialed with
    | true => exact hdrop.withShared (hdrop.toCarries.onDialFailure h.peer reason) _ _
    | false => exact hdrop

theorem Belongs.endConnection (hn : n.Belongs peerOf owner) (index : Nat) :
    (n.endConnection index).Belongs peerOf owner := by
  unfold StreamNode.endConnection
  split
  · exact hn
  · next h hindex =>
    have hmoved : { n with
        established := n.established.eraseIdx index
        closing := n.closing ++ [h] }.Belongs peerOf owner :=
      hn.mono hn.toCarries (fun _ hh => (links_ended hindex).mem_iff.mp hh) (fun _ h => h) rfl
        fun _ _ h => h
    exact hmoved.dropHandler h

theorem Belongs.close (hn : n.Belongs peerOf owner) (index : Nat) :
    (n.close index).Belongs peerOf owner := by
  unfold StreamNode.close
  split
  · exact hn
  · next h hindex =>
    refine hn.mono ⟨hn.made, hn.pending, hn.messages⟩ (fun h' hh' => ?_) (fun _ h => h) rfl
      fun _ _ h => h
    exact (links_closed hindex).mem_iff.mpr (List.mem_cons_of_mem _ hh')

/-- The request a handler takes from its channel asks for the peer of the handler. -/
theorem Belongs.handlerPoll (hn : n.Belongs peerOf owner) (hsound : n.Sound) (index : Nat) :
    (n.handlerPoll index).Belongs peerOf owner := by
  unfold StreamNode.handlerPoll
  split
  · exact hn
  · next h hindex =>
    split
    · next request rest hidle hmessages =>
      have hh : h ∈ n.links :=
        mem_links_of_mem_reported (List.mem_append_left _ (List.mem_of_getElem? hindex))
      have hrequest : peerOf request = h.peer :=
        hn.peer_of_message (hn.handler h hh) (hmessages ▸ List.mem_cons_self)
      refine ⟨hn.toCarries.mono rfl (fun _ _ h => h) fun _ _ h => Channels.mem_messages_receive h,
        hn.handler, hn.holding, hn.locked, fun h' hh' r hr => ?_⟩
      replace hr : Function.update n.pendingUpgrade h.connection (some request) h'.connection =
        some r := hr
      by_cases hc : h'.connection = h.connection
      · have heq : h' = h := List.inj_on_of_nodup_map hsound.numbered hh' hh hc
        subst heq
        rw [Function.update_self] at hr
        cases hr
        exact hrequest.symm
      · rw [Function.update_of_ne hc] at hr
        exact hn.upgrade h' hh' r hr
    · exact hn

theorem Belongs.negotiated (hn : n.Belongs peerOf owner) (index : Nat)
    (error : Option OpenStreamError) : (n.negotiated index error).Belongs peerOf owner := by
  unfold StreamNode.negotiated
  split
  · exact hn
  · next h hindex =>
    split
    · exact hn
    · exact hn.mono ⟨hn.made, hn.pending, hn.messages⟩ (fun _ h => h) (fun _ h => h) rfl
        fun _ _ => pendingUpgrade_of_cleared

theorem Belongs.answerDial (hn : n.Belongs peerOf owner) (hsound : n.Sound) (index pick : Nat)
    (answer : DialAnswer) : (n.answerDial index pick answer).Belongs peerOf owner := by
  have hfailure : ∀ peer error reason, (n.shared.onSwarmDialFailure pick (some peer) error
      reason).Carries peerOf owner := fun peer error reason =>
    hn.toCarries.onSwarmDialFailure
      (fun p hp channel h => hn.connectedSender hsound h) error reason
  unfold StreamNode.answerDial
  split
  · exact hn
  · split
    · split
      · exact hn.withShared hn.toCarries _ _
      · split
        · exact hn.withShared (hfailure _ _ _) _ _
        · exact hn
    · split
      · exact hn.withShared (hfailure _ _ _) _ _
      · exact hn

/-- Every step in which requests ask for their own peer leaves them where they belong. -/
theorem Belongs.step (hn : n.Belongs peerOf owner) (hledger : n.Ledger) {a : StreamAction P R}
    (ha : Asks peerOf a) : ∃ owner, (n.step a).Belongs peerOf owner := by
  have hguard : ∀ {c : Prop} [Decidable c] {m : StreamNode P R},
      (∃ owner, m.Belongs peerOf owner) → ∃ owner, (if c then m else n).Belongs peerOf owner := by
    intro c _ m hm
    split
    · exact hm
    · exact ⟨owner, hn⟩
  have hsound := hledger.toSound
  have hidle := hledger.upgrades _ (Nat.le_refl _)
  have hfailure : ∀ pick peer error reason, (n.shared.onSwarmDialFailure pick peer error
      reason).Carries peerOf owner := fun pick peer error reason =>
    hn.toCarries.onSwarmDialFailure
      (fun p _ channel h => hn.connectedSender hsound h) error reason
  cases a with
  | openStream request peer pick => exact hguard ⟨owner, hn.openStream hsound ha pick⟩
  | insertPending => exact hn.insertPending
  | sendRequest index => exact ⟨owner, hn.sendRequest index⟩
  | poll =>
    refine hguard ⟨owner, ?_⟩
    unfold StreamNode.poll
    split
    · exact hn
    · exact hn.mono ⟨hn.made, hn.pending, hn.messages⟩ (fun _ h => h) (fun _ h => h) rfl
        fun _ _ h => h
  | answer index pick answer => exact hguard ⟨owner, hn.answerDial hsound index pick answer⟩
  | otherDial peer => exact ⟨owner, hn.withShared hn.toCarries _ _⟩
  | otherDialRefused peer error reason pick =>
    exact hguard ⟨owner, hn.withShared (hfailure pick peer error reason) _ _⟩
  | dialFailed index error reason =>
    refine hguard ?_
    unfold failDial
    split
    · exact ⟨owner, hn⟩
    · exact hguard ⟨owner, hn.withShared (hfailure 0 _ error reason) _ _⟩
  | dialConnected index =>
    refine hguard ?_
    unfold connectDial
    split
    · exact ⟨owner, hn⟩
    · exact (hn.withShared hn.toCarries n.emitted (n.dialing.eraseIdx index)).makeHandler hidle _
  | connected peer => exact hguard (hn.makeHandler hidle peer)
  | reported index =>
    refine hguard ⟨owner, ?_⟩
    unfold report
    split
    · exact hn
    · next h hindex =>
      refine hn.mono ⟨hn.made, hn.pending, hn.messages⟩ (fun h' hh' => ?_) (fun _ h => h) rfl
        fun _ _ h => h
      exact ((handlers_reported hindex).append_right n.closing).mem_iff.mp hh'
  | denied index dialed reason => exact hguard ⟨owner, hn.deny index dialed reason⟩
  | ended index => exact ⟨owner, hn.endConnection index⟩
  | closed index => exact hguard ⟨owner, hn.close index⟩
  | handlerPoll index => exact ⟨owner, hn.handlerPoll hsound index⟩
  | negotiated index error => exact ⟨owner, hn.negotiated index error⟩
  | closeQueue =>
    exact hguard ⟨owner, hn.mono ⟨hn.made, hn.pending, hn.messages⟩ (fun _ h => h)
      (fun _ h => h) rfl fun _ _ h => h⟩
  | dropPending =>
    exact hguard ⟨owner, hn.mono hn.toCarries.onBehaviourDropped (fun _ h => h)
      (fun _ h => h) rfl fun _ _ h => h⟩

theorem belongs_start : (start : StreamNode P R).Belongs peerOf fun _ => none where
  made _ _ := rfl
  pending := by simp [start, Shared.new]
  messages := by simp [start, Shared.new, Channels.messages, Channels.empty]
  handler := by simp [links, handlers, start]
  holding := by simp [start]
  locked := by simp [start]
  upgrade := by simp [links, handlers, start]

variable [DecidableEq R]

/-- In every run whose requests each ask for their own peer, a stream is given to a request only
over a connection to that peer, open at the time; and at all times the requests that wait in the
pending channel of a peer, in the channel of a connection or with its handler are for that peer. -/
theorem streams_lead_to_asked_peer (peerOf : R → P) (actions : List (StreamAction P R))
    (hasks : ∀ a ∈ actions, Asks peerOf a) :
    EveryStep StreamNode.step (fun n a => ∀ request connection,
        (request, .ok connection) ∈ (n.step a).shared.answers →
        (request, .ok connection) ∈ n.shared.answers ∨
          ∃ h ∈ n.established, h.connection = connection ∧ h.peer = peerOf request)
      start actions ∧
    Throughout StreamNode.step (fun n =>
        (∀ peer channel, n.shared.pendingChannels.lookup peer = some channel →
          ∀ request ∈ n.shared.channels.messages channel, peerOf request = peer) ∧
        ∀ h ∈ n.handlers,
          (∀ request ∈ n.shared.channels.messages h.channel, peerOf request = h.peer) ∧
          ∀ request, n.pendingUpgrade h.connection = some request → peerOf request = h.peer)
      start actions := by
  have hstart : (start : StreamNode P R).Ledger ∧ ∃ owner, start.Belongs peerOf owner :=
    ⟨ledger_start, _, belongs_start⟩
  have hstep : ∀ (n : StreamNode P R) a, Asks peerOf a →
      (n.Ledger ∧ ∃ owner, n.Belongs peerOf owner) →
      (n.step a).Ledger ∧ ∃ owner, (n.step a).Belongs peerOf owner := by
    rintro n a ha ⟨hledger, owner, hn⟩
    exact ⟨hledger.step a, hn.step hledger ha⟩
  constructor
  · refine EveryStep.imp_of_invariant hstep (fun n a _ hn request connection h => ?_)
      (everyStep_iff_forall.mpr hasks) hstart
    obtain ⟨-, owner, hn⟩ := hn
    rcases ok_answer_cases a h with h | ⟨handler, hmem, rfl, hpending⟩
    · exact .inl h
    · have hlink := mem_links_of_mem_reported (List.mem_append_left _ hmem)
      exact .inr ⟨handler, hmem, rfl, hn.upgrade handler hlink request hpending⟩
  · refine (throughout_of_everyStep hstep (everyStep_iff_forall.mpr hasks) hstart).imp ?_
    rintro n ⟨-, owner, hn⟩
    refine ⟨fun peer channel hchannel request hrequest => ?_, fun h hh =>
      ⟨fun request hrequest => ?_, fun request hrequest => ?_⟩⟩
    · exact hn.peer_of_message (hn.pending peer channel hchannel) hrequest
    · exact hn.peer_of_message (hn.handler h (List.mem_append_left _ hh)) hrequest
    · exact (hn.upgrade h (List.mem_append_left _ hh) request hrequest).symm

/-- Two requests for two peers, one of them dialed for it, each get a stream to their peer. -/
theorem streams_lead_to_asked_peer_sample :
    let actions : List (StreamAction Nat Nat) :=
      [.connected 7, .reported 0, .openStream 17 7 0, .sendRequest 0, .openStream 18 8 0,
        .insertPending, .poll, .answer 0 0 .starts, .sendRequest 0, .dialConnected 0, .reported 0,
        .handlerPoll 0, .handlerPoll 1, .negotiated 1 none, .negotiated 0 none]
    (actions.foldl StreamNode.step start).shared.answers = [(18, .ok 1), (17, .ok 0)] ∧
      EveryStep StreamNode.step (fun n a => ∀ request connection,
          (request, .ok connection) ∈ (n.step a).shared.answers →
          (request, .ok connection) ∈ n.shared.answers ∨
            ∃ h ∈ n.established, h.connection = connection ∧ h.peer = request - 10)
        start actions := by
  refine ⟨by decide, ?_⟩
  exact (streams_lead_to_asked_peer (· - 10) _ (by simp [Asks])).1

end StreamNode

end SqdNetwork.Transport
