import SqdNetwork.Transport.StreamDialing

/-!
# Answers to stream requests

A request for a stream is handed on from the control to a channel, from a pending
channel to a connection and from there to a handler, while connections and dials
come and go. Throughout every run it is in one place or it has been answered, once.
-/

namespace SqdNetwork.Transport

open SqdNetwork.Core

namespace Shared

variable {P R : Type} [DecidableEq R]

/-- How often a request waits in a channel or has been answered. -/
def tally (s : Shared P R) (request : R) : Nat :=
  s.channels.count request + (s.answers.map Prod.fst).count request

/-- The second state has the requests of the first and some more. -/
structure Gains (s t : Shared P R) (requests : List R) : Prop where
  numbered : t.channels.Numbered
  tally : ∀ r, t.tally r = s.tally r + requests.count r

theorem Gains.trans {s t u : Shared P R} {requests requests' : List R}
    (h : Gains s t requests) (h' : Gains t u requests') : Gains s u (requests ++ requests') where
  numbered := h'.numbered
  tally r := by rw [h'.tally, h.tally, List.count_append, Nat.add_assoc]

/-- Only the channels and the answers hold requests. -/
theorem Gains.congr {s t t' : Shared P R} {requests : List R} (h : Gains s t requests)
    (hchannels : t'.channels = t.channels) (hanswers : t'.answers = t.answers) :
    Gains s t' requests where
  numbered := hchannels ▸ h.numbered
  tally r := by
    rw [← h.tally, Shared.tally, Shared.tally, hchannels, hanswers]

theorem fail_gains {s : Shared P R} (hs : s.channels.Numbered) (requests : List R)
    (error : OpenStreamError) : Gains s (s.fail requests error) requests := by
  refine ⟨hs, fun r => ?_⟩
  have hfst : (requests.map fun r => (r, Except.error error)).map
      (Prod.fst : R × Except OpenStreamError Nat → R) = requests := by
    rw [List.map_map]
    exact List.map_id _
  simp only [tally, fail, List.map_append, List.count_append, hfst]
  omega

/-- Closing a channel and failing the requests in it keeps every request. -/
theorem fail_close_gains {s : Shared P R} (hs : s.channels.Numbered) (channel : Nat)
    (error : OpenStreamError) :
    Gains s { s.fail (s.channels.messages channel) error with
      channels := s.channels.close channel } [] := by
  refine ⟨hs.close channel, fun r => ?_⟩
  have hfail := (fail_gains hs (s.channels.messages channel) error).tally r
  have hclose := Channels.count_close hs channel r
  simp only [tally, List.count_nil] at hfail ⊢
  change (s.channels.close channel).count r + _ = _
  change s.channels.count r + _ = _ at hfail
  omega

theorem dropReceiver_gains {s : Shared P R} (hs : s.channels.Numbered) (channel : Nat) :
    Gains s (s.dropReceiver channel) [] :=
  fail_close_gains hs channel .reset

theorem trySend_gains {s : Shared P R} (hs : s.channels.Numbered) (channel : Nat) (request : R) :
    Gains s (s.trySend channel request) [request] := by
  cases hsend : s.channels.send channel request with
  | none =>
    simp only [trySend, hsend]
    exact fail_gains hs [request] .reset
  | some channels =>
    simp only [trySend, hsend]
    refine ⟨hs.send hsend, fun r => ?_⟩
    have hcount := Channels.count_send hs hsend r
    simp only [tally]
    omega

/-- Requests sent one after the other are all gained. -/
theorem foldl_trySend_gains {s : Shared P R} (hs : s.channels.Numbered) (channel : Nat)
    (requests : List R) :
    Gains s (requests.foldl (fun s request => s.trySend channel request) s) requests := by
  induction requests generalizing s with
  | nil => exact ⟨hs, fun _ => rfl⟩
  | cons request requests ih =>
    have hfirst := trySend_gains hs channel request
    exact hfirst.trans (ih hfirst.numbered)

theorem foldl_dropReceiver_gains {s : Shared P R} (hs : s.channels.Numbered)
    (entries : List ((_ : P) × Nat)) :
    Gains s (entries.foldl (fun s e => s.dropReceiver e.2) s) [] := by
  induction entries generalizing s with
  | nil => exact ⟨hs, fun _ => rfl⟩
  | cons e entries ih =>
    have hfirst := dropReceiver_gains hs e.2
    exact hfirst.trans (ih hfirst.numbered)

theorem onBehaviourDropped_gains {s : Shared P R} (hs : s.channels.Numbered) :
    Gains s s.onBehaviourDropped [] :=
  (foldl_dropReceiver_gains hs s.pendingChannels.entries).congr rfl rfl

variable [DecidableEq P] {s : Shared P R}

theorem onDialFailure_gains (hs : s.channels.Numbered) (peer : P) (reason : String) :
    Gains s (s.onDialFailure peer reason) [] := by
  unfold onDialFailure
  split
  · exact ⟨hs, fun _ => rfl⟩
  · next channel _ => exact (fail_close_gains hs channel _).congr rfl rfl

/-- The requests of a skipped dial move to the connection. -/
theorem onDialSkipped_gains (hs : s.channels.Numbered) (pick : Nat) (peer : P) :
    Gains s (s.onDialSkipped pick peer) [] := by
  unfold onDialSkipped
  split
  · exact ⟨hs, fun _ => rfl⟩
  · next sender _ =>
    split
    · exact ⟨hs, fun _ => rfl⟩
    · next channel _ =>
      have hmoved := foldl_trySend_gains
        (s := { s with pendingChannels := s.pendingChannels.erase peer
                       channels := s.channels.close channel })
        (hs.close channel) sender (s.channels.messages channel)
      refine ⟨hmoved.numbered, fun r => ?_⟩
      have hclose := Channels.count_close hs channel r
      rw [hmoved.tally]
      simp only [tally, List.count_nil]
      omega

theorem onSwarmDialFailure_gains (hs : s.channels.Numbered) (pick : Nat) (peer : Option P)
    (error : DialError) (reason : String) :
    Gains s (s.onSwarmDialFailure pick peer error reason) [] := by
  cases peer with
  | none => exact ⟨hs, fun _ => rfl⟩
  | some peer =>
    cases error with
    | dialPeerConditionFalse _ => exact onDialSkipped_gains hs pick peer
    | _ => exact onDialFailure_gains hs peer reason

/-- Making a channel adds no request. -/
theorem insertPending_gains (hs : s.channels.Numbered) (peer : P) :
    Gains s (s.insertPending peer) [] :=
  ⟨hs.create, fun r => congrArg (· + _) (Channels.count_create s.channels r)⟩

theorem receiver_gains (hs : s.channels.Numbered) (peer : P) (connection : Nat) :
    Gains s (s.receiver peer connection).1 [] := by
  unfold receiver
  split
  · exact ⟨hs, fun _ => rfl⟩
  · exact ⟨hs.create, fun r => congrArg (· + _) (Channels.count_create s.channels r)⟩

end Shared

namespace StreamNode

variable {P R : Type} [DecidableEq R]

/-- How often a request is on its way: with the control, in a channel or with a handler. -/
def waiting (n : StreamNode P R) (request : R) : Nat :=
  (n.locked.toList.map Prod.fst).count request + (n.holding.map Prod.fst).count request +
    n.shared.channels.count request +
    ∑ c ∈ Finset.range n.nextConnection, (n.pendingUpgrade c).toList.count request

/-- How often a request has been answered. -/
def answered (n : StreamNode P R) (request : R) : Nat :=
  (n.shared.answers.map Prod.fst).count request

/-- Every request, on its way or answered. -/
def total (n : StreamNode P R) (request : R) : Nat := n.waiting request + n.answered request

/-- What a step does to the requests. -/
structure Accounts (n m : StreamNode P R) (requests : List R) : Prop where
  channels : m.shared.channels.Numbered
  upgrades : ∀ c, m.nextConnection ≤ c → m.pendingUpgrade c = none
  total : ∀ r, m.total r = n.total r + requests.count r

theorem total_eq (n : StreamNode P R) (r : R) :
    n.total r = (n.locked.toList.map Prod.fst).count r + (n.holding.map Prod.fst).count r +
      ∑ c ∈ Finset.range n.nextConnection, (n.pendingUpgrade c).toList.count r +
      n.shared.tally r := by
  simp only [StreamNode.total, waiting, answered, Shared.tally]
  omega

/-- Requests that only move within the shared state are kept. -/
theorem Accounts.of_shared {n m : StreamNode P R} {requests : List R}
    (hgains : Shared.Gains n.shared m.shared requests) (hlocked : m.locked = n.locked)
    (hholding : m.holding = n.holding) (hnext : m.nextConnection = n.nextConnection)
    (hupgrade : m.pendingUpgrade = n.pendingUpgrade)
    (hbeyond : ∀ c, n.nextConnection ≤ c → n.pendingUpgrade c = none) :
    Accounts n m requests where
  channels := hgains.numbered
  upgrades c hc := by
    rw [hupgrade]
    exact hbeyond c (hnext ▸ hc)
  total r := by
    rw [total_eq, total_eq, hgains.tally, hlocked, hholding, hnext, hupgrade]
    omega

variable {n : StreamNode P R}

/-- What a handler is negotiating for changes. -/
theorem sum_pendingUpgrade_update {connection : Nat} (hlt : connection < n.nextConnection)
    (upgrade : Option R) (r : R) :
    ∑ c ∈ Finset.range n.nextConnection,
        (Function.update n.pendingUpgrade connection upgrade c).toList.count r +
      (n.pendingUpgrade connection).toList.count r =
    ∑ c ∈ Finset.range n.nextConnection, (n.pendingUpgrade c).toList.count r +
      upgrade.toList.count r := by
  have hsum := sum_range_add_of_others
    (f := fun c => (n.pendingUpgrade c).toList.count r)
    (g := fun c => (Function.update n.pendingUpgrade connection upgrade c).toList.count r)
    hlt fun o ho => by rw [Function.update_of_ne ho]
  rwa [Function.update_self] at hsum

omit [DecidableEq R] in
theorem upgrades_update {connection : Nat} (hlt : connection < n.nextConnection)
    (hbeyond : ∀ c, n.nextConnection ≤ c → n.pendingUpgrade c = none) (upgrade : Option R)
    (c : Nat) (hc : n.nextConnection ≤ c) :
    Function.update n.pendingUpgrade connection upgrade c = none := by
  rw [Function.update_of_ne (by omega)]
  exact hbeyond c hc

/-- A handler that goes away answers its requests. -/
theorem dropHandler_accounts {h : StreamHandler P} (hlt : h.connection < n.nextConnection)
    (hchannels : n.shared.channels.Numbered)
    (hbeyond : ∀ c, n.nextConnection ≤ c → n.pendingUpgrade c = none) :
    Accounts n (n.dropHandler h) [] := by
  have hdrop := Shared.dropReceiver_gains hchannels h.channel
  have hfail := Shared.fail_gains hdrop.numbered (n.pendingUpgrade h.connection).toList .reset
  refine ⟨hfail.numbered, upgrades_update hlt hbeyond none, fun r => ?_⟩
  have hsum := n.sum_pendingUpgrade_update hlt none r
  have htally := (hdrop.trans hfail).tally r
  rw [total_eq, total_eq]
  simp only [dropHandler, List.nil_append, Option.toList_none, List.count_nil] at htally hsum ⊢
  omega

/-- A handler of a connection that ends or is denied goes away. -/
theorem Accounts.dropHandler {m : StreamNode P R} (hm : Accounts n m []) {h : StreamHandler P}
    (hlt : h.connection < m.nextConnection) : Accounts n (m.dropHandler h) [] := by
  have hdrop := dropHandler_accounts hlt hm.channels hm.upgrades
  exact ⟨hdrop.channels, hdrop.upgrades, fun r => (hdrop.total r).trans (hm.total r)⟩

variable [DecidableEq P]

/-- The request made in a step: one that finds the lock taken is made later. -/
def issued (n : StreamNode P R) : StreamAction P R → List R
  | .openStream request _ _ => if n.locked.isNone then [request] else []
  | _ => []

/-- The requests made in a run. -/
def asked (n : StreamNode P R) : List (StreamAction P R) → List R
  | [] => []
  | a :: actions => n.issued a ++ (n.step a).asked actions

/-- Where requests are counted, nothing lies beyond the numbers handed out. -/
structure Ledger (n : StreamNode P R) : Prop extends n.Sound where
  channels : n.shared.channels.Numbered
  upgrades : ∀ c, n.nextConnection ≤ c → n.pendingUpgrade c = none

theorem Ledger.same (hn : n.Ledger) : Accounts n n [] :=
  ⟨hn.channels, hn.upgrades, fun _ => rfl⟩

theorem Ledger.openStream (hn : n.Ledger) (hfree : n.locked = none) (request : R) (peer : P)
    (pick : Nat) : Accounts n (n.openStream request peer pick) [request] := by
  unfold StreamNode.openStream
  split
  · refine ⟨hn.channels, hn.upgrades, fun r => ?_⟩
    simp only [total_eq, List.map_append, List.count_append, List.map_cons, List.map_nil]
    omega
  · exact Accounts.of_shared (Shared.fail_gains hn.channels _ _) rfl rfl rfl rfl hn.upgrades
  · next shared hshared =>
    obtain ⟨-, -, rfl⟩ := Shared.sender_eq_dials hshared
    refine ⟨hn.channels, hn.upgrades, fun r => ?_⟩
    simp only [total_eq, hfree, Option.toList_some, Option.toList_none, List.map_cons,
      List.map_nil, List.count_nil, Shared.tally]
    omega

theorem Ledger.insertPending (hn : n.Ledger) : Accounts n n.insertPending [] := by
  unfold StreamNode.insertPending
  split
  · exact hn.same
  · next request peer hlocked =>
    have hgains := Shared.insertPending_gains hn.channels peer
    refine ⟨hgains.numbered, hn.upgrades, fun r => ?_⟩
    have htally := hgains.tally r
    simp only [total_eq, hlocked, Option.toList_some, Option.toList_none, List.map_cons,
      List.map_nil, List.map_append, List.count_append, List.count_nil] at htally ⊢
    omega

theorem Ledger.sendRequest (hn : n.Ledger) (index : Nat) :
    Accounts n (n.sendRequest index) [] := by
  unfold StreamNode.sendRequest
  split
  · exact hn.same
  · next request channel hindex =>
    have hgains := Shared.trySend_gains hn.channels channel request
    refine ⟨hgains.numbered, hn.upgrades, fun r => ?_⟩
    have htally := hgains.tally r
    have hheld := ((perm_eraseIdx hindex).map Prod.fst).count_eq r
    rw [List.map_cons, ← List.singleton_append, List.count_append] at hheld
    simp only [total_eq, List.count_nil] at hheld htally ⊢
    omega

theorem Ledger.makeHandler (hn : n.Ledger) (dialing : List P) (peer : P) :
    Accounts n ({ n with dialing := dialing : StreamNode P R }.makeHandler peer) [] := by
  have hgains := Shared.receiver_gains hn.channels peer n.nextConnection
  refine ⟨hgains.numbered, fun c hc => hn.upgrades c (Nat.le_of_succ_le hc), fun r => ?_⟩
  have htally := hgains.tally r
  have hnew : n.pendingUpgrade n.nextConnection = none := hn.upgrades _ (Nat.le_refl _)
  simp only [total_eq, StreamNode.makeHandler, Finset.sum_range_succ, hnew, Option.toList_none,
    List.count_nil] at htally ⊢
  omega

theorem Ledger.handlerPoll (hn : n.Ledger) (index : Nat) :
    Accounts n (n.handlerPoll index) [] := by
  unfold StreamNode.handlerPoll
  split
  · exact hn.same
  · next h hindex =>
    split
    · next request rest hidle hmessages =>
      have hlt : h.connection < n.nextConnection :=
        hn.bounded_established (List.mem_of_getElem? hindex)
      refine ⟨hn.channels.receive _, upgrades_update hlt hn.upgrades _, fun r => ?_⟩
      have hsum := n.sum_pendingUpgrade_update hlt (some request) r
      have hcount := Channels.count_receive hn.channels hmessages r
      simp only [total_eq, Shared.tally, hidle, Option.toList_some, Option.toList_none,
        List.count_nil] at hsum ⊢
      omega
    · exact hn.same

theorem Ledger.negotiated (hn : n.Ledger) (index : Nat) (error : Option OpenStreamError) :
    Accounts n (n.negotiated index error) [] := by
  unfold StreamNode.negotiated
  split
  · exact hn.same
  · next h hindex =>
    split
    · exact hn.same
    · next request hrequest =>
      have hlt : h.connection < n.nextConnection :=
        hn.bounded_established (List.mem_of_getElem? hindex)
      refine ⟨hn.channels, upgrades_update hlt hn.upgrades _, fun r => ?_⟩
      have hsum := n.sum_pendingUpgrade_update hlt none r
      simp only [total_eq, Shared.tally, hrequest, Option.toList_some, Option.toList_none,
        List.map_append, List.map_cons, List.map_nil, List.count_append, List.count_nil]
        at hsum ⊢
      omega

/-- A dial that fails or is skipped answers its requests or moves them on. -/
theorem Accounts.dialFailure {m : StreamNode P R} (hm : Accounts n m []) (pick : Nat)
    (peer : Option P) (error : DialError) (reason : String) (emitted dialing : List P) :
    Accounts n { m with shared := m.shared.onSwarmDialFailure pick peer error reason
                        emitted := emitted, dialing := dialing } [] := by
  have hgains := Shared.onSwarmDialFailure_gains hm.channels pick peer error reason
  refine ⟨hgains.numbered, hm.upgrades, fun r => ?_⟩
  have htally := hgains.tally r
  rw [← hm.total r, total_eq, total_eq]
  simp only [htally]
  rfl

theorem Ledger.deny (hn : n.Ledger) (index : Nat) (dialed : Bool) (reason : String) :
    Accounts n (n.deny index dialed reason) [] := by
  unfold StreamNode.deny
  split
  · exact hn.same
  · next h hindex =>
    have hmem : h ∈ n.links :=
      List.mem_append_left _ (List.mem_append_left _ (List.mem_of_getElem? hindex))
    have herase : Accounts n { n with halfOpen := n.halfOpen.eraseIdx index } [] :=
      .of_shared ⟨hn.channels, fun _ => rfl⟩ rfl rfl rfl rfl hn.upgrades
    have hdrop := herase.dropHandler (hn.bounded h hmem)
    cases dialed with
    | true => exact hdrop.dialFailure 0 (some h.peer) .denied reason _ _
    | false => exact hdrop

theorem Ledger.endConnection (hn : n.Ledger) (index : Nat) :
    Accounts n (n.endConnection index) [] := by
  unfold StreamNode.endConnection
  split
  · exact hn.same
  · next h hindex =>
    have hmoved : Accounts n { n with established := n.established.eraseIdx index
                                      closing := n.closing ++ [h] } [] :=
      .of_shared ⟨hn.channels, fun _ => rfl⟩ rfl rfl rfl rfl hn.upgrades
    exact hmoved.dropHandler (hn.bounded_established (List.mem_of_getElem? hindex))

theorem Ledger.close (hn : n.Ledger) (index : Nat) : Accounts n (n.close index) [] := by
  unfold StreamNode.close
  split
  · exact hn.same
  · exact .of_shared ⟨hn.channels, fun _ => rfl⟩ rfl rfl rfl rfl hn.upgrades

theorem Ledger.answerDial (hn : n.Ledger) (index pick : Nat) (answer : DialAnswer) :
    Accounts n (n.answerDial index pick answer) [] := by
  unfold StreamNode.answerDial
  split
  · exact hn.same
  · split
    · split
      · exact .of_shared ⟨hn.channels, fun _ => rfl⟩ rfl rfl rfl rfl hn.upgrades
      · split
        · exact hn.same.dialFailure _ _ _ _ _ _
        · exact hn.same
    · split
      · exact hn.same.dialFailure _ _ _ _ _ _
      · exact hn.same

/-- Every step accounts for the requests. -/
theorem Ledger.accounts (hn : n.Ledger) (a : StreamAction P R) :
    Accounts n (n.step a) (n.issued a) := by
  have hguard : ∀ {c : Prop} [Decidable c] {m : StreamNode P R}, Accounts n m [] →
      Accounts n (if c then m else n) [] := by
    intro c _ m hm
    split
    · exact hm
    · exact hn.same
  have hshared : ∀ m : StreamNode P R, m.shared.channels = n.shared.channels →
      m.shared.answers = n.shared.answers → m.locked = n.locked → m.holding = n.holding →
      m.nextConnection = n.nextConnection → m.pendingUpgrade = n.pendingUpgrade →
      Accounts n m [] := by
    intro m hchannels hanswers hlocked hholding hnext hupgrade
    have hself : Shared.Gains n.shared n.shared [] := ⟨hn.channels, fun _ => rfl⟩
    exact .of_shared (hself.congr hchannels hanswers) hlocked hholding hnext hupgrade hn.upgrades
  cases a with
  | openStream request peer pick =>
    simp only [step, issued]
    split
    · next hfree => exact hn.openStream (Option.isNone_iff_eq_none.mp hfree) request peer pick
    · exact hn.same
  | insertPending => exact hn.insertPending
  | sendRequest index => exact hn.sendRequest index
  | poll =>
    refine hguard ?_
    unfold StreamNode.poll
    split
    · exact hn.same
    · exact hshared _ rfl rfl rfl rfl rfl rfl
  | answer index pick answer => exact hguard (hn.answerDial index pick answer)
  | otherDial peer => exact hshared _ rfl rfl rfl rfl rfl rfl
  | otherDialRefused peer error reason pick =>
    exact hguard (hn.same.dialFailure pick peer error reason n.emitted n.dialing)
  | dialFailed index error reason =>
    refine hguard ?_
    unfold failDial
    split
    · exact hn.same
    · exact hguard (hn.same.dialFailure 0 _ error reason n.emitted _)
  | dialConnected index =>
    refine hguard ?_
    unfold connectDial
    split
    · exact hn.same
    · exact hn.makeHandler _ _
  | connected peer => exact hguard (hn.makeHandler n.dialing peer)
  | reported index =>
    refine hguard ?_
    unfold report
    split
    · exact hn.same
    · exact hshared _ rfl rfl rfl rfl rfl rfl
  | denied index dialed reason => exact hguard (hn.deny index dialed reason)
  | ended index => exact hn.endConnection index
  | closed index => exact hguard (hn.close index)
  | handlerPoll index => exact hn.handlerPoll index
  | negotiated index error => exact hn.negotiated index error
  | closeQueue => exact hguard (hshared _ rfl rfl rfl rfl rfl rfl)
  | dropPending =>
    exact hguard (.of_shared (Shared.onBehaviourDropped_gains hn.channels) rfl rfl rfl rfl
      hn.upgrades)

theorem Ledger.step (hn : n.Ledger) (a : StreamAction P R) : (n.step a).Ledger where
  toSound := hn.toSound.step a
  channels := (hn.accounts a).channels
  upgrades := (hn.accounts a).upgrades

omit [DecidableEq R] in
theorem ledger_start : (start : StreamNode P R).Ledger where
  toSound := sound_start
  channels := Channels.numbered_empty
  upgrades := fun _ _ => rfl

/-- A run accounts for the requests made in it. -/
theorem Ledger.total_run (hn : n.Ledger) (actions : List (StreamAction P R)) (r : R) :
    (actions.foldl StreamNode.step n).total r = n.total r + (n.asked actions).count r := by
  induction actions generalizing n with
  | nil => rfl
  | cons a actions ih =>
    rw [List.foldl_cons, ih (hn.step a), (hn.accounts a).total, asked, List.count_append,
      Nat.add_assoc]

/-- In every run, each request is on its way as often as it was made and not answered: none is
lost and none is answered twice, whatever happens to connections and dials meanwhile. -/
theorem requests_answered_once (actions : List (StreamAction P R)) (request : R) :
    (actions.foldl StreamNode.step start).waiting request +
        (actions.foldl StreamNode.step start).answered request =
      ((start : StreamNode P R).asked actions).count request := by
  have htotal := (ledger_start (P := P) (R := R)).total_run actions request
  simpa [StreamNode.total, waiting, answered, start, Shared.new] using htotal

end StreamNode

end SqdNetwork.Transport
