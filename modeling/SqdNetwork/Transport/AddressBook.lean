import Mathlib.Data.Finset.Card
import SqdNetwork.Transport.Bookkeeping
import SqdNetwork.Transport.CachedAddresses

/-!
# The addresses a node dials

Connections, identification, the routing table and lookups tell a node addresses of peers,
and a failed dial tells it that those of a peer are of no use. A plain book of addresses
would keep for every peer what was told since its last failed dial. The node has a cache of
limited size instead: what it dials is in the book, and is all of it as long as the cache has
room for every peer in the book.
-/

namespace SqdNetwork.Transport

open SqdNetwork.Core

/-! ## A book of addresses -/

section Book

variable {P Addr : Type} [DecidableEq P] [DecidableEq Addr] (rules : AddressRules P Addr)

/-- The reachable ones of told addresses in the form they are kept. -/
def AddressRules.kept (peer : P) (addrs : List Addr) : Finset Addr :=
  ((addrs.filter rules.addrIsReachable).map (rules.stored peer)).toFinset

/-- The book after an event: addresses are told, or a failed dial makes the known ones useless. -/
def CacheEvent.learn (known : P → Finset Addr) (event : CacheEvent P Addr) : P → Finset Addr :=
  match event.announces with
  | some (peer, addrs) => Function.update known peer (known peer ∪ rules.kept peer addrs)
  | none =>
    match event.failed with
    | some peer => Function.update known peer ∅
    | none => known

/-- No more than so many peers are in the book. -/
def BookFits (size : Nat) (known : P → Finset Addr) : Prop :=
  ∃ peers : Finset P, peers.card ≤ size ∧ ∀ peer, (known peer).Nonempty → peer ∈ peers

end Book

/-! ## The node's use of its cache -/

namespace BaseBehaviour

variable {P Addr E : Type} [DecidableEq P] [DecidableEq Addr] (rules : AddressRules P Addr)

/-- What an event of the node does to its cache. Only a lookup of its own tells the node the
addresses of a peer. -/
def cacheEvents (b : BaseBehaviour P Addr) : BaseEvent P Addr E → List (CacheEvent P Addr)
  | .identifyReceived peer listenAddrs => [.put peer (listenAddrs.filter rules.addrIsReachable)]
  | .kademlia (.closestPeers query peers _) =>
    match b.ongoingLookups.getByRight query with
    | none => []
    | some peer =>
      match peers.find? fun info => info.peer = peer with
      | none => []
      | some info => [.put peer info.addrs]
  | .kademlia (.routablePeer peer address) => [.put peer [address]]
  | .kademlia (.pendingRoutablePeer peer address) => [.put peer [address]]
  | .kademlia (.routingUpdated peer addresses) => addresses.map fun address => .put peer [address]
  | .newExternalAddrOfPeer peer address => [.swarm (.newExternalAddrOfPeer peer address)]
  | .pendingOutboundConnection peer => [.pendingOutboundConnection peer]
  | .connectionEstablished peer (.dialer address) => [.establishedOutboundConnection peer address]
  | .dialFailure peer error => [.swarm (.dialFailure peer error)]
  | _ => []

/-- What a run of the node does to its cache. -/
def cacheTrace (b : BaseBehaviour P Addr) : List (BaseEvent P Addr E) → List (CacheEvent P Addr)
  | [] => []
  | event :: events =>
    b.cacheEvents rules event ++ (b.handle rules event).1.cacheTrace events

/-- The node after a run. -/
def after (b : BaseBehaviour P Addr) (events : List (BaseEvent P Addr E)) : BaseBehaviour P Addr :=
  events.foldl (fun b event => (b.handle rules event).1) b

/-- No more peers than there is room for are ever in the book. -/
def Roomy (b : BaseBehaviour P Addr) (size : Nat) (events : List (BaseEvent P Addr E)) : Prop :=
  Throughout (CacheEvent.learn rules) (BookFits size) (fun _ => ∅) (b.cacheTrace rules events)

end BaseBehaviour

/-! ## What one event leaves in the cache -/

namespace AddressCache

variable {P Addr : Type} [DecidableEq P] {c : AddressCache P Addr} {peer q : P}
  {addrs : Finset Addr}

theorem offered_evict (c : AddressCache P Addr) (peer q : P) :
    (c.evict peer).offered q = if q = peer then ∅ else c.offered q := by
  ext a
  split
  · next hsame =>
    refine iff_of_false (fun ha => ?_) (Finset.notMem_empty a)
    obtain ⟨known, hmem, -⟩ := mem_offered.mp ha
    exact (LruCache.mem_pop.mp hmem).2 hsame
  · next hother =>
    simp only [mem_offered]
    refine exists_congr fun known => and_congr_left fun _ => ?_
    exact LruCache.mem_pop.trans (and_iff_left hother)

/-- An entry put in front may push another out, and changes no other. -/
theorem offered_putFront_subset (c : AddressCache P Addr) (peer q : P) (addrs : Finset Addr) :
    (⟨c.cache.putFront peer addrs⟩ : AddressCache P Addr).offered q ⊆
      if q = peer then addrs else c.offered q := by
  intro a ha
  obtain ⟨known, hmem, ha⟩ := mem_offered.mp ha
  rcases LruCache.mem_of_mem_putFront hmem with he | ⟨hmem, hne⟩
  · obtain ⟨rfl, rfl⟩ := Prod.mk.inj he
    rwa [if_pos rfl]
  · rw [if_neg hne]
    exact mem_offered.mpr ⟨known, hmem, ha⟩

theorem offered_putFront (hcapacity : 0 < c.cache.capacity)
    (hstays : q ≠ peer → ¬ c.cache.PushesOut peer q) :
    (⟨c.cache.putFront peer addrs⟩ : AddressCache P Addr).offered q =
      if q = peer then addrs else c.offered q := by
  refine Finset.Subset.antisymm (offered_putFront_subset c peer q addrs) fun a ha => ?_
  rw [mem_offered]
  split at ha
  · next hsame =>
    subst hsame
    exact ⟨addrs, LruCache.mem_putFront_self hcapacity, ha⟩
  · next hother =>
    obtain ⟨known, hmem, ha⟩ := mem_offered.mp ha
    exact ⟨known, LruCache.mem_putFront_of_ne hmem hother (hstays hother), ha⟩

/-- Looking up addresses for a dial leaves all of them. -/
theorem offered_pending (c : AddressCache P Addr) (dialed : Option P) (q : P) :
    (c.handlePendingOutboundConnection dialed).1.offered q = c.offered q := by
  cases dialed with
  | none => rfl
  | some peer =>
    cases hpeek : c.cache.peek peer with
    | none =>
      have hsame : (c.handlePendingOutboundConnection (some peer)).1 = c := by
        simp only [handlePendingOutboundConnection, LruCache.get, hpeek]
      rw [hsame]
    | some known =>
      have hmem := LruCache.peek_eq_some.mp hpeek
      have hcontains := LruCache.contains_iff.mpr ⟨known, hmem⟩
      have hused : (c.handlePendingOutboundConnection (some peer)).1 =
          ⟨c.cache.putFront peer known⟩ := by
        simp only [handlePendingOutboundConnection, LruCache.get, hpeek]
      have hcapacity : 0 < c.cache.capacity :=
        (List.length_pos_of_mem hmem).trans_le c.cache.bounded
      rw [hused, offered_putFront hcapacity fun _ hpushed =>
        Bool.false_ne_true (hpushed.1.symm.trans hcontains)]
      split
      · next hsame =>
        subst hsame
        rw [offered_eq, hpeek, Option.getD_some]
      · rfl

variable [DecidableEq Addr] {rules : AddressRules P Addr} {known : P → Finset Addr}

theorem put_eq (rules : AddressRules P Addr) (c : AddressCache P Addr) (peer : P)
    (told : List Addr) :
    c.put rules peer told = if (rules.kept peer told).Nonempty then
      ⟨c.cache.putFront peer (c.offered peer ∪ rules.kept peer told)⟩ else c := by
  have hnonempty : (rules.kept peer told).Nonempty ↔
      ¬ ((told.filter rules.addrIsReachable).map (rules.stored peer)).isEmpty := by
    rw [AddressRules.kept, List.toFinset_nonempty_iff, List.isEmpty_iff]
  rw [offered_eq]
  by_cases hkept : (rules.kept peer told).Nonempty
  · rw [if_pos hkept]
    exact if_neg (hnonempty.mp hkept)
  · rw [if_neg hkept]
    exact if_pos (not_not.mp fun hne => hkept (hnonempty.mpr hne))

/-- What an event does in terms of the book: it tells addresses, makes some useless, or leaves
all that a dial would be given. -/
theorem learn_cases (rules : AddressRules P Addr) (event : CacheEvent P Addr) :
    (∃ peer told, event.announces = some (peer, told) ∧
      (∀ c : AddressCache P Addr, c.step rules event = c.put rules peer told) ∧
      ∀ known, event.learn rules known =
        Function.update known peer (known peer ∪ rules.kept peer told)) ∨
    (∃ peer, (∀ c : AddressCache P Addr, c.step rules event = c.evict peer) ∧
      ∀ known, event.learn rules known = Function.update known peer ∅) ∨
    (∀ (c : AddressCache P Addr) q, (c.step rules event).offered q = c.offered q) ∧
      ∀ known, event.learn rules known = known := by
  cases event with
  | put peer told => exact .inl ⟨peer, told, rfl, fun _ => rfl, fun _ => rfl⟩
  | establishedOutboundConnection peer address =>
    exact .inl ⟨peer, [address], rfl, fun _ => rfl, fun _ => rfl⟩
  | pendingOutboundConnection dialed =>
    exact .inr (.inr ⟨fun c q => offered_pending c dialed q, fun _ => rfl⟩)
  | swarm event =>
    cases event with
    | newExternalAddrOfPeer peer address =>
      exact .inl ⟨peer, [address], rfl, fun _ => rfl, fun _ => rfl⟩
    | other => exact .inr (.inr ⟨fun _ _ => rfl, fun _ => rfl⟩)
    | dialFailure peer error =>
      cases peer with
      | none =>
        refine .inr (.inr ?_)
        cases error <;> exact ⟨fun _ _ => rfl, fun _ => rfl⟩
      | some peer =>
        cases error with
        | wrongPeerId | transport | noAddresses =>
          exact .inr (.inl ⟨peer, fun _ => rfl, fun _ => rfl⟩)
        | localPeerId | dialPeerConditionFalse _ | aborted | denied =>
          exact .inr (.inr ⟨fun _ _ => rfl, fun _ => rfl⟩)

/-- The cache has what is in the book. -/
structure InBook (size : Nat) (c : AddressCache P Addr) (known : P → Finset Addr) : Prop where
  filled : c.Filled
  capacity : c.cache.capacity = size
  exact : ∀ q, c.offered q = known q

namespace InBook

variable {size : Nat}

omit [DecidableEq Addr] in
/-- A cache without a peer that the book is about to list is not full. -/
theorem not_full (h : InBook size c known) {next : P → Finset Addr} (hnext : BookFits size next)
    (hgrows : ∀ q, known q ⊆ next q) (hnew : (next peer).Nonempty)
    (hmissing : c.cache.contains peer = false) : c.cache.entries.length < c.cache.capacity := by
  obtain ⟨peers, hcard, hpeers⟩ := hnext
  let keys := (c.cache.entries.map Prod.fst).toFinset
  have hkeys : keys.card = c.cache.entries.length := by
    rw [List.toFinset_card_of_nodup c.cache.nodup, List.length_map]
  have hfresh : peer ∉ keys := by
    intro hmem
    obtain ⟨entry, hentry, rfl⟩ := List.mem_map.mp (List.mem_toFinset.mp hmem)
    have hcontains := LruCache.contains_iff.mpr ⟨entry.2, hentry⟩
    exact Bool.false_ne_true (hmissing.symm.trans hcontains)
  have hsub : insert peer keys ⊆ peers := by
    intro q hq
    rcases Finset.mem_insert.mp hq with rfl | hq
    · exact hpeers q hnew
    · obtain ⟨entry, hentry, rfl⟩ := List.mem_map.mp (List.mem_toFinset.mp hq)
      obtain ⟨a, ha⟩ := h.filled entry.1 entry.2 hentry
      have hknown : a ∈ known entry.1 := by
        rw [← h.exact]
        exact mem_offered.mpr ⟨entry.2, hentry, ha⟩
      exact hpeers _ ⟨a, hgrows _ hknown⟩
  have hle := Finset.card_le_card hsub
  rw [Finset.card_insert_of_notMem hfresh, hkeys] at hle
  rw [h.capacity]
  omega

/-- With room for all peers in the book the cache follows it. -/
theorem step (h : InBook size c known) (hsize : 0 < size) (event : CacheEvent P Addr)
    (hnext : BookFits size (event.learn rules known)) :
    InBook size (c.step rules event) (event.learn rules known) := by
  refine ⟨h.filled.step event, (capacity_step event).trans h.capacity, fun q => ?_⟩
  rcases learn_cases rules event with ⟨peer, told, -, hstep, hlearn⟩ | ⟨peer, hstep, hlearn⟩ |
    ⟨hstep, hlearn⟩
  · rw [hlearn] at hnext
    rw [hstep, hlearn, put_eq, Function.update_apply]
    split
    · next hkept =>
      rw [offered_putFront (h.capacity.symm ▸ hsize), h.exact, h.exact]
      rintro - ⟨hmissing, hfull, -⟩
      refine absurd hfull (Nat.ne_of_lt (h.not_full hnext ?_ ?_ hmissing))
      · intro p
        rw [Function.update_apply]
        split
        · next hsame => exact hsame ▸ Finset.subset_union_left
        · exact Finset.Subset.refl _
      · rw [Function.update_self]
        exact hkept.mono Finset.subset_union_right
    · next hnone =>
      rw [h.exact, Finset.not_nonempty_iff_eq_empty.mp hnone, Finset.union_empty]
      split
      · next hsame => rw [hsame]
      · rfl
  · rw [hstep, hlearn, offered_evict, Function.update_apply, h.exact]
  · rw [hstep, hlearn]
    exact h.exact q

end InBook

theorem InBook.foldl {size : Nat} (hsize : 0 < size) {trace : List (CacheEvent P Addr)}
    (h : InBook size c known)
    (hfits : Throughout (CacheEvent.learn rules) (BookFits size) known trace) :
    InBook size (trace.foldl (AddressCache.step rules) c)
      (trace.foldl (CacheEvent.learn rules) known) := by
  induction trace generalizing c known with
  | nil => exact h
  | cons event trace ih => exact ih (h.step hsize event hfits.2.first) hfits.2

end AddressCache

/-! ## The node -/

namespace BaseBehaviour

section Cache

variable {P Addr E : Type} [DecidableEq P]

variable [DecidableEq Addr] (rules : AddressRules P Addr)

end Cache

end BaseBehaviour

end SqdNetwork.Transport
