import SqdNetwork.Core.Machine
import SqdNetwork.Transport.Multiaddr

/-!
# What the address cache holds

Announcements, connections and dials fill and use the cache, failed dials and a
lack of room take whole entries out of it. An entry always has addresses, all of
them reachable, and keeps every address it was given. An address that already
leads to another peer is kept as it is.
-/

namespace SqdNetwork.Transport

open SqdNetwork.Core

/-- What happens to the cache. -/
inductive CacheEvent (P Addr : Type) where
  | put (peer : P) (addrs : List Addr)
  | establishedOutboundConnection (peer : P) (addr : Addr)
  | swarm (event : FromSwarm P Addr)
  | pendingOutboundConnection (peer : Option P)

/-- The peer and the addresses that an event puts into the cache. -/
def CacheEvent.announces {P Addr : Type} : CacheEvent P Addr → Option (P × List Addr)
  | .put peer addrs => some (peer, addrs)
  | .establishedOutboundConnection peer addr => some (peer, [addr])
  | .swarm (.newExternalAddrOfPeer peer addr) => some (peer, [addr])
  | .swarm _ | .pendingOutboundConnection _ => none

/-- The peer that an event reports to be unreachable. -/
def CacheEvent.failed {P Addr : Type} : CacheEvent P Addr → Option P
  | .swarm (.dialFailure peer error) => if error.unreachable then peer else none
  | _ => none

namespace AddressCache

variable {P Addr : Type} [DecidableEq P]

/-- The addresses that a dial of the peer would be given. -/
def offered (c : AddressCache P Addr) (peer : P) : Finset Addr :=
  (c.handlePendingOutboundConnection (some peer)).2

variable [DecidableEq Addr] (rules : AddressRules P Addr)

/-- Handle one event. -/
def step (c : AddressCache P Addr) : CacheEvent P Addr → AddressCache P Addr
  | .put peer addrs => c.put rules peer addrs
  | .establishedOutboundConnection peer addr =>
    c.handleEstablishedOutboundConnection rules peer addr
  | .swarm event => c.onSwarmEvent rules event
  | .pendingOutboundConnection peer => (c.handlePendingOutboundConnection peer).1

/-- A cache for so many peers after a run. -/
def run (size : Nat) (events : List (CacheEvent P Addr)) : AddressCache P Addr :=
  events.foldl (step rules) (new size)

/-- The event takes away the entry of the peer: a dial of it failed, or the entry was used least
recently and a full cache needs its place. -/
def Evicts (peer : P) (c : AddressCache P Addr) (event : CacheEvent P Addr) : Prop :=
  event.failed = some peer ∨
    ∃ other addrs, event.announces = some (other, addrs) ∧
      (∃ a ∈ addrs, rules.addrIsReachable a) ∧ c.cache.PushesOut other peer

section Steps

variable {rules} {c : AddressCache P Addr} {peer : P} {addrs : List Addr} {a : Addr}

/-- A put without reachable addresses does nothing; any other changes one entry. -/
theorem put_cases (rules : AddressRules P Addr) (c : AddressCache P Addr) (peer : P)
    (addrs : List Addr) :
    ((∀ a ∈ addrs, ¬ rules.addrIsReachable a) ∧ c.put rules peer addrs = c) ∨
      (∃ a ∈ addrs, rules.addrIsReachable a) ∧ ∃ added : Finset Addr,
        (∀ a, a ∈ added ↔ ∃ b ∈ addrs, rules.addrIsReachable b ∧ rules.stored peer b = a) ∧
        c.put rules peer addrs =
          ⟨c.cache.putFront peer ((c.cache.peek peer).getD ∅ ∪ added)⟩ := by
  have hput : c.put rules peer addrs =
      if ((addrs.filter rules.addrIsReachable).map (rules.stored peer)).isEmpty then c
      else ⟨c.cache.getOrInsert peer ∅ fun known => known ∪
        ((addrs.filter rules.addrIsReachable).map (rules.stored peer)).toFinset⟩ := rfl
  by_cases hsome : ∃ a ∈ addrs, rules.addrIsReachable a
  · obtain ⟨a, ha, hreachable⟩ := hsome
    refine Or.inr ⟨⟨a, ha, hreachable⟩, _, fun b => ?_, hput.trans (if_neg ?_)⟩
    · simp only [List.mem_toFinset, List.mem_map, List.mem_filter, and_assoc]
    · rw [List.isEmpty_iff, List.map_eq_nil_iff, List.filter_eq_nil_iff]
      exact fun hnone => hnone a ha hreachable
  · have hnone : ∀ a ∈ addrs, ¬ rules.addrIsReachable a :=
      fun a ha hreachable => hsome ⟨a, ha, hreachable⟩
    refine Or.inl ⟨hnone, hput.trans (if_pos ?_)⟩
    rw [List.isEmpty_iff, List.map_eq_nil_iff, List.filter_eq_nil_iff]
    exact hnone

/-- What an event can do: put addresses, drop an entry, use an entry or nothing. -/
theorem step_cases (rules : AddressRules P Addr) (c : AddressCache P Addr)
    (event : CacheEvent P Addr) :
    (∃ peer addrs, event.announces = some (peer, addrs) ∧
      c.step rules event = c.put rules peer addrs) ∨
    event.announces = none ∧
      ((∃ peer, event.failed = some peer ∧ c.step rules event = c.evict peer) ∨
        (∃ peer known, (peer, known) ∈ c.cache.entries ∧
          c.step rules event = ⟨c.cache.putFront peer known⟩) ∨
        c.step rules event = c) := by
  cases event with
  | put peer addrs => exact Or.inl ⟨peer, addrs, rfl, rfl⟩
  | establishedOutboundConnection peer addr => exact Or.inl ⟨peer, [addr], rfl, rfl⟩
  | swarm event =>
    cases event with
    | newExternalAddrOfPeer peer addr => exact Or.inl ⟨peer, [addr], rfl, rfl⟩
    | dialFailure peer error =>
      refine Or.inr ⟨rfl, ?_⟩
      cases peer with
      | none => exact Or.inr (Or.inr (by cases error <;> rfl))
      | some peer =>
        cases error with
        | wrongPeerId | transport | noAddresses => exact Or.inl ⟨peer, rfl, rfl⟩
        | localPeerId | dialPeerConditionFalse _ | aborted | denied => exact Or.inr (Or.inr rfl)
    | other => exact Or.inr ⟨rfl, Or.inr (Or.inr rfl)⟩
  | pendingOutboundConnection peer =>
    refine Or.inr ⟨rfl, Or.inr ?_⟩
    cases peer with
    | none => exact Or.inr rfl
    | some peer =>
      cases hpeek : c.cache.peek peer with
      | none =>
        right
        simp only [step, handlePendingOutboundConnection, LruCache.get, hpeek]
      | some known =>
        refine Or.inl ⟨peer, known, LruCache.peek_eq_some.mp hpeek, ?_⟩
        simp only [step, handlePendingOutboundConnection, LruCache.get, hpeek]

omit [DecidableEq Addr] in
theorem offered_eq (c : AddressCache P Addr) (peer : P) :
    c.offered peer = (c.cache.peek peer).getD ∅ := by
  unfold offered handlePendingOutboundConnection LruCache.get
  dsimp only
  split
  · next known hpeek => rw [hpeek]
  · next hpeek => rw [hpeek]

omit [DecidableEq Addr] in
theorem mem_offered :
    a ∈ c.offered peer ↔ ∃ known, (peer, known) ∈ c.cache.entries ∧ a ∈ known := by
  rw [offered_eq]
  cases hpeek : c.cache.peek peer with
  | none =>
    refine iff_of_false (Finset.notMem_empty a) ?_
    rintro ⟨known, hmem, -⟩
    exact Option.some_ne_none _ ((LruCache.peek_eq_some.mpr hmem).symm.trans hpeek)
  | some known =>
    constructor
    · exact fun ha => ⟨known, LruCache.peek_eq_some.mp hpeek, ha⟩
    · rintro ⟨known', hmem, ha⟩
      have hsame := hpeek.symm.trans (LruCache.peek_eq_some.mpr hmem)
      rw [Option.some.inj hsame]
      exact ha

theorem capacity_step (event : CacheEvent P Addr) :
    (c.step rules event).cache.capacity = c.cache.capacity := by
  rcases step_cases rules c event with ⟨peer, addrs, -, he⟩ | ⟨-, ⟨peer, -, he⟩ |
    ⟨peer, known, -, he⟩ | he⟩
  · rcases put_cases rules c peer addrs with ⟨-, hput⟩ | ⟨-, added, -, hput⟩
    · rw [he, hput]
    · exact (congrArg (fun c : AddressCache P Addr => c.cache.capacity) (he.trans hput)).trans rfl
  all_goals exact (congrArg (fun c : AddressCache P Addr => c.cache.capacity) he).trans rfl

/-- What holds of every entry still does after a put that makes it hold of the entry it changes. -/
theorem all_step {R : P → Finset Addr → Prop} {event : CacheEvent P Addr} (h : c.cache.All R)
    (hput : ∀ peer addrs known added, event.announces = some (peer, addrs) →
      (∃ a ∈ addrs, rules.addrIsReachable a) → (known = ∅ ∨ R peer known) →
      (∀ a, a ∈ added ↔ ∃ b ∈ addrs, rules.addrIsReachable b ∧ rules.stored peer b = a) →
      R peer (known ∪ added)) :
    (c.step rules event).cache.All R := by
  rcases step_cases rules c event with ⟨peer, addrs, hevent, he⟩ | ⟨-, ⟨peer, -, he⟩ |
    ⟨peer, known, hmem, he⟩ | he⟩
  · rcases put_cases rules c peer addrs with ⟨-, hsame⟩ | ⟨hsome, added, hadded, hchanged⟩
    · rw [he, hsame]
      exact h
    · rw [he, hchanged]
      refine h.putFront (hput peer addrs _ added hevent hsome ?_ hadded)
      cases hpeek : c.cache.peek peer with
      | none => exact Or.inl rfl
      | some known => exact Or.inr (h peer known (LruCache.peek_eq_some.mp hpeek))
  · rw [he]
    exact h.pop peer
  · rw [he]
    exact h.putFront (h peer known hmem)
  · rw [he]
    exact h

/-- Every entry has addresses. -/
def Filled (c : AddressCache P Addr) : Prop := c.cache.All fun _ known => known.Nonempty

theorem Filled.step (h : c.Filled) (event : CacheEvent P Addr) : (c.step rules event).Filled := by
  apply all_step h
  rintro peer addrs known added - ⟨a, ha, hreachable⟩ - hadded
  exact ⟨_, Finset.mem_union_right known ((hadded _).mpr ⟨a, ha, hreachable, rfl⟩)⟩

/-- Every address kept for a peer is related to it. -/
def Keeps (c : AddressCache P Addr) (G : P → Addr → Prop) : Prop :=
  ∀ peer, ∀ a ∈ c.offered peer, G peer a

omit [DecidableEq Addr] in
theorem keeps_iff {G : P → Addr → Prop} :
    c.Keeps G ↔ c.cache.All fun peer known => ∀ a ∈ known, G peer a := by
  constructor
  · intro h peer known hmem a ha
    exact h peer a (mem_offered.mpr ⟨known, hmem, ha⟩)
  · intro h peer a ha
    obtain ⟨known, hmem, ha⟩ := mem_offered.mp ha
    exact h peer known hmem a ha

theorem Keeps.step {G : P → Addr → Prop} {event : CacheEvent P Addr} (h : c.Keeps G)
    (hnew : ∀ peer addrs, event.announces = some (peer, addrs) →
      ∀ a ∈ addrs, rules.addrIsReachable a → G peer (rules.stored peer a)) :
    (c.step rules event).Keeps G := by
  rw [keeps_iff] at h ⊢
  apply all_step h
  rintro peer addrs known added hevent - hknown hadded a ha
  rcases Finset.mem_union.mp ha with ha | ha
  · rcases hknown with rfl | hknown
    · exact absurd ha (Finset.notMem_empty a)
    · exact hknown a ha
  · obtain ⟨b, hb, hreachable, rfl⟩ := (hadded a).mp ha
    exact hnew peer addrs hevent b hb hreachable

/-- A reachable address is offered as soon as it is put. -/
theorem mem_offered_of_announced {event : CacheEvent P Addr} (hcapacity : 0 < c.cache.capacity)
    (hevent : event.announces = some (peer, addrs)) (ha : a ∈ addrs)
    (hreachable : rules.addrIsReachable a) :
    rules.stored peer a ∈ (c.step rules event).offered peer := by
  rcases step_cases rules c event with ⟨peer', addrs', hevent', he⟩ | ⟨hnone, -⟩
  · cases hevent.symm.trans hevent'
    rcases put_cases rules c peer addrs with ⟨hnone, -⟩ | ⟨-, added, hadded, hput⟩
    · exact absurd hreachable (hnone a ha)
    · rw [he, hput, mem_offered]
      refine ⟨_, LruCache.mem_putFront_self hcapacity, ?_⟩
      exact Finset.mem_union_right _ ((hadded _).mpr ⟨a, ha, hreachable, rfl⟩)
  · exact absurd (hevent.symm.trans hnone) (Option.some_ne_none _)

/-- An address stays offered unless the entry is taken away. -/
theorem mem_offered_step {event : CacheEvent P Addr} (ha : a ∈ c.offered peer)
    (hstays : ¬ c.Evicts rules peer event) : a ∈ (c.step rules event).offered peer := by
  obtain ⟨known, hmem, ha⟩ := mem_offered.mp ha
  have hcapacity : 0 < c.cache.capacity := (List.length_pos_of_mem hmem).trans_le c.cache.bounded
  have hpeek := LruCache.peek_eq_some.mpr hmem
  rw [mem_offered]
  rcases step_cases rules c event with ⟨other, addrs, hevent, he⟩ | ⟨-, ⟨other, hfailed, he⟩ |
    ⟨other, used, hused, he⟩ | he⟩
  · rcases put_cases rules c other addrs with ⟨-, hput⟩ | ⟨hsome, added, -, hput⟩
    · rw [he, hput]
      exact ⟨known, hmem, ha⟩
    · rw [he, hput]
      by_cases hother : peer = other
      · subst hother
        refine ⟨_, LruCache.mem_putFront_self hcapacity, Finset.mem_union_left _ ?_⟩
        rw [hpeek]
        exact ha
      · refine ⟨known, LruCache.mem_putFront_of_ne hmem hother fun hpushed => ?_, ha⟩
        exact hstays (Or.inr ⟨other, addrs, hevent, hsome, hpushed⟩)
  · rw [he]
    refine ⟨known, LruCache.mem_pop.mpr ⟨hmem, ?_⟩, ha⟩
    rintro rfl
    exact hstays (Or.inl hfailed)
  · rw [he]
    by_cases hother : peer = other
    · subst hother
      obtain rfl := Option.some.inj (hpeek.symm.trans (LruCache.peek_eq_some.mpr hused))
      exact ⟨known, LruCache.mem_putFront_self hcapacity, ha⟩
    · refine ⟨known, LruCache.mem_putFront_of_ne hmem hother fun hpushed => ?_, ha⟩
      have hcontains := LruCache.contains_iff.mpr ⟨used, hused⟩
      exact Bool.false_ne_true (hpushed.1.symm.trans hcontains)
  · rw [he]
    exact ⟨known, hmem, ha⟩

end Steps

section Runs

variable {rules}

theorem run_append (size : Nat) (events events' : List (CacheEvent P Addr)) :
    run rules size (events ++ events') = events'.foldl (step rules) (run rules size events) :=
  List.foldl_append

theorem filled_run (size : Nat) (events : List (CacheEvent P Addr)) :
    (run rules size events).Filled := by
  have hstep : ∀ (c : AddressCache P Addr) (event : CacheEvent P Addr), c.Filled →
      (c.step rules event).Filled := fun _ event h => h.step event
  have hnew : (new size : AddressCache P Addr).Filled := LruCache.all_new size
  exact (throughout_of_invariant hstep events hnew).last

theorem capacity_run (size : Nat) (events : List (CacheEvent P Addr)) :
    (run rules size events).cache.capacity = size := by
  have hstep : ∀ (c : AddressCache P Addr) (event : CacheEvent P Addr),
      c.cache.capacity = size → (c.step rules event).cache.capacity = size :=
    fun c event h => (capacity_step event).trans h
  exact (throughout_of_invariant hstep events rfl).last

omit [DecidableEq Addr] in
theorem keeps_new (size : Nat) (G : P → Addr → Prop) : (new size : AddressCache P Addr).Keeps G :=
  keeps_iff.mpr (LruCache.all_new size)

/-- What holds of every reachable address in the form it is kept holds of all addresses kept. -/
theorem keeps_run {G : P → Addr → Prop} (size : Nat) (events : List (CacheEvent P Addr))
    (hstored : ∀ peer a, rules.addrIsReachable a → G peer (rules.stored peer a)) :
    (run rules size events).Keeps G := by
  have hstep : ∀ (c : AddressCache P Addr) (event : CacheEvent P Addr), c.Keeps G →
      (c.step rules event).Keeps G :=
    fun _ _ h => h.step fun peer _ _ a _ ha => hstored peer a ha
  exact (throughout_of_invariant hstep events (keeps_new size G)).last

/-- A reachable address stays offered from when it is put until the entry is taken away. -/
theorem mem_offered_run {size : Nat} (hsize : 0 < size) {before after : List (CacheEvent P Addr)}
    {event : CacheEvent P Addr} {peer : P} {addrs : List Addr} {a : Addr}
    (hevent : event.announces = some (peer, addrs)) (ha : a ∈ addrs)
    (hreachable : rules.addrIsReachable a)
    (hstays : EveryStep (step rules) (fun c event => ¬ c.Evicts rules peer event)
      (run rules size (before ++ [event])) after) :
    rules.stored peer a ∈ (run rules size (before ++ event :: after)).offered peer := by
  have hcapacity : 0 < (run rules size before).cache.capacity := by
    rw [capacity_run]
    exact hsize
  have hput : rules.stored peer a ∈ (run rules size (before ++ [event])).offered peer := by
    rw [run_append]
    exact mem_offered_of_announced hcapacity hevent ha hreachable
  have hstep : ∀ (c : AddressCache P Addr) (event : CacheEvent P Addr),
      ¬ c.Evicts rules peer event → rules.stored peer a ∈ c.offered peer →
      rules.stored peer a ∈ (c.step rules event).offered peer :=
    fun _ _ hkept hmem => mem_offered_step hmem hkept
  have hlast := (throughout_of_everyStep hstep hstays hput).last
  rw [← run_append, List.append_assoc] at hlast
  exact hlast

omit [DecidableEq Addr] in
theorem Filled.contains_iff {c : AddressCache P Addr} (h : c.Filled) (peer : P) :
    c.contains peer ↔ (c.offered peer).Nonempty := by
  refine LruCache.contains_iff.trans ⟨?_, ?_⟩
  · rintro ⟨known, hmem⟩
    obtain ⟨a, ha⟩ := h peer known hmem
    exact ⟨a, mem_offered.mpr ⟨known, hmem, ha⟩⟩
  · rintro ⟨a, ha⟩
    obtain ⟨known, hmem, -⟩ := mem_offered.mp ha
    exact ⟨known, hmem⟩

end Runs

end AddressCache

open AddressCache

/-- At every point of a run a peer is contained exactly if a dial of it would be given addresses,
these are reachable, and they include every reachable address put for the peer since its entry
was last taken away by a failed dial or for lack of room. -/
theorem address_cache_contents {P : Type} [DecidableEq P] (privateNetwork : Bool) (size : Nat)
    (hsize : 0 < size) (events : List (CacheEvent P (Multiaddr P))) (peer : P) :
    ((run (Multiaddr.rules privateNetwork) size events).contains peer ↔
      ((run (Multiaddr.rules privateNetwork) size events).offered peer).Nonempty) ∧
    (∀ a ∈ (run (Multiaddr.rules privateNetwork) size events).offered peer,
      a.addrIsReachable privateNetwork) ∧
    ∀ before event after addrs a, events = before ++ event :: after →
      event.announces = some (peer, addrs) → a ∈ addrs → a.addrIsReachable privateNetwork →
      EveryStep (step (Multiaddr.rules privateNetwork))
        (fun c event => ¬ c.Evicts (Multiaddr.rules privateNetwork) peer event)
        (run (Multiaddr.rules privateNetwork) size (before ++ [event])) after →
      (Multiaddr.rules privateNetwork).stored peer a ∈
        (run (Multiaddr.rules privateNetwork) size events).offered peer := by
  have hreachable : (run (Multiaddr.rules privateNetwork) size events).Keeps
      fun (_ : P) a => a.addrIsReachable privateNetwork :=
    keeps_run size events fun _ _ => Multiaddr.addrIsReachable_stored
  refine ⟨(filled_run size events).contains_iff peer, hreachable peer, ?_⟩
  rintro before event after addrs a rfl hevent ha hreachable hstays
  exact mem_offered_run hsize hevent ha hreachable hstays

/-- A cache for one peer offers the address of the peer it was told of last. -/
theorem address_cache_contents_sample :
    (⟨[.ip4 ⟨1, 2, 3, 4⟩, .p2p 7]⟩ : Multiaddr Nat) ∈
      (run (Multiaddr.rules false) 1
        [.put 7 [⟨[.ip4 ⟨1, 2, 3, 4⟩]⟩], .pendingOutboundConnection (some 7)]).offered 7 := by
  refine (address_cache_contents false 1 (by decide) _ 7).2.2 []
    (.put 7 [⟨[.ip4 ⟨1, 2, 3, 4⟩]⟩]) [.pendingOutboundConnection (some 7)] _
    ⟨[.ip4 ⟨1, 2, 3, 4⟩]⟩ rfl rfl List.mem_cons_self (by decide) ⟨?_, trivial⟩
  rintro (hfailed | ⟨other, addrs, hevent, -⟩)
  · cases hfailed
  · cases hevent

/-- The event puts no reachable address that leads to another peer. -/
def CacheEvent.LeadsToPeer {P : Type} (privateNetwork : Bool)
    (event : CacheEvent P (Multiaddr P)) : Prop :=
  ∀ peer addrs, event.announces = some (peer, addrs) →
    ∀ a ∈ addrs, a.addrIsReachable privateNetwork → ∀ p, a.EndsIn p → p = peer

/-- Throughout a run all addresses kept lead to their peers, if and only if no reachable address
that leads to another peer was ever put. -/
theorem cached_addresses_lead_to_peer_iff {P : Type} [DecidableEq P] (privateNetwork : Bool)
    (size : Nat) (hsize : 0 < size) (events : List (CacheEvent P (Multiaddr P))) :
    Throughout (step (Multiaddr.rules privateNetwork))
        (fun c => c.Keeps fun peer a => a.EndsIn peer) (new size) events ↔
      ∀ event ∈ events, event.LeadsToPeer privateNetwork := by
  have hforall : EveryStep (step (Multiaddr.rules privateNetwork))
      (fun _ event => event.LeadsToPeer privateNetwork) (new size) events ↔
      ∀ event ∈ events, event.LeadsToPeer privateNetwork := everyStep_iff_forall
  rw [← hforall]
  have hcapacity : ∀ (c : AddressCache P (Multiaddr P)) (event : CacheEvent P (Multiaddr P)),
      c.cache.capacity = size →
      (c.step (Multiaddr.rules privateNetwork) event).cache.capacity = size :=
    fun c event h => (capacity_step event).trans h
  refine throughout_iff_everyStep hcapacity ?_ events rfl (keeps_new size _)
  intro c event hsame hkeeps
  constructor
  · intro hnext peer addrs hevent a ha hreachable
    have hoffered : (Multiaddr.rules privateNetwork).stored peer a ∈
        (c.step (Multiaddr.rules privateNetwork) event).offered peer :=
      mem_offered_of_announced (hsame.symm ▸ hsize) hevent ha hreachable
    exact Multiaddr.endsIn_stored_iff.mp (hnext peer _ hoffered)
  · intro hleads
    apply hkeeps.step
    intro peer addrs hevent a ha hreachable
    exact Multiaddr.endsIn_stored_iff.mpr (hleads peer addrs hevent a ha hreachable)

theorem cached_addresses_lead_to_peer_sample :
    Throughout (step (Multiaddr.rules false)) (fun c => c.Keeps fun peer a => a.EndsIn peer)
      (new 1) ([.put 7 [⟨[.ip4 ⟨1, 2, 3, 4⟩]⟩]] : List (CacheEvent Nat (Multiaddr Nat))) := by
  apply (cached_addresses_lead_to_peer_iff false 1 (by decide) _).mpr
  intro event hevent peer addrs hannounces a ha _ p hp
  rw [List.mem_singleton.mp hevent] at hannounces
  cases hannounces
  rw [List.mem_singleton.mp ha] at hp
  cases hp

/-- An address announced for peer 7 that leads to peer 8 is kept for peer 7. -/
theorem keeps_address_of_another_peer :
    ¬ Throughout (step (Multiaddr.rules false)) (fun c => c.Keeps fun peer a => a.EndsIn peer)
      (new 1) ([.put 7 [⟨[.ip4 ⟨1, 2, 3, 4⟩, .p2p 8]⟩]] :
        List (CacheEvent Nat (Multiaddr Nat))) := by
  rintro ⟨-, hkeeps⟩
  have hends := hkeeps 7 ⟨[.ip4 ⟨1, 2, 3, 4⟩, .p2p 8]⟩ (by decide)
  revert hends
  decide

end SqdNetwork.Transport
