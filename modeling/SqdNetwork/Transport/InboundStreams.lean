import SqdNetwork.Core.Mailbox
import SqdNetwork.Core.Refinement
import Mathlib.Data.List.AList
import Mathlib.Data.Finset.Basic

/-!
# The registry of inbound protocols

A control accepts a protocol and gets a handle to its inbound streams; the registry
keeps the sending end. Nothing tells the registry that a handle was dropped: it
finds out when it looks at the sender, and forgets the closed ones before it
accepts or lists protocols. `Listeners` says what that is for: a list of the
handles that are alive, with no sender and no closed entry in it. No sequence of
calls tells the two apart.
-/

namespace SqdNetwork.Transport

open SqdNetwork.Core

/-- The protocol has a listener already. -/
inductive AlreadyRegistered where
  | alreadyRegistered
  deriving DecidableEq

/-- What polling gives. -/
inductive Poll (α : Type) where
  | ready (a : α)
  | pending
  deriving DecidableEq

/-- The inbound side of the state shared by the controls and the handlers. -/
structure InboundProtocols (Pr M : Type) where
  /-- The sender of each protocol, by the number of the handle it sends to. -/
  supported : AList (fun _ : Pr => Nat)
  /-- The handles given out, dropped ones included. -/
  incoming : List (Mailbox M)

namespace InboundProtocols

variable {Pr M : Type} [DecidableEq Pr]

def new : InboundProtocols Pr M := ⟨∅, []⟩

/-- The handle is alive. -/
def isOpen (r : InboundProtocols Pr M) (i : Nat) : Bool :=
  (r.incoming[i]?).any (·.listening)

/-- Forgets the senders whose handles are gone. -/
def retainOpen (r : InboundProtocols Pr M) : InboundProtocols Pr M :=
  { r with
    supported := ⟨r.supported.entries.filter fun e => r.isOpen e.2,
      r.supported.nodupKeys.sublist List.filter_sublist⟩ }

/-- Registers a listener. A channel with one sender has one place more than its
capacity. -/
def accept (r : InboundProtocols Pr M) (protocol : Pr) (capacity : Nat) :
    InboundProtocols Pr M × Except AlreadyRegistered Nat :=
  let r := r.retainOpen
  if protocol ∈ r.supported then (r, .error .alreadyRegistered)
  else
    ({ supported := r.supported.insert protocol r.incoming.length
       incoming := r.incoming ++ [.new capacity.succPNat] },
     .ok r.incoming.length)

/-- The protocols offered to a peer that opens a stream. -/
def supportedInboundProtocols (r : InboundProtocols Pr M) : InboundProtocols Pr M × List Pr :=
  (r.retainOpen, r.retainOpen.supported.keys)

/-- Hands a stream that a peer opened to the listener of its protocol. It is dropped
if there is none or the listener is behind. -/
def onInboundStream (r : InboundProtocols Pr M) (stream : M) (protocol : Pr) :
    InboundProtocols Pr M :=
  match r.supported.lookup protocol with
  | none => r
  | some i =>
    match r.incoming[i]? with
    | none => r
    | some handle =>
      match handle.trySend stream with
      | .ok handle => { r with incoming := r.incoming.set i handle }
      | .error .full => r
      | .error .disconnected => { r with supported := r.supported.erase protocol }

/-- Polls a handle: it ends when nothing is left in it and its sender is gone. -/
def pollNext (r : InboundProtocols Pr M) (i : Nat) :
    InboundProtocols Pr M × Poll (Option M) :=
  match r.incoming[i]? with
  | none => (r, .pending)
  | some handle =>
    match handle.queue with
    | stream :: _ => ({ r with incoming := r.incoming.set i handle.receive }, .ready (some stream))
    | [] =>
      if handle.listening ∧ ¬ r.supported.entries.any (fun e => e.2 == i) then (r, .ready none)
      else (r, .pending)

/-- Drops a handle. -/
def dropIncoming (r : InboundProtocols Pr M) (i : Nat) : InboundProtocols Pr M :=
  { r with incoming := r.incoming.modify i Mailbox.close }

end InboundProtocols

/-- What is done to the registry and to the handles. -/
inductive InboundAction (Pr M : Type) where
  | accept (protocol : Pr) (capacity : Nat)
  | supportedInboundProtocols
  | onInboundStream (stream : M) (protocol : Pr)
  | pollNext (handle : Nat)
  | dropIncoming (handle : Nat)

/-- What the caller of an action is told. Protocols are listed in no order. -/
inductive InboundOutput (Pr M : Type) where
  | accepted (result : Except AlreadyRegistered Nat)
  | protocols (listed : Finset Pr)
  | polled (stream : Poll (Option M))
  | done

variable {Pr M : Type} [DecidableEq Pr]

def InboundProtocols.step (r : InboundProtocols Pr M) :
    InboundAction Pr M → InboundProtocols Pr M × InboundOutput Pr M
  | .accept protocol capacity =>
    let (r, result) := r.accept protocol capacity
    (r, .accepted result)
  | .supportedInboundProtocols =>
    let (r, listed) := r.supportedInboundProtocols
    (r, .protocols listed.toFinset)
  | .onInboundStream stream protocol => (r.onInboundStream stream protocol, .done)
  | .pollNext i =>
    let (r, stream) := r.pollNext i
    (r, .polled stream)
  | .dropIncoming i => (r.dropIncoming i, .done)

/-- A handle that is alive. -/
structure Listener (Pr M : Type) where
  protocol : Pr
  slots : Nat
  /-- The streams waiting for it, oldest first. -/
  streams : List M

/-- Takes a stream of the listener's protocol if there is room for it. -/
def Listener.offer (l : Listener Pr M) (stream : M) (protocol : Pr) : Listener Pr M :=
  if l.protocol = protocol ∧ l.streams.length < l.slots then
    { l with streams := l.streams ++ [stream] }
  else l

/-- The handles given out, none for those dropped. -/
abbrev Listeners (Pr M : Type) := List (Option (Listener Pr M))

namespace Listeners

/-- A handle that is alive listens on the protocol. -/
def listens (ls : Listeners Pr M) (protocol : Pr) : Bool :=
  ls.any fun l => l.any fun l => l.protocol = protocol

/-- The registry as its users see it. -/
def step (ls : Listeners Pr M) : InboundAction Pr M → Listeners Pr M × InboundOutput Pr M
  | .accept protocol capacity =>
    if ls.listens protocol then (ls, .accepted (.error .alreadyRegistered))
    else (ls ++ [some ⟨protocol, capacity + 1, []⟩], .accepted (.ok ls.length))
  | .supportedInboundProtocols =>
    (ls, .protocols ((ls.filterMap id).map (·.protocol)).toFinset)
  | .onInboundStream stream protocol =>
    (ls.map (Option.map (·.offer stream protocol)), .done)
  | .pollNext i =>
    match ls[i]? with
    | some (some l) =>
      match l.streams with
      | stream :: streams =>
        (ls.set i (some { l with streams }), .polled (.ready (some stream)))
      | [] => (ls, .polled .pending)
    | _ => (ls, .polled .pending)
  | .dropIncoming i => (ls.modify i fun _ => none, .done)

theorem listens_iff {ls : Listeners Pr M} {protocol : Pr} :
    ls.listens protocol = true ↔
      ∃ (i : Nat) (l : Listener Pr M), ls[i]? = some (some l) ∧ l.protocol = protocol := by
  simp only [listens, List.any_eq_true, Option.any_eq_true, decide_eq_true_eq]
  constructor
  · rintro ⟨_, hmem, l, rfl, hl⟩
    obtain ⟨i, hi⟩ := List.mem_iff_getElem?.mp hmem
    exact ⟨i, l, hi, hl⟩
  · rintro ⟨i, l, hi, hl⟩
    exact ⟨_, List.mem_of_getElem? hi, l, rfl, hl⟩

/-- Nothing takes a stream that no listener has room for. -/
theorem map_offer_of_refused {ls : Listeners Pr M} {stream : M} {protocol : Pr}
    (h : ∀ (i : Nat) (l : Listener Pr M), ls[i]? = some (some l) → l.protocol = protocol →
      l.slots ≤ l.streams.length) :
    ls.map (Option.map (·.offer stream protocol)) = ls := by
  refine (List.map_congr_left fun l hmem => ?_).trans (List.map_id ls)
  obtain ⟨i, hi⟩ := List.mem_iff_getElem?.mp hmem
  cases l with
  | none => rfl
  | some l =>
    have hrefused : ¬ (l.protocol = protocol ∧ l.streams.length < l.slots) := fun htakes =>
      absurd htakes.2 (Nat.not_lt.mpr (h i l hi htakes.1))
    simp [Listener.offer, hrefused]

end Listeners

namespace InboundProtocols

omit [DecidableEq Pr] in
theorem isOpen_iff {r : InboundProtocols Pr M} {i : Nat} :
    r.isOpen i = true ↔ ∃ handle, r.incoming[i]? = some handle ∧ handle.listening = true := by
  cases h : r.incoming[i]? <;> simp [isOpen, h]

theorem lookup_retainOpen {r : InboundProtocols Pr M} {protocol : Pr} {i : Nat} :
    r.retainOpen.supported.lookup protocol = some i ↔
      r.supported.lookup protocol = some i ∧ r.isOpen i = true := by
  have hentries : ∀ s : AList (fun _ : Pr => Nat), s.lookup protocol = some i ↔
      (⟨protocol, i⟩ : Sigma fun _ : Pr => Nat) ∈ s.entries := fun s => AList.mem_lookup_iff
  rw [hentries, hentries]
  exact List.mem_filter

/-- The handles of the registry are those of the list, and each one alive has its
sender under its protocol. -/
structure Mirrors (r : InboundProtocols Pr M) (ls : Listeners Pr M) : Prop where
  length : r.incoming.length = ls.length
  alive : ∀ (i : Nat) (handle : Mailbox M), r.incoming[i]? = some handle →
    handle.listening = true →
    ∃ protocol, ls[i]? = some (some ⟨protocol, handle.slots, handle.queue⟩) ∧
      r.supported.lookup protocol = some i
  dropped : ∀ (i : Nat) (handle : Mailbox M), r.incoming[i]? = some handle →
    handle.listening = false → handle.queue = [] ∧ ls[i]? = some none
  numbered : ∀ protocol i, r.supported.lookup protocol = some i → i < r.incoming.length
  injective : ∀ protocol other i, r.supported.lookup protocol = some i →
    r.supported.lookup other = some i → protocol = other

variable {r : InboundProtocols Pr M} {ls : Listeners Pr M}

theorem mirrors_new : (new : InboundProtocols Pr M).Mirrors [] where
  length := rfl
  alive := by
    rintro i handle ⟨⟩
  dropped := by
    rintro i handle ⟨⟩
  numbered := by
    rintro protocol i ⟨⟩
  injective := by
    rintro protocol other i ⟨⟩

/-- Forgetting closed senders does not show. -/
theorem Mirrors.retainOpen (h : r.Mirrors ls) : r.retainOpen.Mirrors ls where
  length := h.length
  alive i handle hi hlistening := by
    obtain ⟨protocol, hls, hlookup⟩ := h.alive i handle hi hlistening
    have hopen := isOpen_iff.mpr ⟨handle, hi, hlistening⟩
    exact ⟨protocol, hls, lookup_retainOpen.mpr ⟨hlookup, hopen⟩⟩
  dropped := h.dropped
  numbered protocol i hi := h.numbered protocol i (lookup_retainOpen.mp hi).1
  injective protocol other i hp ho :=
    h.injective protocol other i (lookup_retainOpen.mp hp).1 (lookup_retainOpen.mp ho).1

/-- The listener a sender leads to. -/
theorem Mirrors.listener (h : r.Mirrors ls) {protocol : Pr} {i : Nat} {handle : Mailbox M}
    (hlookup : r.supported.lookup protocol = some i) (hi : r.incoming[i]? = some handle)
    (hlistening : handle.listening = true) :
    ls[i]? = some (some ⟨protocol, handle.slots, handle.queue⟩) := by
  obtain ⟨other, hls, hother⟩ := h.alive i handle hi hlistening
  rw [hls, h.injective other protocol i hother hlookup]

/-- The handle of a listener, and its sender. -/
theorem Mirrors.handle (h : r.Mirrors ls) {i : Nat} {l : Listener Pr M}
    (hl : ls[i]? = some (some l)) :
    ∃ handle, r.incoming[i]? = some handle ∧ handle.listening = true ∧
      handle.slots = l.slots ∧ handle.queue = l.streams ∧
      r.supported.lookup l.protocol = some i := by
  obtain ⟨hlt, -⟩ := List.getElem?_eq_some_iff.mp hl
  rw [← h.length] at hlt
  have hi := List.getElem?_eq_getElem hlt
  cases hlistening : r.incoming[i].listening with
  | false =>
    have := (h.dropped i _ hi hlistening).2
    rw [hl] at this
    cases this
  | true =>
    obtain ⟨protocol, hls, hlookup⟩ := h.alive i _ hi hlistening
    rw [hl] at hls
    cases hls
    exact ⟨_, hi, hlistening, rfl, rfl, hlookup⟩

/-- Once the closed senders are forgotten, the senders left are those of the listeners. -/
theorem Mirrors.mem_retainOpen_iff (h : r.Mirrors ls) (protocol : Pr) :
    protocol ∈ r.retainOpen.supported ↔
      ∃ (i : Nat) (l : Listener Pr M), ls[i]? = some (some l) ∧ l.protocol = protocol := by
  rw [← AList.lookup_isSome, Option.isSome_iff_exists]
  constructor
  · rintro ⟨i, hi⟩
    obtain ⟨hlookup, hopen⟩ := lookup_retainOpen.mp hi
    obtain ⟨handle, hi, hlistening⟩ := isOpen_iff.mp hopen
    exact ⟨i, _, h.listener hlookup hi hlistening, rfl⟩
  · rintro ⟨i, l, hl, rfl⟩
    obtain ⟨handle, hi, hlistening, -, -, hlookup⟩ := h.handle hl
    exact ⟨i, lookup_retainOpen.mpr ⟨hlookup, isOpen_iff.mpr ⟨handle, hi, hlistening⟩⟩⟩

/-- A new listener for a protocol that has no sender. -/
theorem Mirrors.insert (h : r.Mirrors ls) {protocol : Pr} (hnew : protocol ∉ r.supported)
    (slots : ℕ+) :
    Mirrors
      { supported := r.supported.insert protocol r.incoming.length
        incoming := r.incoming ++ [.new slots] }
      (ls ++ [some ⟨protocol, slots, []⟩]) := by
  have hnone : r.supported.lookup protocol = none := AList.lookup_eq_none.mpr hnew
  have hlookup : ∀ {other i},
      (r.supported.insert protocol r.incoming.length).lookup other = some i ↔
      other = protocol ∧ i = r.incoming.length ∨ r.supported.lookup other = some i := by
    intro other i
    by_cases ho : other = protocol
    · subst ho
      simp [AList.lookup_insert, hnone, eq_comm]
    · simp [AList.lookup_insert_ne ho, ho]
  refine ⟨by simp [h.length], ?_, ?_, ?_, ?_⟩
  · intro i handle hi hlistening
    rcases Nat.lt_or_ge i r.incoming.length with hlt | hge
    · rw [List.getElem?_append_left hlt] at hi
      obtain ⟨other, hls, hother⟩ := h.alive i handle hi hlistening
      refine ⟨other, ?_, hlookup.mpr (.inr hother)⟩
      rw [List.getElem?_append_left (h.length ▸ hlt), hls]
    · obtain ⟨rfl, rfl⟩ : i = r.incoming.length ∧ handle = .new slots := by
        have := (List.getElem?_eq_some_iff.mp hi).1
        simp only [List.length_append, List.length_singleton] at this
        obtain rfl : i = r.incoming.length := by omega
        simp at hi
        exact ⟨rfl, hi.symm⟩
      refine ⟨protocol, ?_, hlookup.mpr (.inl ⟨rfl, rfl⟩)⟩
      simp [h.length, Mailbox.new]
  · intro i handle hi hlistening
    rcases Nat.lt_or_ge i r.incoming.length with hlt | hge
    · rw [List.getElem?_append_left hlt] at hi
      rw [List.getElem?_append_left (h.length ▸ hlt)]
      exact h.dropped i handle hi hlistening
    · have := List.mem_of_getElem? hi
      rw [List.getElem?_append_right hge] at hi
      obtain rfl := List.mem_singleton.mp (List.mem_of_getElem? hi)
      cases hlistening
  · intro other i hi
    rw [List.length_append, List.length_singleton]
    rcases hlookup.mp hi with ⟨-, rfl⟩ | hi
    · exact Nat.lt_succ_self _
    · exact Nat.lt_succ_of_lt (h.numbered other i hi)
  · intro p q i hp hq
    rcases hlookup.mp hp with ⟨rfl, rfl⟩ | hp'
    · rcases hlookup.mp hq with ⟨rfl, -⟩ | hq
      · rfl
      · exact absurd (h.numbered q _ hq) (Nat.lt_irrefl _)
    · rcases hlookup.mp hq with ⟨rfl, rfl⟩ | hq
      · exact absurd (h.numbered p _ hp') (Nat.lt_irrefl _)
      · exact h.injective p q i hp' hq

/-- A handle that is alive changes its queue on both sides. -/
theorem Mirrors.set (h : r.Mirrors ls) {i : Nat} {handle : Mailbox M}
    (hi : i < r.incoming.length) (hlistening : handle.listening = true) {protocol : Pr}
    (hlookup : r.supported.lookup protocol = some i) :
    Mirrors { r with incoming := r.incoming.set i handle }
      (ls.set i (some ⟨protocol, handle.slots, handle.queue⟩)) := by
  refine ⟨by simp [h.length], ?_, ?_, ?_, h.injective⟩
  · intro j other hj hother
    by_cases hij : i = j
    · subst hij
      obtain rfl : handle = other := by simpa [hi] using hj
      exact ⟨protocol, by simp [← h.length, hi], hlookup⟩
    · rw [List.getElem?_set_ne hij] at hj ⊢
      exact h.alive j other hj hother
  · intro j other hj hother
    by_cases hij : i = j
    · subst hij
      obtain rfl : handle = other := by simpa [hi] using hj
      simp [hlistening] at hother
    · rw [List.getElem?_set_ne hij] at hj ⊢
      exact h.dropped j other hj hother
  · intro other j hj
    rw [List.length_set]
    exact h.numbered other j hj

/-- Dropping a handle leaves its sender where it is. -/
theorem Mirrors.dropIncoming (h : r.Mirrors ls) (i : Nat) :
    (r.dropIncoming i).Mirrors (ls.modify i fun _ => none) := by
  refine ⟨by simp [InboundProtocols.dropIncoming, h.length], ?_, ?_, ?_, h.injective⟩
  · intro j handle hj hlistening
    by_cases hij : i = j
    · subst hij
      obtain ⟨_, -, rfl⟩ : ∃ b, r.incoming[i]? = some b ∧ b.close = handle := by
        simpa [InboundProtocols.dropIncoming, List.getElem?_modify] using hj
      cases hlistening
    · replace hj : (r.incoming.modify i Mailbox.close)[j]? = some handle := hj
      rw [List.getElem?_modify_ne _ _ hij] at hj ⊢
      exact h.alive j handle hj hlistening
  · intro j handle hj hlistening
    by_cases hij : i = j
    · subst hij
      obtain ⟨_, hi, rfl⟩ : ∃ b, r.incoming[i]? = some b ∧ b.close = handle := by
        simpa [InboundProtocols.dropIncoming, List.getElem?_modify] using hj
      have hlt : i < ls.length := h.length ▸ (List.getElem?_eq_some_iff.mp hi).1
      exact ⟨rfl, by simp [hlt]⟩
    · replace hj : (r.incoming.modify i Mailbox.close)[j]? = some handle := hj
      rw [List.getElem?_modify_ne _ _ hij] at hj ⊢
      exact h.dropped j handle hj hlistening
  · intro protocol j hj
    exact lt_of_lt_of_eq (h.numbered protocol j hj) (List.length_modify _ _ _).symm

/-- A sender that no handle alive belongs to can go. -/
theorem Mirrors.erase (h : r.Mirrors ls) {protocol : Pr}
    (hnone : ∀ (i : Nat) (l : Listener Pr M), ls[i]? = some (some l) → l.protocol ≠ protocol) :
    Mirrors { r with supported := r.supported.erase protocol } ls := by
  have hlookup : ∀ {other i}, (r.supported.erase protocol).lookup other = some i ↔
      other ≠ protocol ∧ r.supported.lookup other = some i := by
    intro other i
    by_cases ho : other = protocol
    · subst ho
      simp
    · simp [AList.lookup_erase_ne ho, ho]
  refine ⟨h.length, ?_, h.dropped, ?_, ?_⟩
  · intro i handle hi hlistening
    obtain ⟨other, hls, hother⟩ := h.alive i handle hi hlistening
    exact ⟨other, hls, hlookup.mpr ⟨hnone i _ hls, hother⟩⟩
  · exact fun other i hi => h.numbered other i (hlookup.mp hi).2
  · exact fun p q i hp hq => h.injective p q i (hlookup.mp hp).2 (hlookup.mp hq).2

/-- A protocol has one listener at most. -/
theorem Mirrors.unique (h : r.Mirrors ls) {i j : Nat} {l k : Listener Pr M}
    (hl : ls[i]? = some (some l)) (hk : ls[j]? = some (some k)) (heq : l.protocol = k.protocol) :
    i = j := by
  obtain ⟨-, -, -, -, -, hi⟩ := h.handle hl
  obtain ⟨-, -, -, -, -, hj⟩ := h.handle hk
  rw [heq, hj] at hi
  cases hi
  rfl

/-- The one listener of a protocol takes a stream. -/
theorem Mirrors.map_offer (h : r.Mirrors ls) {i : Nat} {l : Listener Pr M}
    (hl : ls[i]? = some (some l)) (stream : M) :
    ls.map (Option.map (·.offer stream l.protocol)) =
      ls.set i (some (l.offer stream l.protocol)) := by
  refine List.ext_getElem? fun j => ?_
  rw [List.getElem?_map]
  by_cases hij : i = j
  · subst hij
    rw [hl, List.getElem?_set_self (List.getElem?_eq_some_iff.mp hl).1]
    rfl
  · rw [List.getElem?_set_ne hij]
    cases hj : ls[j]? with
    | none => rfl
    | some k =>
      cases k with
      | none => rfl
      | some k =>
        have hne : k.protocol ≠ l.protocol := fun heq => hij (h.unique hl hj heq.symm)
        simp [Listener.offer, hne]

theorem Mirrors.onInboundStream (h : r.Mirrors ls) (stream : M) (protocol : Pr) :
    (r.onInboundStream stream protocol).Mirrors
      (ls.map (Option.map (·.offer stream protocol))) := by
  unfold InboundProtocols.onInboundStream
  split
  · next hlookup =>
    rw [Listeners.map_offer_of_refused]
    · exact h
    · rintro i l hl rfl
      obtain ⟨-, -, -, -, -, hi⟩ := h.handle hl
      rw [hlookup] at hi
      cases hi
  · next i hlookup =>
    split
    · next hnone =>
      have hge := List.getElem?_eq_none_iff.mp hnone
      exact absurd (h.numbered protocol i hlookup) (Nat.not_lt.mpr hge)
    · next handle hi =>
      have honly : ∀ (j : Nat) (l : Listener Pr M), ls[j]? = some (some l) →
          l.protocol = protocol → j = i := by
        rintro j l hl rfl
        obtain ⟨-, -, -, -, -, hj⟩ := h.handle hl
        rw [hlookup] at hj
        cases hj
        rfl
      split
      · next sent hsent =>
        obtain ⟨hlistening, hroom, hslots, hstill, hqueue⟩ := Mailbox.trySend_eq_ok.mp hsent
        have hl := h.listener hlookup hi hlistening
        rw [h.map_offer hl stream, Listener.offer, if_pos ⟨rfl, hroom⟩, ← hqueue, ← hslots]
        exact h.set (h.numbered protocol i hlookup) (hstill.trans hlistening) hlookup
      · next hfull =>
        obtain ⟨⟨⟩, -⟩ | ⟨-, hfull⟩ := Mailbox.trySend_eq_error hfull
        rw [Listeners.map_offer_of_refused]
        · exact h
        · intro j l hl hprotocol
          obtain rfl := honly j l hl hprotocol
          obtain ⟨other, hj, -, hslots, hqueue, -⟩ := h.handle hl
          rw [hi] at hj
          cases hj
          rw [← hslots, ← hqueue, hfull]
      · next hgone =>
        obtain ⟨-, hgone⟩ | ⟨⟨⟩, -⟩ := Mailbox.trySend_eq_error hgone
        have hnone : ∀ (j : Nat) (l : Listener Pr M), ls[j]? = some (some l) →
            l.protocol ≠ protocol := by
          intro j l hl hprotocol
          obtain rfl := honly j l hl hprotocol
          rw [(h.dropped j handle hi hgone).2] at hl
          cases hl
        rw [Listeners.map_offer_of_refused fun j l hl hp => absurd hp (hnone j l hl)]
        exact h.erase hnone

theorem Mirrors.accept (h : r.Mirrors ls) (protocol : Pr) (capacity : Nat) :
    (r.step (.accept protocol capacity)).1.Mirrors
        (Listeners.step ls (.accept protocol capacity)).1 ∧
      (r.step (.accept protocol capacity)).2 =
        (Listeners.step ls (.accept protocol capacity)).2 := by
  have hmem := (h.mem_retainOpen_iff protocol).trans Listeners.listens_iff.symm
  simp only [step, InboundProtocols.accept, Listeners.step]
  by_cases hlistens : Listeners.listens ls protocol = true
  · rw [if_pos (hmem.mpr hlistens), if_pos hlistens]
    exact ⟨h.retainOpen, rfl⟩
  · have hnew := mt hmem.mp hlistens
    rw [if_neg hnew, if_neg hlistens]
    exact ⟨h.retainOpen.insert hnew capacity.succPNat, by rw [h.retainOpen.length]⟩

theorem Mirrors.supportedInboundProtocols (h : r.Mirrors ls) :
    r.supportedInboundProtocols.2.toFinset = ((ls.filterMap id).map (·.protocol)).toFinset := by
  ext protocol
  rw [List.mem_toFinset, List.mem_toFinset, List.mem_map]
  refine (h.mem_retainOpen_iff protocol).trans ?_
  simp only [List.mem_filterMap, id_eq, exists_eq_right, List.mem_iff_getElem? (l := ls)]
  exact ⟨fun ⟨i, l, hi, hl⟩ => ⟨l, ⟨i, hi⟩, hl⟩, fun ⟨l, ⟨i, hi⟩, hl⟩ => ⟨i, l, hi, hl⟩⟩

theorem Mirrors.pollNext (h : r.Mirrors ls) (i : Nat) :
    (r.step (.pollNext i)).1.Mirrors (Listeners.step ls (.pollNext i)).1 ∧
      (r.step (.pollNext i)).2 = (Listeners.step ls (.pollNext i)).2 := by
  simp only [step, InboundProtocols.pollNext, Listeners.step]
  cases hi : r.incoming[i]? with
  | none =>
    have hls : ls[i]? = none := by
      rw [List.getElem?_eq_none_iff, ← h.length]
      exact List.getElem?_eq_none_iff.mp hi
    rw [hls]
    exact ⟨h, rfl⟩
  | some handle =>
    cases hlistening : handle.listening with
    | false =>
      obtain ⟨hqueue, hls⟩ := h.dropped i handle hi hlistening
      simp only [hqueue, hls, hlistening]
      exact ⟨h, rfl⟩
    | true =>
      obtain ⟨protocol, hls, hlookup⟩ := h.alive i handle hi hlistening
      simp only [hls]
      cases hqueue : handle.queue with
      | cons stream streams =>
        have htail := Mailbox.queue_receive hqueue
        have hlistening' : handle.receive.listening = true := hlistening
        have hset := h.set (h.numbered protocol i hlookup) hlistening' hlookup
        rw [htail] at hset
        exact ⟨hset, rfl⟩
      | nil =>
        -- The sender of a handle that is alive is in the registry, so the handle never ends.
        have hsender : r.supported.entries.any (fun e => e.2 == i) = true :=
          List.any_eq_true.mpr ⟨⟨protocol, i⟩, AList.mem_lookup_iff.mp hlookup, beq_self_eq_true i⟩
        simp only [hsender, not_true_eq_false, and_false, if_false]
        exact ⟨h, trivial⟩

/-- One action: the two sides stay the same and answer the same. -/
theorem Mirrors.step (h : r.Mirrors ls) (action : InboundAction Pr M) :
    (r.step action).1.Mirrors (Listeners.step ls action).1 ∧
      (r.step action).2 = (Listeners.step ls action).2 := by
  cases action with
  | accept protocol capacity => exact h.accept protocol capacity
  | supportedInboundProtocols =>
    exact ⟨h.retainOpen, congrArg InboundOutput.protocols h.supportedInboundProtocols⟩
  | onInboundStream stream protocol => exact ⟨h.onInboundStream stream protocol, rfl⟩
  | pollNext i => exact h.pollNext i
  | dropIncoming i => exact ⟨h.dropIncoming i, rfl⟩

/-- No sequence of calls tells the registry from the list of the handles alive: a
protocol can be taken exactly while no handle alive listens on it, the protocols
offered are those of the handles alive, each handle gets the streams of its protocol
in order while it has room, and never ends. -/
theorem registry_refines_live_handles (actions : List (InboundAction Pr M)) :
    outputs step (new : InboundProtocols Pr M) actions = outputs Listeners.step [] actions :=
  outputs_eq_of_simulation (R := Mirrors) (fun _ _ action _ h => h.step action) mirrors_new

end InboundProtocols

end SqdNetwork.Transport
