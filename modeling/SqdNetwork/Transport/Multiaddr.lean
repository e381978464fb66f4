import SqdNetwork.Transport.AddressCache

/-!
# Multiaddresses

An address is a sequence of protocols. Its first protocol says whether it can be
reached, and its last one may name the peer it leads to.
-/

namespace SqdNetwork.Transport

/-- An IPv4 address by its octets. -/
structure Ipv4Addr where
  a : UInt8
  b : UInt8
  c : UInt8
  d : UInt8
  deriving DecidableEq

namespace Ipv4Addr

def isLoopback (ip : Ipv4Addr) : Bool := ip.a = 127

def isLinkLocal (ip : Ipv4Addr) : Bool := ip.a = 169 && ip.b = 254

def isPrivate (ip : Ipv4Addr) : Bool :=
  ip.a = 10 || (ip.a = 172 && 16 ≤ ip.b && ip.b ≤ 31) || (ip.a = 192 && ip.b = 168)

end Ipv4Addr

/-- An IPv6 address. -/
structure Ipv6Addr where
  bits : BitVec 128
  deriving DecidableEq

def Ipv6Addr.isLoopback (ip : Ipv6Addr) : Bool := ip.bits = 1

/-- One protocol of an address; those nothing here depends on are one case. -/
inductive Protocol (P : Type) where
  | ip4 (ip : Ipv4Addr)
  | ip6 (ip : Ipv6Addr)
  | dns (name : String)
  | dns4 (name : String)
  | dns6 (name : String)
  | dnsaddr (name : String)
  | p2p (peer : P)
  | other (code : Nat) (data : List UInt8)
  deriving DecidableEq

structure Multiaddr (P : Type) where
  protocols : List (Protocol P)
  deriving DecidableEq

namespace Multiaddr

variable {P : Type}

/-- Whether the address can be reached from outside the machine or the private network. -/
def addrIsReachable (privateNetwork : Bool) (addr : Multiaddr P) : Bool :=
  match addr.protocols.head? with
  | some (.ip4 ip) =>
    if ip.isLoopback then privateNetwork
    else !ip.isLinkLocal && (!ip.isPrivate || privateNetwork)
  | some (.ip6 ip) => !ip.isLoopback
  | some (.dns _) | some (.dns4 _) | some (.dns6 _) | some (.dnsaddr _) => true
  | _ => false

/-- The address leads to the peer by its last protocol. -/
def EndsIn (addr : Multiaddr P) (peer : P) : Prop := addr.protocols.getLast? = some (.p2p peer)

variable [DecidableEq P]

instance (addr : Multiaddr P) (peer : P) : Decidable (addr.EndsIn peer) :=
  inferInstanceAs (Decidable (_ = _))

/-- The address with the peer appended unless it is there; an address that leads to another peer
is returned as an error. -/
def withP2p (peer : P) (addr : Multiaddr P) : Except (Multiaddr P) (Multiaddr P) :=
  match addr.protocols.getLast? with
  | some (.p2p p) => if p = peer then .ok addr else .error addr
  | _ => .ok ⟨addr.protocols ++ [.p2p peer]⟩

/-- What the cache uses of multiaddresses, inside a private network or not. -/
def rules (privateNetwork : Bool) : AddressRules P (Multiaddr P) :=
  ⟨addrIsReachable privateNetwork, withP2p⟩

variable {privateNetwork : Bool} {addr : Multiaddr P} {peer : P}

/-- An address is kept as it is, or with the peer appended when it leads to nobody. -/
theorem stored_cases (privateNetwork : Bool) (addr : Multiaddr P) (peer : P) :
    (∃ p, addr.EndsIn p ∧ (rules privateNetwork).stored peer addr = addr) ∨
      (∀ p, ¬ addr.EndsIn p) ∧
        (rules privateNetwork).stored peer addr = ⟨addr.protocols ++ [.p2p peer]⟩ := by
  by_cases hends : ∃ p, addr.EndsIn p
  · obtain ⟨p, hp⟩ := hends
    refine Or.inl ⟨p, hp, ?_⟩
    have hlast : addr.protocols.getLast? = some (.p2p p) := hp
    simp only [AddressRules.stored, rules, withP2p, hlast]
    by_cases hpeer : p = peer
    · rw [if_pos hpeer]
    · rw [if_neg hpeer]
  · have hnone : withP2p peer addr = .ok ⟨addr.protocols ++ [.p2p peer]⟩ := by
      unfold withP2p
      split
      · next p hp => exact absurd ⟨p, hp⟩ hends
      · rfl
    refine Or.inr ⟨not_exists.mp hends, ?_⟩
    simp only [AddressRules.stored, rules, hnone]

/-- What is kept leads to the peer exactly if the address does not lead to another one. -/
theorem endsIn_stored_iff :
    ((rules privateNetwork).stored peer addr).EndsIn peer ↔ ∀ p, addr.EndsIn p → p = peer := by
  rcases stored_cases privateNetwork addr peer with ⟨p, hp, he⟩ | ⟨hnone, he⟩
  · rw [he]
    constructor
    · intro hpeer q hq
      have hsame := Option.some.inj (hq.symm.trans hpeer)
      exact Protocol.p2p.inj hsame
    · intro hall
      exact hall p hp ▸ hp
  · rw [he]
    exact iff_of_true List.getLast?_concat fun p hp => absurd hp (hnone p)

/-- What is kept of a reachable address is reachable. -/
theorem addrIsReachable_stored (h : addr.addrIsReachable privateNetwork) :
    ((rules privateNetwork).stored peer addr).addrIsReachable privateNetwork := by
  rcases stored_cases privateNetwork addr peer with ⟨p, hp, he⟩ | ⟨hnone, he⟩
  · rw [he]
    exact h
  · rw [he]
    obtain ⟨protocols⟩ := addr
    cases protocols with
    | nil => exact absurd h Bool.false_ne_true
    | cons first rest => exact h

end Multiaddr

end SqdNetwork.Transport
