import Mathlib.Data.Finset.Lattice.Lemmas
import Mathlib.Data.Finset.SDiff
import SqdNetwork.Core.Machine

/-!
# The allow list

A peer may be connected to when it was explicitly allowed or is registered on
chain. Both reasons share one set, and each retrieved node set is applied as the
difference to the previous one.
-/

namespace SqdNetwork.Transport

open SqdNetwork.Core

/-- The nodes registered on chain. -/
structure NetworkNodes (P : Type) where
  portals : Finset P
  workers : Finset P

/-- Portals and workers together. -/
def NetworkNodes.all {P : Type} [DecidableEq P] (nodes : NetworkNodes P) : Finset P :=
  nodes.portals ∪ nodes.workers

/-- The set of peers the node may be connected to. -/
structure WhitelistBehavior (P : Type) where
  allow : Finset P
  registeredNodes : Finset P

namespace WhitelistBehavior

variable {P E : Type} [DecidableEq P]

/-- Nobody is allowed at first. -/
def new : WhitelistBehavior P := ⟨∅, ∅⟩

def allowPeer (w : WhitelistBehavior P) (peer : P) : WhitelistBehavior P :=
  { w with allow := insert peer w.allow }

theorem registeredNodes_foldl_allowPeer (peers : List P) (w : WhitelistBehavior P) :
    (peers.foldl allowPeer w).registeredNodes = w.registeredNodes := by
  induction peers generalizing w with
  | nil => rfl
  | cons peer peers ih => exact ih (w.allowPeer peer)

/-- Apply a retrieved node set. An unchanged set of nodes is not passed on. -/
def onNodesUpdate (w : WhitelistBehavior P) (result : Except E (NetworkNodes P)) :
    WhitelistBehavior P × Option (NetworkNodes P) :=
  match result with
  | .error _ => (w, none)
  | .ok nodes =>
    let allNodes := nodes.all
    if allNodes = w.registeredNodes then (w, none)
    else
      let allow := w.allow \ (w.registeredNodes \ allNodes)
      let allow := allow ∪ (allNodes \ w.registeredNodes)
      ({ w with allow := allow, registeredNodes := allNodes }, some nodes)

end WhitelistBehavior

/-- What callers and the chain do to the allow list. -/
inductive WhitelistOp (P E : Type) where
  | allowPeer (peer : P)
  | nodesUpdate (result : Except E (NetworkNodes P))

/-- The allow list beside what was asked of it. -/
structure WhitelistRun (P : Type) where
  whitelist : WhitelistBehavior P
  /-- The peers ever passed to `allow_peer`. -/
  allowed : Finset P
  /-- The nodes retrieved last. -/
  retrieved : Finset P

namespace WhitelistRun

variable {P E : Type} [DecidableEq P]

/-- Nothing has happened. -/
def start : WhitelistRun P := ⟨.new, ∅, ∅⟩

def step (r : WhitelistRun P) : WhitelistOp P E → WhitelistRun P
  | .allowPeer peer =>
    { r with whitelist := r.whitelist.allowPeer peer, allowed := insert peer r.allowed }
  | .nodesUpdate result =>
    { r with
      whitelist := (r.whitelist.onNodesUpdate result).1
      retrieved := match result with
        | .ok nodes => nodes.all
        | .error _ => r.retrieved }

/-- Exactly the explicitly allowed and the registered peers are allowed. -/
def Exact (r : WhitelistRun P) : Prop := r.whitelist.allow = r.allowed ∪ r.retrieved

/-- No explicitly allowed peer leaves the registered nodes. -/
def KeepsAllowed (r : WhitelistRun P) : WhitelistOp P E → Prop
  | .nodesUpdate (.ok nodes) => ∀ peer ∈ r.allowed, peer ∈ r.retrieved → peer ∈ nodes.all
  | _ => True

/-- The behaviour keeps the nodes retrieved last. -/
theorem registeredNodes_step {r : WhitelistRun P} (h : r.whitelist.registeredNodes = r.retrieved)
    (op : WhitelistOp P E) : (r.step op).whitelist.registeredNodes = (r.step op).retrieved := by
  cases op with
  | allowPeer peer => exact h
  | nodesUpdate result =>
    cases result with
    | error e => exact h
    | ok nodes =>
      simp only [step, WhitelistBehavior.onNodesUpdate]
      split
      · next he => exact he.symm
      · rfl

/-- An exact allow list stays exact unless an explicitly allowed peer is deregistered. -/
theorem exact_step_iff {r : WhitelistRun P} (hnodes : r.whitelist.registeredNodes = r.retrieved)
    (h : r.Exact) (op : WhitelistOp P E) : (r.step op).Exact ↔ r.KeepsAllowed op := by
  unfold Exact at h
  cases op with
  | allowPeer peer =>
    refine iff_of_true ?_ trivial
    simp only [Exact, step, WhitelistBehavior.allowPeer, h, Finset.insert_union]
  | nodesUpdate result =>
    cases result with
    | error e => exact iff_of_true h trivial
    | ok nodes =>
      simp only [Exact, step, WhitelistBehavior.onNodesUpdate, KeepsAllowed]
      split
      · next he =>
        rw [h, he, hnodes]
        exact iff_of_true rfl fun _ _ hpeer => hpeer
      · simp only [h, hnodes, Finset.ext_iff, Finset.mem_union, Finset.mem_sdiff]
        constructor
        · intro hexact peer hallowed hretrieved
          have hpeer := hexact peer
          tauto
        · intro hkeeps peer
          have hpeer := hkeeps peer
          tauto

end WhitelistRun

/-- Throughout a run the allow list is exactly the explicitly allowed peers and the nodes
retrieved last, if and only if no retrieved node set drops an explicitly allowed peer that was
registered. -/
theorem allow_list_exact_iff {P E : Type} [DecidableEq P] (ops : List (WhitelistOp P E)) :
    Throughout WhitelistRun.step WhitelistRun.Exact (WhitelistRun.start : WhitelistRun P) ops ↔
      EveryStep WhitelistRun.step WhitelistRun.KeepsAllowed WhitelistRun.start ops :=
  throughout_iff_everyStep (fun _ op h => WhitelistRun.registeredNodes_step h op)
    (fun _ op hnodes h => WhitelistRun.exact_step_iff hnodes h op) ops
    (J := fun r => r.whitelist.registeredNodes = r.retrieved) rfl rfl

/-- An explicitly allowed peer that registers and deregisters is no longer allowed. -/
theorem allow_list_loses_explicit_peer :
    ¬ Throughout WhitelistRun.step WhitelistRun.Exact (WhitelistRun.start : WhitelistRun Nat)
      ([.allowPeer 7, .nodesUpdate (.ok ⟨∅, {7}⟩), .nodesUpdate (.ok ⟨∅, ∅⟩)] :
        List (WhitelistOp Nat Unit)) := by
  simp only [Throughout, WhitelistRun.Exact]
  decide

end SqdNetwork.Transport
