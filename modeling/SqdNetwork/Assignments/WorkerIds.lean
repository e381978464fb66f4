import SqdNetwork.Assignments.WorkerEntries
import SqdNetwork.Assignments.WorkerBuilder
import SqdNetwork.Assignments.PortalBuilder

/-!
# Worker ids in their fixed slot

A worker's id is stored in 38 bytes. A shorter id is refused, an id of that size
is kept, and a release build cuts a longer one to its first 38 bytes, which no
longer parse to it.
-/

namespace SqdNetwork.Assignments

open SqdNetwork.Core

section Slot

variable {P : Type} [LT P] [DecidableLT P]

/-- Adding an id is refused, or appends one slot that parses back to it. -/
def AddedFaithfully {B : Type} (fromBytes : List UInt8 → Option P) (id : P)
    (slots : B → List WorkerId) (b : B) (add : Exec B) : Prop :=
  (∃ p, add = .error p) ∨
    ∃ b' slot, add = .ok b' ∧ slots b' = slots b ++ [slot] ∧ slot.tryInto fromBytes = some id

/-- The release build's slot holds the leading 38 bytes of an id that has so many. -/
theorem workerIdFrom_release (buf : List UInt8) :
    (buf.length < 38 ∧ ∃ p, workerIdFrom .release buf = .error p) ∨
    (38 ≤ buf.length ∧ ∃ slot, workerIdFrom .release buf = .ok slot ∧
      slot.bytes = buf.take 38) := by
  unfold workerIdFrom
  split
  · next h => exact Or.inr ⟨h, _, rfl, rfl⟩
  · next h => exact Or.inl ⟨by omega, _, rfl⟩

variable {toBytes : P → List UInt8} {fromBytes : List UInt8 → Option P} {id : P}

/-- Whatever is built around the two steps of adding an id, the id is kept or refused exactly
when it does not ascend or fits the slot. -/
theorem addedFaithfully_iff {B : Type} {slots : B → List WorkerId} {b : B} {last : Option P}
    (push : WorkerId → B) (hread : ∀ p, fromBytes (toBytes p) = some p)
    (honly : ∀ bytes p, fromBytes bytes = some p → toBytes p = bytes)
    (hpush : ∀ slot, slots (push slot) = slots b ++ [slot]) :
    AddedFaithfully fromBytes id slots b (do
      assertAscending last id
      let slot ← workerIdFrom .release (toBytes id)
      .ok (push slot)) ↔
    (∃ p, last = some p ∧ ¬p < id) ∨ (toBytes id).length ≤ 38 := by
  by_cases hasc : ∃ p, last = some p ∧ ¬p < id
  · obtain ⟨p, rfl, hp⟩ := hasc
    refine iff_of_true (Or.inl ?_) (Or.inl ⟨p, rfl, hp⟩)
    simp [assertAscending, Exec.assert, hp]
  · have hpass : assertAscending last id = .ok () := by
      unfold assertAscending
      cases last with
      | none => rfl
      | some p =>
        have hp : p < id := not_not.mp fun hp => hasc ⟨p, rfl, hp⟩
        simp [Exec.assert, hp]
    rw [hpass, Exec.ok_bind]
    rcases workerIdFrom_release (toBytes id) with ⟨hshort, p, hslot⟩ | ⟨hlong, slot, hslot, hbytes⟩
    · refine iff_of_true (Or.inl ⟨p, ?_⟩) (Or.inr (by omega))
      rw [hslot, Exec.error_bind]
    · rw [hslot, Exec.ok_bind]
      refine ⟨?_, fun h => Or.inr ⟨_, slot, rfl, hpush slot, ?_⟩⟩
      · rintro (⟨p, ⟨⟩⟩ | ⟨_, kept, ⟨⟩, hslots, hkept⟩)
        rw [hpush, List.append_cancel_left_eq, List.cons.injEq] at hslots
        rw [WorkerId.tryInto, ← hslots.1, hbytes] at hkept
        right
        rw [honly _ _ hkept, List.length_take]
        exact Nat.min_le_left _ _
      · rw [WorkerId.tryInto, hbytes, List.take_of_length_le (h.resolve_left hasc)]
        exact hread id

end Slot

/-- The slots of the workers in a finished worker assignment. -/
def WorkerAssignmentBuilder.slots {P Key Rng : Type} (b : WorkerAssignmentBuilder P Key Rng) :
    List WorkerId :=
  b.finish.workers.map WorkerEntry.workerId

/-- The slots of the workers in a finished portal assignment. -/
def PortalAssignmentBuilder.slots {P : Type} (b : PortalAssignmentBuilder P) : List WorkerId :=
  b.finish.workers.map PortalEntry.workerId

/-- In a release build, every way of adding a worker refuses its id or keeps it readable exactly
when the id does not ascend past the last one, which is refused, or has at most 38 bytes. -/
theorem worker_id_kept_iff {P : Type} [LT P] [DecidableLT P] (toBytes : P → List UInt8)
    (fromBytes : List UInt8 → Option P) (hread : ∀ p, fromBytes (toBytes p) = some p)
    (honly : ∀ bytes p, fromBytes bytes = some p → toBytes p = bytes) (id : P)
    (status : WorkerStatus) :
    (∀ (Key Rng : Type) (env : Sealing P Key Rng) (b : WorkerAssignmentBuilder P Key Rng),
      env.toBytes = toBytes →
      (∀ timestamp, AddedFaithfully fromBytes id WorkerAssignmentBuilder.slots b
          (b.addWorkerWithTimestamp .release env id status timestamp) ↔
        (∃ p, b.lastPeerId = some p ∧ ¬p < id) ∨ (toBytes id).length ≤ 38) ∧
      ∀ identity nonce ciphertext, AddedFaithfully fromBytes id WorkerAssignmentBuilder.slots b
          (b.addWorkerWithSealedHeaders .release env id status identity nonce ciphertext) ↔
        (∃ p, b.lastPeerId = some p ∧ ¬p < id) ∨ (toBytes id).length ≤ 38) ∧
    ∀ b : PortalAssignmentBuilder P,
      AddedFaithfully fromBytes id PortalAssignmentBuilder.slots b
          (b.addWorker .release toBytes id status) ↔
        (∃ p, b.lastPeerId = some p ∧ ¬p < id) ∨ (toBytes id).length ≤ 38 := by
  refine ⟨fun Key Rng env b henv => ?_, fun b => ?_⟩
  · subst henv
    refine ⟨fun timestamp => ?_, fun identity nonce ciphertext => ?_⟩
    · refine addedFaithfully_iff (fun slot =>
        let sealed := { b with lastPeerId := some id }.generateEncryptedHeaders env id timestamp
        sealed.1.pushWorker slot status sealed.2) hread honly fun slot => ?_
      obtain ⟨rng, identity, he⟩ := WorkerAssignmentBuilder.generateEncryptedHeaders_frame env
        { b with lastPeerId := some id } id timestamp
      simp [WorkerAssignmentBuilder.slots, WorkerAssignmentBuilder.finish,
        WorkerAssignmentBuilder.pushWorker, he]
    · refine addedFaithfully_iff _ hread honly fun slot => ?_
      simp [WorkerAssignmentBuilder.slots, WorkerAssignmentBuilder.finish,
        WorkerAssignmentBuilder.pushWorker]
  · refine addedFaithfully_iff _ hread honly fun slot => ?_
    simp [PortalAssignmentBuilder.slots, PortalAssignmentBuilder.finish]

/-- Identity multihashes as peer ids, without encryption. -/
def samplePeerSealing : Sealing IdentityPeer Unit Unit where
  toBytes := IdentityPeer.toBytes
  toText _ := ""
  generate _ := ((), ())
  publicKey _ := []
  timedHmac _ _ _ := ""
  encryptWithRng _ _ _ rng := (none, rng)

/-- A peer id of 38 bytes, as every Ed25519 key has. -/
def sampleShortPeer : IdentityPeer := ⟨List.replicate 36 7, by decide⟩

/-- A peer id of 39 bytes. -/
def sampleLongPeer : IdentityPeer := ⟨List.replicate 37 7, by simp⟩

theorem worker_id_kept_sample :
    AddedFaithfully IdentityPeer.fromBytes sampleShortPeer WorkerAssignmentBuilder.slots
      (WorkerAssignmentBuilder.newWithRng samplePeerSealing "" ())
      ((WorkerAssignmentBuilder.newWithRng samplePeerSealing "" ()).addWorkerWithTimestamp .release
        samplePeerSealing sampleShortPeer .ok 0) ∧
    AddedFaithfully IdentityPeer.fromBytes sampleShortPeer PortalAssignmentBuilder.slots .new
      (PortalAssignmentBuilder.new.addWorker .release IdentityPeer.toBytes sampleShortPeer
        .ok) := by
  have h := worker_id_kept_iff IdentityPeer.toBytes IdentityPeer.fromBytes
    IdentityPeer.fromBytes_toBytes (fun _ _ => IdentityPeer.toBytes_of_fromBytes) sampleShortPeer
    .ok
  have hsize : (IdentityPeer.toBytes sampleShortPeer).length ≤ 38 := by decide
  exact ⟨((h.1 Unit Unit samplePeerSealing _ rfl).1 0).mpr (Or.inr hsize),
    (h.2 _).mpr (Or.inr hsize)⟩

/-- A peer id of 39 bytes is accepted by both builders and stored as 38 bytes that do not
parse. -/
theorem worker_id_cut_off :
    (∃ (b : WorkerAssignmentBuilder IdentityPeer Unit Unit) (slot : WorkerId),
      (WorkerAssignmentBuilder.newWithRng samplePeerSealing "" ()).addWorkerWithTimestamp .release
        samplePeerSealing sampleLongPeer .ok 0 = .ok b ∧
      b.slots = [slot] ∧ slot.tryInto IdentityPeer.fromBytes = none) ∧
    ∃ (b : PortalAssignmentBuilder IdentityPeer) (slot : WorkerId),
      PortalAssignmentBuilder.new.addWorker .release IdentityPeer.toBytes sampleLongPeer .ok =
        .ok b ∧
      b.slots = [slot] ∧ slot.tryInto IdentityPeer.fromBytes = none :=
  ⟨⟨_, _, rfl, rfl, by decide⟩, ⟨_, _, rfl, rfl, by decide⟩⟩

end SqdNetwork.Assignments
