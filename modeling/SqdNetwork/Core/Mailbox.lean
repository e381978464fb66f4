import Mathlib.Data.List.Basic
import Mathlib.Data.PNat.Defs

/-!
# Bounded mailboxes

A mailbox has a fixed number of places, and at least one. Sending into one that is full, or whose
receiver is gone, gives the message back.
-/

namespace SqdNetwork.Core

/-- Why a message was not taken. -/
inductive TrySendError where
  | full
  | disconnected
  deriving DecidableEq

/-- The receiving end of a channel and what is in it. -/
structure Mailbox (M : Type) where
  slots : Nat
  queue : List M
  /-- The receiver is alive. -/
  listening : Bool
  fits : queue.length ≤ slots

namespace Mailbox

variable {M : Type}

def new (slots : ℕ+) : Mailbox M := ⟨slots, [], true, Nat.zero_le _⟩

/-- Sends a message if there is room and someone to receive it. -/
def trySend (b : Mailbox M) (m : M) : Except TrySendError (Mailbox M) :=
  if b.listening then
    if h : b.queue.length < b.slots then
      .ok { b with
        queue := b.queue ++ [m]
        fits := by
          rw [List.length_append]
          exact h }
    else .error .full
  else .error .disconnected

/-- Takes the oldest message. -/
def receive (b : Mailbox M) : Mailbox M :=
  { b with
    queue := b.queue.tail
    fits := by
      rw [List.length_tail]
      exact Nat.le_trans (Nat.sub_le _ _) b.fits }

theorem queue_receive {b : Mailbox M} {m : M} {queue : List M} (h : b.queue = m :: queue) :
    b.receive.queue = queue :=
  congrArg List.tail h

/-- Drops the receiver, and what it has not received. -/
def close (b : Mailbox M) : Mailbox M :=
  { b with queue := [], listening := false, fits := Nat.zero_le _ }

theorem ext_of {b c : Mailbox M} (hslots : b.slots = c.slots) (hqueue : b.queue = c.queue)
    (hlistening : b.listening = c.listening) : b = c := by
  cases b
  cases c
  cases hslots
  cases hqueue
  cases hlistening
  rfl

/-- What sending does: the message is the last of the queue. -/
theorem trySend_eq_ok {b b' : Mailbox M} {m : M} :
    b.trySend m = .ok b' ↔ b.listening = true ∧ b.queue.length < b.slots ∧
      b'.slots = b.slots ∧ b'.listening = b.listening ∧ b'.queue = b.queue ++ [m] := by
  unfold trySend
  split
  · next hlistening =>
    split
    · next hroom =>
      constructor
      · rintro ⟨⟩
        exact ⟨hlistening, hroom, rfl, rfl, rfl⟩
      · rintro ⟨-, -, hslots, hl, hqueue⟩
        exact congrArg Except.ok (ext_of hslots.symm hqueue.symm hl.symm)
    · next hfull => exact iff_of_false (by simp) fun h => hfull h.2.1
  · next hgone => exact iff_of_false (by simp) fun h => hgone h.1

theorem trySend_eq_error {b : Mailbox M} {m : M} {e : TrySendError} (h : b.trySend m = .error e) :
    e = .disconnected ∧ b.listening = false ∨ e = .full ∧ b.queue.length = b.slots := by
  unfold trySend at h
  split at h
  · split at h
    · cases h
    · next hfull =>
      cases h
      exact .inr ⟨rfl, Nat.le_antisymm b.fits (Nat.le_of_not_lt hfull)⟩
  · next hgone =>
    cases h
    exact .inl ⟨rfl, Bool.eq_false_iff.mpr hgone⟩

end Mailbox

end SqdNetwork.Core
