import Mathlib.Data.List.Basic

/-!
# One direction of a byte stream

A writer appends bytes and closes its side; a reader takes them in pieces of any
size, up to a limit, until it finds the end. A stream that breaks fails its reader,
before or after the bytes on their way.
-/

namespace SqdNetwork.Core

/-- What comes next extends a beginning. -/
theorem prefix_append_take_drop {start whole : List UInt8} (h : start <+: whole) (n : Nat) :
    start ++ (whole.drop start.length).take n <+: whole := by
  obtain ⟨rest, hrest⟩ := h
  rw [← hrest, List.drop_left]
  exact (List.prefix_append_right_inj start).mpr (List.take_prefix n rest)

/-- One direction of a stream; `E` says why it broke. -/
structure Pipe (E : Type) where
  /-- All that was written. -/
  written : List UInt8
  /-- The writer has closed its side. -/
  finished : Bool
  broken : Option E
  deriving DecidableEq

/-- What an attempt to read gives. -/
inductive Reading (E : Type) where
  /-- All that was read so far, new bytes among it. -/
  | more (buf : List UInt8)
  | ended
  | failed (error : E)
  | pending

namespace Pipe

variable {E : Type}

def empty : Pipe E := ⟨[], false, none⟩

def write (p : Pipe E) (bytes : List UInt8) : Pipe E := { p with written := p.written ++ bytes }

def finish (p : Pipe E) : Pipe E := { p with finished := true }

/-- Breaks the stream; the first reason stays. -/
def reset (p : Pipe E) (error : E) : Pipe E := { p with broken := p.broken <|> some error }

@[simp] theorem finished_write (p : Pipe E) (bytes : List UInt8) :
    (p.write bytes).finished = p.finished := rfl

@[simp] theorem written_finish (p : Pipe E) : p.finish.written = p.written := rfl

/-- One attempt to read at most `count + 1` bytes after those in `buf`, where no more than `limit`
bytes are wanted altogether. A broken stream may lose the bytes not read yet. -/
def read (p : Pipe E) (limit : Nat) (buf : List UInt8) (count : Nat) (lost : Bool) : Reading E :=
  if limit ≤ buf.length then .ended
  else
    match p.broken, lost with
    | some error, true => .failed error
    | broken, _ =>
      match (p.written.drop buf.length).take (min (count + 1) (limit - buf.length)) with
      | byte :: bytes => .more (buf ++ byte :: bytes)
      | [] =>
        if p.finished then .ended
        else
          match broken with
          | some error => .failed error
          | none => .pending

/-- What was read so far is the beginning of what was written, within the limit. -/
def Read (p : Pipe E) (limit : Nat) (buf : List UInt8) : Prop :=
  buf <+: p.written ∧ buf.length ≤ limit

variable {p : Pipe E} {limit count : Nat} {buf buf' : List UInt8} {lost : Bool}

theorem read_nil : p.Read limit [] := ⟨List.nil_prefix, Nat.zero_le _⟩

/-- All that an attempt to read can give. -/
theorem read_cases (p : Pipe E) (limit : Nat) (buf : List UInt8) (count : Nat) (lost : Bool) :
    (p.read limit buf count lost = .ended ∧
      (limit ≤ buf.length ∨ p.finished = true ∧ p.written.length ≤ buf.length)) ∨
    (∃ error, p.read limit buf count lost = .failed error ∧ p.broken = some error) ∨
    (∃ byte bytes, p.read limit buf count lost = .more (buf ++ byte :: bytes) ∧
      (p.written.drop buf.length).take (min (count + 1) (limit - buf.length)) = byte :: bytes) ∨
    (p.read limit buf count lost = .pending ∧ p.finished = false) := by
  unfold Pipe.read
  split
  · next hlimit => exact .inl ⟨rfl, .inl hlimit⟩
  · next hlimit =>
    split
    · next error hbroken => exact .inr (.inl ⟨error, rfl, hbroken⟩)
    · split
      · next byte bytes hbytes => exact .inr (.inr (.inl ⟨byte, bytes, rfl, hbytes⟩))
      · next hnone =>
        split
        · next hfinished =>
          refine .inl ⟨rfl, .inr ⟨hfinished, ?_⟩⟩
          have hlen := congrArg List.length hnone
          rw [List.length_take, List.length_drop, List.length_nil] at hlen
          omega
        · next hopen =>
          split
          · next error hbroken => exact .inr (.inl ⟨error, rfl, hbroken⟩)
          · exact .inr (.inr (.inr ⟨rfl, Bool.eq_false_iff.mpr hopen⟩))

theorem Read.more (h : p.Read limit buf) (hread : p.read limit buf count lost = .more buf') :
    p.Read limit buf' := by
  rcases p.read_cases limit buf count lost with ⟨hcase, -⟩ | ⟨_, hcase, -⟩ |
    ⟨byte, bytes, hcase, hbytes⟩ | ⟨hcase, -⟩
  · cases hcase.symm.trans hread
  · cases hcase.symm.trans hread
  · cases hcase.symm.trans hread
    rw [← hbytes]
    refine ⟨prefix_append_take_drop h.1 _, ?_⟩
    rw [List.length_append, List.length_take]
    have := h.2
    omega
  · cases hcase.symm.trans hread

theorem length_lt_of_more (hread : p.read limit buf count lost = .more buf') :
    buf.length < buf'.length := by
  rcases p.read_cases limit buf count lost with ⟨hcase, -⟩ | ⟨_, hcase, -⟩ |
    ⟨byte, bytes, hcase, -⟩ | ⟨hcase, -⟩
  · cases hcase.symm.trans hread
  · cases hcase.symm.trans hread
  · cases hcase.symm.trans hread
    simp
  · cases hcase.symm.trans hread

theorem read_ne_failed {error : E} (hbroken : p.broken = none) :
    p.read limit buf count lost ≠ .failed error := by
  intro hread
  rcases p.read_cases limit buf count lost with ⟨hcase, -⟩ | ⟨_, -, hsome⟩ |
    ⟨_, _, hcase, -⟩ | ⟨hcase, -⟩
  · cases hcase.symm.trans hread
  · cases hbroken.symm.trans hsome
  · cases hcase.symm.trans hread
  · cases hcase.symm.trans hread

theorem read_ne_pending (hfinished : p.finished = true) :
    p.read limit buf count lost ≠ .pending := by
  intro hread
  rcases p.read_cases limit buf count lost with ⟨hcase, -⟩ | ⟨_, hcase, -⟩ |
    ⟨_, _, hcase, -⟩ | ⟨-, hopen⟩
  · cases hcase.symm.trans hread
  · cases hcase.symm.trans hread
  · cases hcase.symm.trans hread
  · cases hfinished.symm.trans hopen

/-- Reading ends at the limit or at the end of a stream that was closed. -/
theorem Read.ended (h : p.Read limit buf) (hread : p.read limit buf count lost = .ended) :
    buf.length = limit ∨ p.finished = true ∧ buf = p.written := by
  rcases p.read_cases limit buf count lost with ⟨-, hend⟩ | ⟨_, hcase, -⟩ |
    ⟨_, _, hcase, -⟩ | ⟨hcase, -⟩
  · refine hend.imp (fun hlimit => Nat.le_antisymm h.2 hlimit) ?_
    rintro ⟨hfinished, hall⟩
    exact ⟨hfinished, h.1.eq_of_length_le hall⟩
  · cases hcase.symm.trans hread
  · cases hcase.symm.trans hread
  · cases hcase.symm.trans hread

end Pipe

end SqdNetwork.Core
