import SqdNetwork.Core.Outcome

/-!
# Compaction in place

A read cursor walks a sequence behind which a write cursor keeps the element in
hand. The element read is either merged into it or becomes the next one in hand.
What stands up to the write cursor at the end is what the same walk collects when it
reads the original sequence and writes elsewhere.
-/

namespace SqdNetwork.Core

variable {α : Type}

/-- Writing at a subscript, panicking outside the sequence. -/
def Exec.setIndex (xs : List α) (i : Nat) (x : α) : Exec (List α) :=
  if i < xs.length then .ok (xs.set i x) else .error .outOfRange

/-- One step of the walk: the sequence with the write cursor, and the read cursor. -/
def compactStep (step : α → α → Exec (Option α)) (s : List α × Nat) (i : Nat) :
    Exec (List α × Nat) := do
  let c ← Exec.index s.1 i
  let p ← Exec.index s.1 s.2
  match ← step p c with
  | none => do .ok (← Exec.setIndex s.1 (s.2 + 1) c, s.2 + 1)
  | some q => do .ok (← Exec.setIndex s.1 s.2 q, s.2)

/-- The walk without cursors: the element in hand and the elements to come. -/
def compact (step : α → α → Exec (Option α)) (p : α) : List α → Exec (List α)
  | [] => .ok [p]
  | c :: rest => do
    match ← step p c with
    | none => (p :: ·) <$> compact step c rest
    | some q => compact step q rest

/-- The walk when no step panics. -/
def coalesce (merge : α → α → Option α) (p : α) : List α → List α
  | [] => [p]
  | c :: rest =>
    match merge p c with
    | none => p :: coalesce merge c rest
    | some q => coalesce merge q rest

variable {step : α → α → Exec (Option α)}

/-- Writing right behind the elements already collected. -/
theorem Exec.setIndex_append (done tail : List α) (p q : α) :
    Exec.setIndex (done ++ p :: tail) done.length q = .ok (done ++ q :: tail) := by
  rw [Exec.setIndex, if_pos (by simp), List.set_append_right _ _ (Nat.le_refl _), Nat.sub_self]
  rfl

/-- Reading right behind the elements already collected. -/
theorem Exec.index_append (done tail : List α) (p : α) :
    Exec.index (done ++ p :: tail) done.length = .ok p := by
  apply Exec.index_eq_ok
  rw [List.getElem?_append_right (Nat.le_refl _), Nat.sub_self]
  rfl

/-- Writing an element that was read from beyond `junk` behind the element in hand. -/
theorem Exec.setIndex_behind (done junk rest : List α) (p c : α) :
    Exec.setIndex (done ++ p :: (junk ++ c :: rest)) (done.length + 1) c =
      .ok (done ++ [p] ++ c :: ((junk ++ [c]).tail ++ rest)) := by
  cases junk with
  | nil => simpa using Exec.setIndex_append (done ++ [p]) rest c c
  | cons j junk => simpa using Exec.setIndex_append (done ++ [p]) (junk ++ c :: rest) j c

/-- From any state of the walk, what ends up before the write cursor is what was collected, then
what the rest of the walk collects. Between the cursors stands what was read before. -/
theorem foldlM_compactStep (done junk rest : List α) (p : α) :
    ((List.range' (done.length + 1 + junk.length) rest.length).foldlM (compactStep step)
      (done ++ p :: (junk ++ rest), done.length) >>= fun s => .ok (s.1.take (s.2 + 1))) =
      (done ++ ·) <$> compact step p rest := by
  induction rest generalizing done junk p with
  | nil =>
    have htake : (done ++ p :: junk).take (done.length + 1) = done ++ [p] := by
      simp [List.take_append, List.take_of_length_le (Nat.le_succ done.length)]
    simpa [compact] using htake
  | cons c rest ih =>
    have hread : Exec.index (done ++ p :: (junk ++ c :: rest)) (done.length + 1 + junk.length) =
        .ok c := by
      have hindex := Exec.index_append (done ++ p :: junk) rest c
      rw [List.append_assoc, List.cons_append, List.length_append, List.length_cons,
        Nat.add_comm junk.length 1, ← Nat.add_assoc] at hindex
      exact hindex
    rw [List.length_cons, List.range'_succ, List.foldlM_cons, compact, compactStep, hread,
      Exec.ok_bind, Exec.index_append, Exec.ok_bind]
    cases hstep : step p c with
    | error panic => rfl
    | ok merged =>
      cases merged with
      | some q =>
        have hrest := ih done (junk ++ [c]) q
        rw [List.length_append, List.append_assoc] at hrest
        simp only [Exec.ok_bind, Exec.setIndex_append]
        exact hrest
      | none =>
        have hrest := ih (done ++ [p]) (junk ++ [c]).tail c
        have hlength : (done ++ [p]).length + 1 + (junk ++ [c]).tail.length =
            done.length + 1 + junk.length + 1 := by
          simp only [List.length_append, List.length_tail, List.length_singleton]
          omega
        rw [hlength, List.length_append, List.length_singleton] at hrest
        simp only [Exec.ok_bind, Exec.setIndex_behind]
        refine hrest.trans ?_
        cases compact step c rest with
        | error panic => rfl
        | ok collected => simp

/-- The walk in place collects what the walk without cursors does. -/
theorem compact_in_place (first : α) (rest : List α) :
    ((List.range' 1 rest.length).foldlM (compactStep step) (first :: rest, 0) >>=
      fun s => .ok (s.1.take (s.2 + 1))) = compact step first rest := by
  have h := @foldlM_compactStep α step [] [] rest first
  simpa using h

/-- After a merge all elements but the last are still good. -/
theorem forall_dropLast_merged {good : α → Prop} {p c q : α} {rest : List α}
    (hgood : ∀ r ∈ (p :: c :: rest).dropLast, good r) (hq : good p → good c → good q) :
    ∀ r ∈ (q :: rest).dropLast, good r := by
  cases rest with
  | nil => exact fun r hr => absurd hr List.not_mem_nil
  | cons d rest =>
    intro r hr
    rcases List.mem_cons.mp hr with rfl | hr
    · exact hq (hgood p List.mem_cons_self) (hgood c (List.mem_cons_of_mem _ List.mem_cons_self))
    · exact hgood r (List.mem_cons_of_mem _ (List.mem_cons_of_mem _ hr))

/-- Steps that return on good elements make the walk return, when all elements but the last are
good and merging keeps them so. -/
theorem compact_eq_coalesce {good : α → Prop} {merge : α → α → Option α}
    (hstep : ∀ p c, good p → step p c = .ok (merge p c))
    (hkeep : ∀ p c q, good p → good c → merge p c = some q → good q) {p : α} {rest : List α}
    (hgood : ∀ r ∈ (p :: rest).dropLast, good r) :
    compact step p rest = .ok (coalesce merge p rest) := by
  induction rest generalizing p with
  | nil => rfl
  | cons c rest ih =>
    have hp : good p := hgood p List.mem_cons_self
    rw [compact, coalesce, hstep p c hp, Exec.ok_bind]
    cases hmerge : merge p c with
    | none =>
      simp only [ih fun r hr => hgood r (List.mem_cons_of_mem _ hr), Exec.ok_map]
    | some q => exact ih (forall_dropLast_merged hgood fun hp hc => hkeep p c q hp hc hmerge)

end SqdNetwork.Core
