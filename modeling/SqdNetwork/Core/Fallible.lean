import SqdNetwork.Core.Outcome

/-!
# Computations that return errors

A function that hands an error to its caller, or panics on the way, is modelled in
`Fallible`. Whether a computation gives a value is decided step by step: a sequence
gives one exactly when every step does.
-/

namespace SqdNetwork.Core

/-- A computation that returns a value or an error, or panics. -/
structure Fallible (ε α : Type) where
  run : Exec (Except ε α)

namespace Fallible

variable {ε ε' α β S : Type}

/-- Return an error. -/
def fail (e : ε) : Fallible ε α := ⟨.ok (.error e)⟩

/-- Go on with the value, unless there is an error. -/
def andThen (x : Fallible ε α) (f : α → Fallible ε β) : Fallible ε β where
  run := do
    match ← x.run with
    | .error e => .ok (.error e)
    | .ok a => (f a).run

instance : Monad (Fallible ε) where
  pure a := ⟨.ok (.ok a)⟩
  bind := andThen

instance : MonadLift Exec (Fallible ε) where
  monadLift x := ⟨Except.ok <$> x⟩

/-- The value of an option, or else the error. -/
def context (e : ε) : Option α → Fallible ε α
  | some a => pure a
  | none => fail e

/-- Nothing when the condition holds, or else the error. -/
def ensure (condition : Bool) (e : ε) : Fallible ε Unit :=
  if condition then pure () else fail e

/-- Whether the computation returns the expected value. -/
def equals [DecidableEq α] (x : Fallible ε α) (expected : α) : Fallible ε Bool := do
  pure (decide ((← x) = expected))

/-- A result whose error is converted. -/
def convert (f : ε' → ε) : Except ε' α → Fallible ε α
  | .ok a => pure a
  | .error e => fail (f e)

/-- The computation returns this value. -/
def Gives (x : Fallible ε α) (a : α) : Prop := x.run = .ok (.ok a)

theorem Gives.unique {x : Fallible ε α} {a b : α} (ha : Gives x a) (hb : Gives x b) : a = b :=
  Except.ok.inj (Except.ok.inj (ha.symm.trans hb))

theorem gives_pure {a b : α} : Gives (pure a : Fallible ε α) b ↔ a = b := by
  change (Except.ok (Except.ok a) : Exec (Except ε α)) = .ok (.ok b) ↔ _
  simp

theorem not_gives_fail {e : ε} {a : α} : ¬Gives (fail e : Fallible ε α) a := by
  intro h
  cases h

/-- A sequence gives a value exactly when its two parts do. -/
theorem gives_bind {x : Fallible ε α} {f : α → Fallible ε β} {b : β} :
    Gives (x >>= f) b ↔ ∃ a, Gives x a ∧ Gives (f a) b := by
  change (andThen x f).run = .ok (.ok b) ↔ _
  unfold Gives andThen
  cases x.run with
  | error p => simp
  | ok r =>
    cases r with
    | error e => simp
    | ok a => simp

/-- A step that gives its value leaves the rest of the sequence. -/
theorem Gives.bind_iff {x : Fallible ε α} {f : α → Fallible ε β} {a : α} {b : β} (hx : Gives x a) :
    Gives (x >>= f) b ↔ Gives (f a) b := by
  rw [gives_bind]
  refine ⟨?_, fun h => ⟨a, hx, h⟩⟩
  rintro ⟨a', hx', h⟩
  rwa [hx.unique hx']

/-- A computation without errors gives the value that it returns. -/
theorem gives_lift {x : Exec α} {a : α} : Gives (liftM x : Fallible ε α) a ↔ x = .ok a := by
  change (Except.ok <$> x : Exec (Except ε α)) = .ok (.ok a) ↔ _
  cases x with
  | error p => exact iff_of_false (fun h => by cases h) (fun h => by cases h)
  | ok y => simp

theorem gives_context {e : ε} {o : Option α} {a : α} : Gives (context e o) a ↔ o = some a := by
  cases o with
  | none => exact iff_of_false not_gives_fail (by simp)
  | some b => exact gives_pure.trans (by simp)

theorem gives_ensure {condition : Bool} {e : ε} {u : Unit} :
    Gives (ensure condition e) u ↔ condition = true := by
  cases condition with
  | false => exact iff_of_false not_gives_fail (by simp)
  | true => exact gives_pure.trans (by simp)

/-- A condition that holds leaves the rest of the sequence. -/
theorem ensure_bind_iff {condition : Bool} {e : ε} {f : Unit → Fallible ε β} {b : β}
    (h : condition = true) : Gives (ensure condition e >>= f) b ↔ Gives (f ()) b :=
  Gives.bind_iff (gives_ensure.mpr h)

theorem gives_equals [DecidableEq α] {x : Fallible ε α} {expected : α} :
    Gives (x.equals expected) true ↔ Gives x expected := by
  refine gives_bind.trans ⟨?_, fun h => ⟨expected, h, gives_pure.mpr (decide_eq_true rfl)⟩⟩
  rintro ⟨a, ha, h⟩
  rwa [← of_decide_eq_true (gives_pure.mp h)]

theorem gives_convert {f : ε' → ε} {r : Except ε' α} {a : α} :
    Gives (convert f r) a ↔ r = .ok a := by
  cases r with
  | error e => exact iff_of_false not_gives_fail (by simp)
  | ok b => exact gives_pure.trans (by simp)

/-- What a computation without errors returns is found equal. -/
theorem equals_of_eq [DecidableEq α] {x : Exec α} {a : α} (h : x = .ok a) :
    Gives (equals (liftM x : Fallible ε α) a) true :=
  gives_equals.mpr (gives_lift.mpr h)

/-- A check cut short gives `true` exactly when both parts do. -/
theorem gives_andM {x y : Fallible ε Bool} :
    Gives (x <&&> y) true ↔ Gives x true ∧ Gives y true := by
  refine gives_bind.trans ?_
  constructor
  · rintro ⟨b, hx, h⟩
    cases b with
    | false => exact absurd (gives_pure.mp h) (by simp)
    | true => exact ⟨hx, h⟩
  · rintro ⟨hx, hy⟩
    exact ⟨true, hx, hy⟩

theorem gives_forM {f : α → Fallible ε Unit} {xs : List α} :
    Gives (xs.forM f) () ↔ ∀ x ∈ xs, Gives (f x) () := by
  induction xs with
  | nil => exact iff_of_true (gives_pure.mpr rfl) (by simp)
  | cons x xs ih =>
    rw [List.forall_mem_cons, ← ih]
    refine gives_bind.trans ⟨?_, fun h => ⟨(), h⟩⟩
    rintro ⟨⟨⟩, h⟩
    exact h

theorem gives_foldlM_nil {f : S → α → Fallible ε S} {s s' : S} :
    Gives (([] : List α).foldlM f s) s' ↔ s = s' :=
  gives_pure

theorem gives_foldlM_cons {f : S → α → Fallible ε S} {x : α} {xs : List α} {s s' : S} :
    Gives ((x :: xs).foldlM f s) s' ↔ ∃ mid, Gives (f s x) mid ∧ Gives (xs.foldlM f mid) s' := by
  rw [List.foldlM_cons]
  exact gives_bind

section Loops

variable (I : Nat → S → Prop) {s s' : S}

/-- A loop gives a state when every round does, given what holds at its position, and makes that
hold at the next. -/
theorem foldlM_gives (f : S → α → Fallible ε S) (xs : List α)
    (hround : ∀ i x s, xs[i]? = some x → I i s → ∃ s', Gives (f s x) s' ∧ I (i + 1) s')
    (h : I 0 s) : ∃ s', Gives (xs.foldlM f s) s' ∧ I xs.length s' := by
  induction xs generalizing s I with
  | nil => exact ⟨s, gives_foldlM_nil.mpr rfl, h⟩
  | cons x xs ih =>
    obtain ⟨mid, hmid, hnext⟩ := hround 0 x s rfl h
    obtain ⟨s', hs', hlast⟩ := ih (fun i => I (i + 1))
      (fun i y t hy ht => hround (i + 1) y t hy ht) hnext
    exact ⟨s', gives_foldlM_cons.mpr ⟨mid, hmid, hs'⟩, hlast⟩

/-- What every round that gives a state makes hold at the next position holds after the loop. -/
theorem Gives.foldlM {f : S → α → Fallible ε S} {xs : List α} (h : Gives (xs.foldlM f s) s')
    (hround : ∀ i x s s', xs[i]? = some x → I i s → Gives (f s x) s' → I (i + 1) s')
    (h0 : I 0 s) : I xs.length s' := by
  induction xs generalizing s I with
  | nil =>
    obtain rfl := gives_foldlM_nil.mp h
    exact h0
  | cons x xs ih =>
    obtain ⟨mid, hmid, hrest⟩ := gives_foldlM_cons.mp h
    exact ih (fun i => I (i + 1)) hrest (fun i y t t' hy ht => hround (i + 1) y t t' hy ht)
      (hround 0 x s mid rfl h0 hmid)

theorem getElem?_zipIdx_eq_some {xs : List α} {i : Nat} {entry : α × Nat}
    (h : xs.zipIdx[i]? = some entry) : xs[i]? = some entry.1 ∧ entry.2 = i := by
  rw [List.getElem?_zipIdx, Nat.zero_add] at h
  obtain ⟨x, hx, rfl⟩ := Option.map_eq_some_iff.mp h
  exact ⟨hx, rfl⟩

/-- A loop over enumerated items. -/
theorem foldlM_zipIdx_gives (f : S → α × Nat → Fallible ε S) (xs : List α)
    (hround : ∀ i x s, xs[i]? = some x → I i s → ∃ s', Gives (f s (x, i)) s' ∧ I (i + 1) s')
    (h : I 0 s) : ∃ s', Gives (xs.zipIdx.foldlM f s) s' ∧ I xs.length s' := by
  obtain ⟨s', hs', hlast⟩ := foldlM_gives I f xs.zipIdx (fun i entry s hi hs => by
    obtain ⟨hx, rfl⟩ := getElem?_zipIdx_eq_some hi
    exact hround _ entry.1 s hx hs) h
  exact ⟨s', hs', by rwa [List.length_zipIdx] at hlast⟩

theorem Gives.foldlM_zipIdx {f : S → α × Nat → Fallible ε S} {xs : List α}
    (h : Gives (xs.zipIdx.foldlM f s) s')
    (hround : ∀ i x s s', xs[i]? = some x → I i s → Gives (f s (x, i)) s' → I (i + 1) s')
    (h0 : I 0 s) : I xs.length s' := by
  have hlast := h.foldlM I (fun i entry s s' hi hs hgives => by
    obtain ⟨hx, rfl⟩ := getElem?_zipIdx_eq_some hi
    exact hround _ entry.1 s s' hx hs hgives) h0
  rwa [List.length_zipIdx] at hlast

/-- A loop over numbers. -/
theorem foldlM_range_gives (f : S → Nat → Fallible ε S) (n : Nat)
    (hround : ∀ i s, i < n → I i s → ∃ s', Gives (f s i) s' ∧ I (i + 1) s') (h : I 0 s) :
    ∃ s', Gives ((List.range n).foldlM f s) s' ∧ I n s' := by
  obtain ⟨s', hs', hlast⟩ := foldlM_gives I f (List.range n) (fun i x s hi hs => by
    obtain ⟨hlt, rfl⟩ := List.getElem?_eq_some_iff.mp hi
    rw [List.length_range] at hlt
    rw [List.getElem_range]
    exact hround i s hlt hs) h
  exact ⟨s', hs', by rwa [List.length_range] at hlast⟩

end Loops

end Fallible

end SqdNetwork.Core
