import Mathlib.Algebra.Order.Ring.Nat
import Mathlib.Data.List.Basic

/-!
# Checked execution

A function that may stop without returning is modelled in `Exec`: a subscript
past the end, an `expect` on an absent value, a failed assertion and a checked
arithmetic overflow are distinct panics. An error that the caller receives as a
value is not a panic and never appears here.
-/

namespace SqdNetwork.Core

/-- The ways an operation stops without returning to its caller. -/
inductive Panic where
  /-- A subscript at or past the end of a sequence. -/
  | outOfRange
  /-- An `expect` met an absent value. -/
  | expectFailed (message : String)
  /-- An assertion that stays in release builds did not hold. -/
  | assertFailed (message : String)
  /-- Checked integer arithmetic left its type. -/
  | overflow
  deriving DecidableEq, Repr

/-- How the program was compiled: debug builds check arithmetic and debug assertions. -/
inductive Profile where
  | debug
  | release
  deriving DecidableEq, Repr

/-- A computation that either returns a value or panics. -/
abbrev Exec (α : Type) := Except Panic α

namespace Exec

variable {α β : Type}

/-- Subscripting, panicking outside the sequence. -/
def index (xs : List α) (i : Nat) : Exec α :=
  match xs[i]? with
  | some x => .ok x
  | none => .error .outOfRange

/-- The elements from an index on, panicking past the end. -/
def sliceFrom (xs : List α) (i : Nat) : Exec (List α) :=
  if i ≤ xs.length then .ok (xs.drop i) else .error .outOfRange

/-- Unwrapping an optional value with the message of its panic. -/
def expect (message : String) : Option α → Exec α
  | some x => .ok x
  | none => .error (.expectFailed message)

/-- Asserting a decidable condition. -/
def assert (message : String) (condition : Bool) : Exec Unit :=
  if condition then .ok () else .error (.assertFailed message)

/-- An assertion that only debug builds evaluate. -/
def debugAssert (profile : Profile) (message : String) (condition : Bool) : Exec Unit :=
  if profile = .debug then assert message condition else .ok ()

/-- Addition that panics on overflow in debug builds and wraps in release builds. -/
def addU64 (profile : Profile) (a b : UInt64) : Exec UInt64 :=
  if profile = .debug ∧ 2 ^ 64 ≤ a.toNat + b.toNat then .error .overflow else .ok (a + b)

/-- Addition on 32 bits, checked in debug builds and wrapping in release builds. -/
def addU32 (profile : Profile) (a b : UInt32) : Exec UInt32 :=
  if profile = .debug ∧ 2 ^ 32 ≤ a.toNat + b.toNat then .error .overflow else .ok (a + b)

/-- Subtraction that panics below zero in debug builds and wraps in release builds. -/
def subU64 (profile : Profile) (a b : UInt64) : Exec UInt64 :=
  if profile = .debug ∧ a < b then .error .overflow else .ok (a - b)

/-- The result of arithmetic on unsigned words of `bits + 1` bits: exact when it fits, else a panic
in debug builds and the low bits in release builds. -/
def unsigned (bits : Nat) (profile : Profile) (x : Int) : Exec Nat :=
  if 0 ≤ x ∧ x < 2 ^ (bits + 1) then .ok x.toNat
  else if profile = .debug then .error .overflow else .ok (x % 2 ^ (bits + 1)).toNat

/-- The result of arithmetic on signed words of `bits + 1` bits, in two's complement. -/
def signed (bits : Nat) (profile : Profile) (x : Int) : Exec Int :=
  if -2 ^ bits ≤ x ∧ x < 2 ^ bits then .ok x
  else if profile = .debug then .error .overflow else .ok (x.bmod (2 ^ (bits + 1)))

/-- The cast from signed to unsigned words. -/
def asUnsigned (bits : Nat) (x : Int) : Nat := (x % 2 ^ (bits + 1)).toNat

/-- The cast from unsigned to signed words. -/
def asSigned (bits : Nat) (x : Nat) : Int := Int.bmod x (2 ^ (bits + 1))

/-- Conversion to 32 bits, absent when the value does not fit. -/
def tryIntoU32 (n : Nat) : Option UInt32 :=
  if n < 2 ^ 32 then some (UInt32.ofNat n) else none

/-- Whether the computation returns a value that passes a test. -/
def passes (x : Exec α) (test : α → Bool) : Bool :=
  match x with
  | .ok a => test a
  | .error _ => false

/-- The computation returns: it does not panic. -/
def Returns (x : Exec α) : Prop := ∃ a, x = .ok a

/-- A subscript inside the sequence reads the stored element. -/
theorem index_eq_ok {xs : List α} {i : Nat} {x : α} (h : xs[i]? = some x) :
    index xs i = .ok x := by
  simp only [index, h]

theorem getElem?_of_index {xs : List α} {i : Nat} {x : α} (h : index xs i = .ok x) :
    xs[i]? = some x := by
  unfold index at h
  cases hget : xs[i]? with
  | none =>
    rw [hget] at h
    cases h
  | some y =>
    rw [hget] at h
    rw [Except.ok.inj h]

theorem index_of_lt {xs : List α} {i : Nat} (h : i < xs.length) : index xs i = .ok xs[i] :=
  index_eq_ok (List.getElem?_eq_getElem h)

theorem index_returns {xs : List α} {i : Nat} (h : i < xs.length) : Returns (index xs i) :=
  ⟨xs[i], index_of_lt h⟩

@[simp] theorem expect_some (message : String) (x : α) : expect message (some x) = .ok x := rfl

/-- An `expect` that returns met the value it returns. -/
theorem expect_eq_ok {message : String} {o : Option α} {x : α} (h : expect message o = .ok x) :
    o = some x := by
  cases o with
  | none => exact absurd h (by simp [expect])
  | some y => rw [Except.ok.inj h]

/-- An addition that stays within 64 bits is exact. -/
theorem toNat_of_addU64 {profile : Profile} {a b c : UInt64} (h : addU64 profile a b = .ok c)
    (hfits : a.toNat + b.toNat < 2 ^ 64) : c.toNat = a.toNat + b.toNat := by
  unfold addU64 at h
  split at h
  · cases h
  · cases h
    rw [UInt64.toNat_add, Nat.mod_eq_of_lt hfits]

theorem returns_addU64 {profile : Profile} {a b : UInt64} (hfits : a.toNat + b.toNat < 2 ^ 64) :
    Returns (addU64 profile a b) :=
  ⟨a + b, if_neg fun h => absurd h.2 (Nat.not_le.mpr hfits)⟩

/-- An addition that stays within 32 bits is exact. -/
theorem toNat_of_addU32 {profile : Profile} {a b c : UInt32} (h : addU32 profile a b = .ok c)
    (hfits : a.toNat + b.toNat < 2 ^ 32) : c.toNat = a.toNat + b.toNat := by
  unfold addU32 at h
  split at h
  · cases h
  · cases h
    rw [UInt32.toNat_add, Nat.mod_eq_of_lt hfits]

/-- An addition returns in release builds, and in debug builds when it stays within 32 bits. -/
theorem returns_addU32 {profile : Profile} {a b : UInt32}
    (h : profile = .release ∨ a.toNat + b.toNat < 2 ^ 32) : Returns (addU32 profile a b) := by
  refine ⟨a + b, if_neg ?_⟩
  rintro ⟨rfl, hover⟩
  rcases h with h | h
  · cases h
  · omega

/-- A subtraction that stays non-negative never panics. -/
theorem subU64_eq_ok {profile : Profile} {a b : UInt64} (h : b ≤ a) :
    subU64 profile a b = .ok (a - b) :=
  if_neg fun hc => absurd hc.2 (UInt64.not_lt.mpr h)

theorem unsigned_of_fits {bits : Nat} {profile : Profile} {x : Int} (hlow : 0 ≤ x)
    (hhigh : x < 2 ^ (bits + 1)) : unsigned bits profile x = .ok x.toNat :=
  if_pos ⟨hlow, hhigh⟩

theorem signed_of_fits {bits : Nat} {profile : Profile} {x : Int} (hlow : -2 ^ bits ≤ x)
    (hhigh : x < 2 ^ bits) : signed bits profile x = .ok x :=
  if_pos ⟨hlow, hhigh⟩

theorem asUnsigned_of_fits {bits : Nat} {x : Int} (hlow : 0 ≤ x) (hhigh : x < 2 ^ (bits + 1)) :
    asUnsigned bits x = x.toNat := by
  rw [asUnsigned, Int.emod_eq_of_lt hlow hhigh]

theorem asSigned_of_fits {bits x : Nat} (h : x < 2 ^ bits) : asSigned bits x = x := by
  refine Int.bmod_eq_of_le ?_ ?_ <;>
  · rw [Nat.pow_succ]
    omega

/-- A converted value is the value. -/
theorem tryIntoU32_eq_some {n : Nat} {x : UInt32} (h : tryIntoU32 n = some x) : x.toNat = n := by
  unfold tryIntoU32 at h
  split at h
  · next hlt =>
    rw [← Option.some.inj h]
    exact UInt32.toNat_ofNat_of_lt hlt
  · exact absurd h (by simp)

theorem tryIntoU32_eq_none {n : Nat} (h : tryIntoU32 n = none) : 2 ^ 32 ≤ n := by
  unfold tryIntoU32 at h
  split at h
  · exact absurd h (by simp)
  · omega

@[simp] theorem ok_bind (a : α) (f : α → Exec β) : (Except.ok a >>= f : Exec β) = f a := rfl

@[simp] theorem error_bind (p : Panic) (f : α → Exec β) :
    (Except.error p >>= f : Exec β) = .error p := rfl

@[simp] theorem ok_map (f : α → β) (a : α) : (f <$> (Except.ok a : Exec α)) = .ok (f a) := rfl

/-- A sequential composition that returns splits into its two returning parts. -/
theorem bind_eq_ok {x : Exec α} {f : α → Exec β} {b : β} :
    (x >>= f) = .ok b ↔ ∃ a, x = .ok a ∧ f a = .ok b := by
  cases x with
  | ok a => simp
  | error p => simp

@[simp] theorem returns_ok (a : α) : Returns (Except.ok a : Exec α) := ⟨a, rfl⟩

@[simp] theorem returns_pure (a : α) : Returns (pure a : Exec α) := ⟨a, rfl⟩

/-- Returning is closed under sequencing. -/
theorem Returns.bind {x : Exec α} {f : α → Exec β} (hx : Returns x)
    (hf : ∀ a, x = .ok a → Returns (f a)) : Returns (x >>= f) := by
  obtain ⟨a, rfl⟩ := hx
  exact hf a rfl

/-- A computation that passes a test returns a value that does. -/
theorem exists_of_passes {x : Exec α} {test : α → Bool} (h : x.passes test = true) :
    ∃ a, x = .ok a ∧ test a = true := by
  cases x with
  | ok a => exact ⟨a, rfl, h⟩
  | error p => exact absurd h (by simp [passes])

/-- A result with a value is an accepted one. -/
theorem exists_of_isSome {ε : Type} {x : Except ε α} (h : x.toOption.isSome = true) :
    ∃ a, x = .ok a := by
  cases x with
  | ok a => exact ⟨a, rfl⟩
  | error e => exact absurd h (by simp [Except.toOption])

/-- A result that passes a test is an accepted one that does. -/
theorem exists_of_any {ε : Type} {x : Except ε α} {test : α → Bool}
    (h : x.toOption.any test = true) : ∃ a, x = .ok a ∧ test a = true := by
  cases x with
  | ok a => exact ⟨a, rfl, h⟩
  | error e => exact absurd h (by simp [Except.toOption])

theorem Returns.map {x : Exec α} (hx : Returns x) (f : α → β) : Returns (f <$> x) := by
  obtain ⟨a, rfl⟩ := hx
  exact ⟨f a, rfl⟩

/-- A mapped computation returns only if the computation does. -/
theorem Returns.of_map {x : Exec α} {f : α → β} (h : Returns (f <$> x)) : Returns x := by
  cases x with
  | ok a => exact ⟨a, rfl⟩
  | error p =>
    obtain ⟨b, hb⟩ := h
    cases hb

/-- A traversal returns when every visited element does. -/
theorem returns_mapM {f : α → Exec β} (xs : List α) (h : ∀ x ∈ xs, Returns (f x)) :
    Returns (xs.mapM f) := by
  induction xs with
  | nil => exact ⟨[], rfl⟩
  | cons x xs ih =>
    rw [List.mapM_cons]
    refine (h x List.mem_cons_self).bind fun b _ => ?_
    exact (ih fun y hy => h y (List.mem_cons_of_mem _ hy)).bind fun bs _ => ⟨b :: bs, rfl⟩

/-- A search returns when every visited element does. -/
theorem returns_anyM {f : α → Exec Bool} (xs : List α) (h : ∀ x ∈ xs, Returns (f x)) :
    Returns (xs.anyM f) := by
  induction xs with
  | nil => exact ⟨false, rfl⟩
  | cons x xs ih =>
    rw [List.anyM]
    refine (h x List.mem_cons_self).bind fun b _ => ?_
    cases b with
    | true => exact ⟨true, rfl⟩
    | false => exact ih fun y hy => h y (List.mem_cons_of_mem _ hy)

/-- A selection returns when every visited element does. -/
theorem returns_filterM {f : α → Exec Bool} (xs : List α) (h : ∀ x ∈ xs, Returns (f x)) :
    Returns (xs.filterM f) := by
  have haux : ∀ kept, Returns (List.filterAuxM f xs kept) := by
    induction xs with
    | nil => exact fun kept => ⟨kept, rfl⟩
    | cons x xs ih =>
      intro kept
      rw [List.filterAuxM]
      refine (h x List.mem_cons_self).bind fun b _ => ?_
      exact ih (fun y hy => h y (List.mem_cons_of_mem _ hy)) _
  exact (haux []).bind fun kept _ => ⟨kept.reverse, rfl⟩

/-- A traversal whose visits return is a map. -/
theorem mapM_eq_ok {f : α → Exec β} {g : α → β} {xs : List α} (h : ∀ x ∈ xs, f x = .ok (g x)) :
    xs.mapM f = .ok (xs.map g) := by
  induction xs with
  | nil => rfl
  | cons x xs ih =>
    rw [List.mapM_cons, h x List.mem_cons_self, ok_bind,
      ih fun y hy => h y (List.mem_cons_of_mem _ hy)]
    rfl

/-- A selection whose tests return is a filter. -/
theorem filterM_eq_ok {f : α → Exec Bool} {p : α → Bool} {xs : List α}
    (h : ∀ x ∈ xs, f x = .ok (p x)) : xs.filterM f = .ok (xs.filter p) := by
  have haux : ∀ kept, List.filterAuxM f xs kept = .ok ((xs.filter p).reverse ++ kept) := by
    induction xs with
    | nil => exact fun kept => rfl
    | cons x xs ih =>
      intro kept
      rw [List.filterAuxM, h x List.mem_cons_self, ok_bind,
        ih fun y hy => h y (List.mem_cons_of_mem _ hy)]
      cases hx : p x <;> simp [hx]
  rw [List.filterM, haux []]
  simp

/-- Searching values as they are read finds what searching the values read finds. -/
theorem anyM_of_mapM {f : α → Exec β} {p : β → Bool} {xs : List α} {ys : List β}
    (h : xs.mapM f = .ok ys) :
    (xs.anyM fun x => do .ok (p (← f x)) : Exec Bool) = .ok (ys.any p) := by
  induction xs generalizing ys with
  | nil =>
    cases h
    rfl
  | cons x xs ih =>
    rw [List.mapM_cons] at h
    obtain ⟨y, hy, h⟩ := bind_eq_ok.mp h
    obtain ⟨rest, hrest, h⟩ := bind_eq_ok.mp h
    cases h
    rw [List.anyM, hy, List.any_cons]
    cases hp : p y with
    | true =>
      simp only [ok_bind, hp]
      rfl
    | false => simpa [hp] using ih hrest

end Exec

/-- The greater of two numbers, the second of equal ones. -/
def maxU64 (a b : UInt64) : UInt64 := if b < a then a else b

theorem left_le_maxU64 (a b : UInt64) : a ≤ maxU64 a b := by
  unfold maxU64
  split
  · exact UInt64.le_refl a
  · next h => exact UInt64.not_lt.mp h

theorem right_le_maxU64 (a b : UInt64) : b ≤ maxU64 a b := by
  unfold maxU64
  split
  · next h => exact UInt64.le_of_lt h
  · exact UInt64.le_refl b

/-- A loop of checks succeeds when every check does. -/
theorem forM_eq_ok {ε α : Type} {check : α → Except ε Unit} {xs : List α} :
    xs.forM check = .ok () ↔ ∀ x ∈ xs, check x = .ok () := by
  induction xs with
  | nil => simp [pure, Except.pure]
  | cons x xs ih =>
    rw [List.forall_mem_cons, ← ih]
    change (check x >>= fun _ => xs.forM check) = .ok () ↔ _
    cases check x with
    | error e => simp [bind, Except.bind]
    | ok u => simp [bind, Except.bind]

end SqdNetwork.Core
