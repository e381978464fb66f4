import Mathlib.Algebra.Order.Ring.Nat
import Mathlib.Data.List.Basic

/-!
# Unambiguous concatenation

A message made of concatenated fields can be read back when every field but the
last marks its own end. Fields of one fixed length do, and so do fields preceded
by their length. Fields are then peeled off a message one by one.
-/

namespace SqdNetwork.Core

section SelfDelimiting

variable {α β σ : Type}

/-- Encodings of valid values mark their own end: what follows one is not confused with it. -/
def SelfDelimiting (valid : α → Prop) (encode : α → List σ) : Prop :=
  ∀ ⦃a b : α⦄, valid a → valid b → ∀ ⦃xs ys : List σ⦄, encode a ++ xs = encode b ++ ys →
    a = b ∧ xs = ys

variable {valid : α → Prop} {encode : α → List σ}

/-- An injective encoding of one length marks its own end. -/
theorem SelfDelimiting.of_length {n : Nat} (hlen : ∀ a, valid a → (encode a).length = n)
    (hinj : ∀ a b, valid a → valid b → encode a = encode b → a = b) :
    SelfDelimiting valid encode := by
  intro a b ha hb xs ys h
  obtain ⟨hencode, hrest⟩ := List.append_inj h ((hlen a ha).trans (hlen b hb).symm)
  exact ⟨hinj a b ha hb hencode, hrest⟩

/-- A sequence preceded by its length marks its own end. -/
theorem SelfDelimiting.lengthPrefixed {fits : Nat → Prop} {header : Nat → List σ}
    (h : SelfDelimiting fits header) :
    SelfDelimiting (fun s : List σ => fits s.length) fun s => header s.length ++ s := by
  intro a b ha hb xs ys he
  rw [List.append_assoc, List.append_assoc] at he
  obtain ⟨hlen, hrest⟩ := h ha hb he
  exact List.append_inj hrest hlen

/-- Encoding an injective image marks its own end. -/
theorem SelfDelimiting.comp (h : SelfDelimiting valid encode) {f : β → α}
    (hf : Function.Injective f) :
    SelfDelimiting (fun x => valid (f x)) fun x => encode (f x) := by
  intro x y hx hy xs ys he
  obtain ⟨hfxy, hrest⟩ := h hx hy he
  exact ⟨hf hfxy, hrest⟩

end SelfDelimiting

/-- A number as so many bytes, the least significant first. -/
def leBytes : Nat → Nat → List UInt8
  | 0, _ => []
  | k + 1, n => UInt8.ofNat (n % 256) :: leBytes k (n / 256)

@[simp] theorem length_leBytes (k n : Nat) : (leBytes k n).length = k := by
  induction k generalizing n with
  | zero => rfl
  | succ k ih => rw [leBytes, List.length_cons, ih]

/-- Numbers that fit are told apart by their bytes. -/
theorem leBytes_inj {k n m : Nat} (hn : n < 256 ^ k) (hm : m < 256 ^ k)
    (h : leBytes k n = leBytes k m) : n = m := by
  induction k generalizing n m with
  | zero =>
    rw [Nat.pow_zero] at hn hm
    omega
  | succ k ih =>
    rw [leBytes, leBytes, List.cons.injEq] at h
    have hhead : n % 256 = m % 256 := by
      have hbyte := congrArg UInt8.toNat h.1
      rwa [UInt8.toNat_ofNat_of_lt' (Nat.mod_lt n (by decide)),
        UInt8.toNat_ofNat_of_lt' (Nat.mod_lt m (by decide))] at hbyte
    rw [Nat.pow_succ] at hn hm
    have htail : n / 256 = m / 256 :=
      ih (Nat.div_lt_of_lt_mul (by omega)) (Nat.div_lt_of_lt_mul (by omega)) h.2
    omega

/-- A fixed number of bytes marks its own end. -/
theorem selfDelimiting_leBytes (k : Nat) : SelfDelimiting (· < 256 ^ k) (leBytes k) :=
  .of_length (fun n _ => length_leBytes k n) fun _ _ hn hm h => leBytes_inj hn hm h

end SqdNetwork.Core
