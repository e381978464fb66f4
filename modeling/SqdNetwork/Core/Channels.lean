import Mathlib.Algebra.BigOperators.Group.Finset.Basic
import Mathlib.Logic.Function.Basic

/-!
# Channels

Channels are numbered as they are made. A channel holds its messages for as long
as its receiver is alive; once the receiver is gone, nothing can be sent.
-/

namespace SqdNetwork.Core

/-- A change in one place changes a sum by what changes in that place. -/
theorem sum_range_add_of_others {f g : Nat → Nat} {k n : Nat} (hlt : k < n)
    (hothers : ∀ o, o ≠ k → g o = f o) :
    ∑ o ∈ Finset.range n, g o + f k = ∑ o ∈ Finset.range n, f o + g k := by
  have hmem := Finset.mem_range.mpr hlt
  have hrest : ∑ o ∈ (Finset.range n).erase k, g o = ∑ o ∈ (Finset.range n).erase k, f o :=
    Finset.sum_congr rfl fun o ho => hothers o (Finset.ne_of_mem_erase ho)
  rw [← Finset.add_sum_erase _ _ hmem, ← Finset.add_sum_erase _ f hmem, hrest]
  omega

/-- The channels made so far. -/
structure Channels (M : Type) where
  made : Nat
  /-- The messages sent and not yet received, if the receiver is alive. -/
  content : Nat → Option (List M)

namespace Channels

variable {M : Type}

/-- No channel has been made. -/
def empty : Channels M := ⟨0, fun _ => none⟩

/-- The messages waiting in a channel. -/
def messages (c : Channels M) (channel : Nat) : List M := (c.content channel).getD []

/-- The receiver of the channel is alive. -/
def Open (c : Channels M) (channel : Nat) : Prop := (c.content channel).isSome

/-- The number of the channel made next. -/
def fresh (c : Channels M) : Nat := c.made

/-- Makes a channel, whose number is `fresh`. -/
def create (c : Channels M) : Channels M :=
  ⟨c.made + 1, Function.update c.content c.made (some [])⟩

/-- Sends a message, unless the receiver is gone. -/
def send (c : Channels M) (channel : Nat) (m : M) : Option (Channels M) :=
  (c.content channel).map fun waiting =>
    { c with content := Function.update c.content channel (some (waiting ++ [m])) }

/-- The receiver takes the oldest message. -/
def receive (c : Channels M) (channel : Nat) : Channels M :=
  { c with content := Function.update c.content channel ((c.content channel).map List.tail) }

/-- Drops the receiver. -/
def close (c : Channels M) (channel : Nat) : Channels M :=
  { c with content := Function.update c.content channel none }

/-- A channel with a message in it is open. -/
theorem open_of_mem_messages {c : Channels M} {channel : Nat} {m : M}
    (h : m ∈ c.messages channel) : c.Open channel := by
  cases hcontent : c.content channel with
  | none => simp [messages, hcontent] at h
  | some waiting => simp [Open, hcontent]

@[simp] theorem not_open_empty (channel : Nat) : ¬ (empty : Channels M).Open channel := by
  simp [Open, empty]

theorem open_create {c : Channels M} {channel : Nat} :
    c.create.Open channel ↔ channel = c.fresh ∨ c.Open channel := by
  by_cases h : channel = c.made <;> simp [Open, create, fresh, h]

/-- Sending leaves every channel as open as it was. -/
theorem open_send {c c' : Channels M} {target : Nat} {m : M} (h : c.send target m = some c')
    {channel : Nat} : c'.Open channel ↔ c.Open channel := by
  obtain ⟨waiting, hwaiting, rfl⟩ := Option.map_eq_some_iff.mp h
  by_cases heq : channel = target
  · subst heq
    simp [Open, hwaiting]
  · simp [Open, heq]

theorem open_receive {c : Channels M} {target channel : Nat} :
    (c.receive target).Open channel ↔ c.Open channel := by
  by_cases heq : channel = target
  · subst heq
    simp [Open, receive]
  · simp [Open, receive, heq]

theorem open_close {c : Channels M} {target channel : Nat} :
    (c.close target).Open channel ↔ channel ≠ target ∧ c.Open channel := by
  by_cases heq : channel = target <;> simp [Open, close, heq]

/-- What waits in a channel after a message was sent. -/
theorem mem_messages_send {c c' : Channels M} {target channel : Nat} {x m : M}
    (h : c.send target x = some c') (hm : m ∈ c'.messages channel) :
    m ∈ c.messages channel ∨ channel = target ∧ m = x := by
  obtain ⟨waiting, hwaiting, rfl⟩ := Option.map_eq_some_iff.mp h
  by_cases heq : channel = target
  · subst heq
    simp only [messages, Function.update_self, Option.getD_some, List.mem_append,
      List.mem_singleton] at hm
    rcases hm with hm | hm
    · exact .inl (by rwa [messages, hwaiting])
    · exact .inr ⟨rfl, hm⟩
  · exact .inl (by simpa [messages, heq] using hm)

theorem mem_messages_receive {c : Channels M} {target channel : Nat} {m : M}
    (hm : m ∈ (c.receive target).messages channel) : m ∈ c.messages channel := by
  by_cases heq : channel = target
  · subst heq
    cases hcontent : c.content channel with
    | none => simp [messages, receive, hcontent] at hm
    | some waiting =>
      simp only [messages, receive, Function.update_self, hcontent, Option.map_some,
        Option.getD_some] at hm ⊢
      exact List.mem_of_mem_tail hm
  · simpa [messages, receive, heq] using hm

theorem mem_messages_close {c : Channels M} {target channel : Nat} {m : M}
    (hm : m ∈ (c.close target).messages channel) : m ∈ c.messages channel := by
  by_cases heq : channel = target
  · subst heq
    simp [messages, close] at hm
  · simpa [messages, close, heq] using hm

theorem mem_messages_create {c : Channels M} {channel : Nat} {m : M}
    (hm : m ∈ c.create.messages channel) : m ∈ c.messages channel := by
  by_cases heq : channel = c.made
  · subst heq
    simp [messages, create] at hm
  · simpa [messages, create, heq] using hm

/-- A channel that is not made yet is not open. -/
def Numbered (c : Channels M) : Prop := ∀ channel, c.made ≤ channel → c.content channel = none

theorem numbered_empty : (empty : Channels M).Numbered := fun _ _ => rfl

theorem Numbered.create {c : Channels M} (hc : c.Numbered) : c.create.Numbered := by
  intro channel hmade
  have hne : channel ≠ c.made := by
    rintro rfl
    exact absurd hmade (Nat.not_succ_le_self _)
  exact (Function.update_of_ne hne _ _).trans (hc channel (Nat.le_of_succ_le hmade))

/-- An open channel has a number already made. -/
theorem Numbered.lt_made {c : Channels M} (hc : c.Numbered) {channel : Nat}
    (h : c.Open channel) : channel < c.made := by
  by_contra hge
  rw [Open, hc channel (Nat.le_of_not_lt hge)] at h
  cases h

/-- Opening no channel keeps the numbering. -/
theorem Numbered.of_open {c c' : Channels M} (hc : c.Numbered) (hmade : c'.made = c.made)
    (hopen : ∀ channel, c'.Open channel → c.Open channel) : c'.Numbered := by
  intro channel hle
  by_contra hsome
  have hlt := hc.lt_made (hopen channel (Option.isSome_iff_ne_none.mpr hsome))
  rw [hmade] at hle
  exact absurd hlt (Nat.not_lt.mpr hle)

theorem made_send {c c' : Channels M} {target : Nat} {m : M} (h : c.send target m = some c') :
    c'.made = c.made := by
  obtain ⟨waiting, -, rfl⟩ := Option.map_eq_some_iff.mp h
  rfl

theorem Numbered.send {c c' : Channels M} (hc : c.Numbered) {target : Nat} {m : M}
    (h : c.send target m = some c') : c'.Numbered :=
  hc.of_open (made_send h) fun _ => (open_send h).mp

theorem Numbered.receive {c : Channels M} (hc : c.Numbered) (target : Nat) :
    (c.receive target).Numbered :=
  hc.of_open rfl fun _ => open_receive.mp

theorem Numbered.close {c : Channels M} (hc : c.Numbered) (target : Nat) :
    (c.close target).Numbered :=
  hc.of_open rfl fun _ hopen => (open_close.mp hopen).2

section Count

variable [DecidableEq M]

/-- How often a message waits in the channels. -/
def count (c : Channels M) (m : M) : Nat :=
  ∑ channel ∈ Finset.range c.made, (c.messages channel).count m

/-- A change in one channel changes the count by what changes in that channel. -/
theorem count_add_of_others (c c' : Channels M) {channel : Nat} (hmade : c'.made = c.made)
    (hlt : channel < c.made) (hothers : ∀ o, o ≠ channel → c'.content o = c.content o) (m : M) :
    c'.count m + (c.messages channel).count m = c.count m + (c'.messages channel).count m := by
  have hsame : ∀ o, o ≠ channel → (c'.messages o).count m = (c.messages o).count m :=
    fun o ho => by rw [messages, messages, hothers o ho]
  rw [count, count, hmade]
  exact sum_range_add_of_others (f := fun o => (c.messages o).count m) hlt hsame

@[simp] theorem count_empty (m : M) : (empty : Channels M).count m = 0 := rfl

theorem count_create (c : Channels M) (m : M) : c.create.count m = c.count m := by
  have hothers : ∀ o ∈ Finset.range c.made,
      (c.create.messages o).count m = (c.messages o).count m := by
    intro o ho
    have hne : o ≠ c.made := (Finset.mem_range.mp ho).ne
    rw [messages, messages, show c.create.content o = c.content o from
      Function.update_of_ne hne _ _]
  have hnew : c.create.messages c.made = [] := by simp [messages, create]
  rw [count, count, show c.create.made = c.made + 1 from rfl, Finset.sum_range_succ, hnew,
    List.count_nil, Nat.add_zero]
  exact Finset.sum_congr rfl hothers

theorem count_send {c c' : Channels M} (hc : c.Numbered) {target : Nat} {x : M}
    (h : c.send target x = some c') (m : M) : c'.count m = c.count m + [x].count m := by
  obtain ⟨waiting, hwaiting, rfl⟩ := Option.map_eq_some_iff.mp h
  have hlt : target < c.made := hc.lt_made (by rw [Open, hwaiting]; rfl)
  have hcount := count_add_of_others c
    { c with content := Function.update c.content target (some (waiting ++ [x])) }
    rfl hlt (fun o ho => Function.update_of_ne ho _ _) m
  simp only [messages, Function.update_self, hwaiting, Option.getD_some, List.count_append]
    at hcount
  omega

theorem count_receive {c : Channels M} (hc : c.Numbered) {target : Nat} {x : M} {rest : List M}
    (h : c.messages target = x :: rest) (m : M) :
    (c.receive target).count m + [x].count m = c.count m := by
  have hlt : target < c.made :=
    hc.lt_made (open_of_mem_messages (h ▸ List.mem_cons_self))
  have hcount := count_add_of_others c (c.receive target) rfl hlt
    (fun o ho => Function.update_of_ne ho _ _) m
  have htail : (c.receive target).messages target = rest := by
    cases hcontent : c.content target with
    | none => simp [messages, hcontent] at h
    | some waiting =>
      rw [messages, hcontent, Option.getD_some] at h
      simp [messages, receive, hcontent, h]
  rw [h, htail, ← List.singleton_append, List.count_append] at hcount
  omega

theorem count_close {c : Channels M} (hc : c.Numbered) (target : Nat) (m : M) :
    (c.close target).count m + (c.messages target).count m = c.count m := by
  by_cases hlt : target < c.made
  · have hcount := count_add_of_others c (c.close target) rfl hlt
      (fun o ho => Function.update_of_ne ho _ _) m
    have hgone : (c.close target).messages target = [] := by simp [messages, close]
    rwa [hgone, List.count_nil, Nat.add_zero] at hcount
  · have hnone := hc target (Nat.le_of_not_lt hlt)
    have hsame : c.close target = c := by
      rw [close, ← hnone, Function.update_eq_self]
    rw [hsame, messages, hnone]
    rfl

end Count

end Channels

end SqdNetwork.Core
