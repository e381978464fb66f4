import Mathlib.Logic.Basic

/-!
# Machines with outputs, and their refinement

A machine answers each action with an output. A relation between the states of two
machines that every action keeps, and under which it gives the same output, shows
that no sequence of actions tells the two apart.
-/

namespace SqdNetwork.Core

variable {S T A O : Type}

/-- The outputs of a run. -/
def outputs (step : S → A → S × O) : S → List A → List O
  | _, [] => []
  | s, a :: actions => (step s a).2 :: outputs step (step s a).1 actions

variable {step : S → A → S × O} {step' : T → A → T × O}

/-- Related states with related successors and equal outputs give the same outputs. -/
theorem outputs_eq_of_simulation {R : S → T → Prop} {actions : List A}
    (hstep : ∀ s t, ∀ a ∈ actions, R s t →
      R (step s a).1 (step' t a).1 ∧ (step s a).2 = (step' t a).2)
    {s : S} {t : T} (h : R s t) : outputs step s actions = outputs step' t actions := by
  induction actions generalizing s t with
  | nil => rfl
  | cons a actions ih =>
    obtain ⟨hnext, hout⟩ := hstep s t a List.mem_cons_self h
    rw [outputs, outputs, hout,
      ih (fun s t a ha => hstep s t a (List.mem_cons_of_mem _ ha)) hnext]

end SqdNetwork.Core
