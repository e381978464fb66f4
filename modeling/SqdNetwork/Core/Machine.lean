import Mathlib.Data.List.Perm.Basic

/-!
# Runs of a deterministic machine

A machine takes one step per action. A property can hold throughout a run, and
every step of a run can meet a condition; the rules here pass from one step to
whole runs. A state often lists its parts, and a step takes out or replaces one of
them by its index.
-/

namespace SqdNetwork.Core

variable {S A : Type} (step : S → A → S)

/-- The property holds at the start of a run and after each of its steps. -/
def Throughout (I : S → Prop) : S → List A → Prop
  | s, [] => I s
  | s, a :: actions => I s ∧ Throughout I (step s a) actions

/-- Every step of a run meets the condition in the state it is taken from. -/
def EveryStep (ok : S → A → Prop) : S → List A → Prop
  | _, [] => True
  | s, a :: actions => ok s a ∧ EveryStep ok (step s a) actions

variable {step} {I J : S → Prop} {ok : S → A → Prop}

instance EveryStep.decidable [∀ s a, Decidable (ok s a)] :
    (s : S) → (actions : List A) → Decidable (EveryStep step ok s actions)
  | _, [] => isTrue trivial
  | s, a :: actions =>
    have := EveryStep.decidable (step s a) actions
    inferInstanceAs (Decidable (ok s a ∧ EveryStep step ok (step s a) actions))

/-- What every step keeps holds throughout every run. -/
theorem throughout_of_invariant (hstep : ∀ s a, I s → I (step s a)) (actions : List A) {s : S}
    (h : I s) : Throughout step I s actions := by
  induction actions generalizing s with
  | nil => exact h
  | cons a actions ih => exact ⟨h, ih (hstep s a h)⟩

/-- What every step that meets a condition keeps holds throughout every run whose steps meet it. -/
theorem throughout_of_everyStep (hstep : ∀ s a, ok s a → I s → I (step s a)) {actions : List A}
    {s : S} (hok : EveryStep step ok s actions) (h : I s) : Throughout step I s actions := by
  induction actions generalizing s with
  | nil => exact h
  | cons a actions ih => exact ⟨h, ih hok.2 (hstep s a hok.1 h)⟩

/-- The beginning of a run whose steps meet a condition is such a run. -/
theorem EveryStep.of_append {before after : List A} {s : S}
    (h : EveryStep step ok s (before ++ after)) : EveryStep step ok s before := by
  induction before generalizing s with
  | nil => trivial
  | cons a before ih => exact ⟨h.1, ih h.2⟩

/-- When steps that meet a condition keep an invariant and meet another condition under it, a run
of steps that meet the first is a run of steps that meet the second. -/
theorem EveryStep.imp_of_invariant {ok' : S → A → Prop}
    (hstep : ∀ s a, ok s a → I s → I (step s a)) (himp : ∀ s a, ok s a → I s → ok' s a)
    {actions : List A} {s : S} (hok : EveryStep step ok s actions) (h : I s) :
    EveryStep step ok' s actions := by
  induction actions generalizing s with
  | nil => trivial
  | cons a actions ih => exact ⟨himp s a hok.1 h, ih hok.2 (hstep s a hok.1 h)⟩

theorem Throughout.imp (himp : ∀ s, I s → J s) {actions : List A} {s : S}
    (h : Throughout step I s actions) : Throughout step J s actions := by
  induction actions generalizing s with
  | nil => exact himp s h
  | cons a actions ih => exact ⟨himp s h.1, ih h.2⟩

theorem Throughout.first {actions : List A} {s : S} (h : Throughout step I s actions) : I s := by
  cases actions with
  | nil => exact h
  | cons a actions => exact h.1

/-- What holds throughout a run holds at its end. -/
theorem Throughout.last {actions : List A} {s : S} (h : Throughout step I s actions) :
    I (actions.foldl step s) := by
  induction actions generalizing s with
  | nil => exact h
  | cons a actions ih => exact ih h.2

/-- A condition on the actions alone is met by the runs whose actions all meet it. -/
theorem everyStep_iff_forall {ok : A → Prop} {actions : List A} {s : S} :
    EveryStep step (fun _ a => ok a) s actions ↔ ∀ a ∈ actions, ok a := by
  induction actions generalizing s with
  | nil => exact iff_of_true trivial fun _ ha => absurd ha List.not_mem_nil
  | cons a actions ih => exact (and_congr_right fun _ => ih).trans List.forall_mem_cons.symm

/-- Conditions that agree under an invariant are met by the same runs. -/
theorem everyStep_congr {ok' : S → A → Prop} (hstep : ∀ s a, I s → I (step s a))
    (hiff : ∀ s a, I s → (ok s a ↔ ok' s a)) (actions : List A) {s : S} (h : I s) :
    EveryStep step ok s actions ↔ EveryStep step ok' s actions := by
  induction actions generalizing s with
  | nil => exact Iff.rfl
  | cons a actions ih => exact and_congr (hiff s a h) (ih (hstep s a h))

/-- When, under an invariant, a step keeps a property exactly if it meets a condition, the
property holds throughout a run exactly if every step meets the condition. -/
theorem throughout_iff_everyStep (hinv : ∀ s a, J s → J (step s a))
    (hstep : ∀ s a, J s → I s → (I (step s a) ↔ ok s a)) (actions : List A) {s : S} (hJ : J s)
    (hI : I s) : Throughout step I s actions ↔ EveryStep step ok s actions := by
  induction actions generalizing s with
  | nil => exact iff_of_true hI trivial
  | cons a actions ih =>
    constructor
    · rintro ⟨-, hrest⟩
      have hnext : I (step s a) := by
        cases actions with
        | nil => exact hrest
        | cons _ _ => exact hrest.1
      exact ⟨(hstep s a hJ hI).mp hnext, (ih (hinv s a hJ) hnext).mp hrest⟩
    · rintro ⟨hok, hrest⟩
      have hnext := (hstep s a hJ hI).mpr hok
      exact ⟨hI, (ih (hinv s a hJ) hnext).mpr hrest⟩

section Parts

variable {α : Type} {l : List α} {i : Nat} {a : α}

/-- Taking one part out leaves the others. -/
theorem perm_eraseIdx (h : l[i]? = some a) : l.Perm (a :: l.eraseIdx i) := by
  obtain ⟨hi, rfl⟩ := List.getElem?_eq_some_iff.mp h
  exact (List.getElem_cons_eraseIdx_perm hi).symm

theorem mem_eraseIdx_of_ne (h : l[i]? = some a) (b : α) (hne : b ≠ a) (hb : b ∈ l) :
    b ∈ l.eraseIdx i :=
  List.mem_of_ne_of_mem hne ((perm_eraseIdx h).mem_iff.mp hb)

/-- Replacing one part leaves the others. -/
theorem getElem?_set_cases {j : Nat} {b : α} (h : (l.set i b)[j]? = some a) :
    j = i ∧ a = b ∨ j ≠ i ∧ l[j]? = some a := by
  by_cases hj : j = i
  · subst hj
    rw [List.getElem?_set_self (by simpa using (List.getElem?_eq_some_iff.mp h).1)] at h
    exact .inl ⟨rfl, (Option.some.inj h).symm⟩
  · rw [List.getElem?_set_ne (Ne.symm hj)] at h
    exact .inr ⟨hj, h⟩

/-- Replacing one part changes a count by that part only. -/
theorem countP_set_add (h : l[i]? = some a) (b : α) (q : α → Bool) :
    (l.set i b).countP q + (if q a then 1 else 0) = l.countP q + (if q b then 1 else 0) := by
  obtain ⟨hi, rfl⟩ := List.getElem?_eq_some_iff.mp h
  have hset := (List.set_perm_cons_eraseIdx hi b).countP_eq q
  have hget := (List.getElem_cons_eraseIdx_perm hi).countP_eq q
  rw [List.countP_cons] at hset hget
  omega

/-- Replacing one part changes a selection by that part only. -/
theorem filterMap_set_perm {β : Type} (h : l[i]? = some a) (b : α) (f : α → Option β) :
    ((f a).toList ++ (l.set i b).filterMap f).Perm ((f b).toList ++ l.filterMap f) := by
  obtain ⟨hi, rfl⟩ := List.getElem?_eq_some_iff.mp h
  have hset := (List.set_perm_cons_eraseIdx hi b).filterMap f
  have hget := (List.getElem_cons_eraseIdx_perm hi).filterMap f
  have hcons : ∀ c (rest : List α), (c :: rest).filterMap f = (f c).toList ++ rest.filterMap f := by
    intro c rest
    cases hc : f c <;> simp [hc]
  rw [hcons] at hset hget
  calc ((f l[i]).toList ++ (l.set i b).filterMap f).Perm
        ((f l[i]).toList ++ ((f b).toList ++ (l.eraseIdx i).filterMap f)) := hset.append_left _
    _ |>.Perm ((f b).toList ++ ((f l[i]).toList ++ (l.eraseIdx i).filterMap f)) :=
        List.perm_append_comm_assoc _ _ _
    _ |>.Perm ((f b).toList ++ l.filterMap f) := hget.append_left _

end Parts

end SqdNetwork.Core
