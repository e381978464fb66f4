import Mathlib.Algebra.Order.Ring.Nat
import Mathlib.Data.List.Basic

/-!
# Windows with bounded bursts

An event that comes late enough opens a window; later events are counted into it
and only the first few are admitted. Windows open at least an interval apart, so an
interval of that length meets two of them at most, and the opening of one.
-/

namespace SqdNetwork.Core

/-- How many of the times lie in the half-open interval of this length from `x` on. -/
def countIn (interval x : Nat) (times : List Nat) : Nat :=
  times.countP fun t => x ≤ t ∧ t < x + interval

section CountIn

variable {interval x t : Nat} {times : List Nat}

theorem countIn_append_singleton_le :
    countIn interval x (times ++ [t]) ≤ countIn interval x times + 1 := by
  rw [countIn, List.countP_append, ← countIn]
  exact Nat.add_le_add_left List.countP_le_length _

theorem countIn_append_of_outside (h : t < x ∨ x + interval ≤ t) :
    countIn interval x (times ++ [t]) = countIn interval x times := by
  have hout : ¬ (x ≤ t ∧ t < x + interval) := by omega
  rw [countIn, List.countP_append, List.countP_singleton, ← countIn]
  simp [hout]

theorem countIn_eq_zero (h : ∀ t ∈ times, t < x) : countIn interval x times = 0 := by
  rw [countIn, List.countP_eq_zero]
  intro t ht
  have hlt := h t ht
  simp only [decide_eq_true_eq]
  omega

/-- Sorted times of which no interval holds two are an interval apart. -/
theorem apart_of_countIn_le_one (hone : ∀ x, countIn interval x times ≤ 1)
    (hsorted : times.Pairwise (· ≤ ·)) : times.Pairwise fun s t => s + interval ≤ t := by
  induction times with
  | nil => exact List.Pairwise.nil
  | cons s rest ih =>
    obtain ⟨hs, hrest⟩ := List.pairwise_cons.mp hsorted
    refine List.pairwise_cons.mpr ⟨?_, ih (fun x => ?_) hrest⟩
    · intro t ht
      by_contra hclose
      have hle := hs t ht
      have hpos : 0 < countIn interval s rest := by
        rw [countIn, List.countP_pos_iff]
        exact ⟨t, ht, decide_eq_true ⟨hle, by omega⟩⟩
      have hself : countIn interval s (s :: rest) = countIn interval s rest + 1 := by
        apply List.countP_cons_of_pos
        exact decide_eq_true ⟨Nat.le_refl s, by omega⟩
      have hmost := hone s
      omega
    · exact Nat.le_trans (List.Sublist.countP_le (List.sublist_cons_self s rest)) (hone x)

end CountIn

/-- When a window started and how many events it has seen. -/
structure Window where
  start : Nat
  seen : Nat

/-- Count an event into the window, or open a new one when it comes late enough. -/
def Window.count (interval : Nat) (w : Window) (checked reopened : Nat) : Window :=
  if checked - w.start < interval then { w with seen := w.seen + 1 } else ⟨reopened, 1⟩

theorem Window.seen_count_le (interval : Nat) (w : Window) (checked reopened : Nat) :
    (w.count interval checked reopened).seen ≤ w.seen + 1 := by
  unfold Window.count
  split
  · exact Nat.le_refl _
  · exact Nat.le_add_left 1 _

/-- What a window, opened by the event of time `opened`, says about the admitted times so far: how
many an interval holds that lies after, around or before the opening. -/
structure Window.Accounts (burst interval : Nat) (w : Window) (admitted : List Nat)
    (opened now : Nat) : Prop where
  opened_le : opened ≤ w.start
  start_le : w.start ≤ now
  seen_pos : 1 ≤ w.seen
  past : ∀ t ∈ admitted, t ≤ now
  after : ∀ x, opened < x → countIn interval x admitted ≤ min w.seen burst - 1
  around : ∀ x, x ≤ opened → opened < x + interval →
    countIn interval x admitted ≤ burst - 1 + min w.seen burst
  before : ∀ x, x + interval ≤ opened → countIn interval x admitted ≤ 2 * burst - 1

namespace Window.Accounts

variable {burst interval opened now checked reopened : Nat} {w : Window} {admitted : List Nat}

theorem later (h : Accounts burst interval w admitted opened now) {now' : Nat} (hle : now ≤ now') :
    Accounts burst interval w admitted opened now' :=
  { h with
    start_le := h.start_le.trans hle
    past := fun t ht => (h.past t ht).trans hle }

/-- Whatever the interval, it holds less than two bursts. -/
theorem countIn_le (h : Accounts burst interval w admitted opened now) (hburst : 1 ≤ burst)
    (x : Nat) : countIn interval x admitted ≤ 2 * burst - 1 := by
  rcases Nat.lt_or_ge opened x with hafter | hnot
  · have hle := h.after x hafter
    omega
  · rcases Nat.lt_or_ge opened (x + interval) with haround | hbefore
    · have hle := h.around x hnot haround
      omega
    · exact h.before x hbefore

/-- The first event opens the first window. -/
theorem first (hburst : 1 ≤ burst) (hle : checked ≤ reopened) :
    Accounts burst interval ⟨reopened, 1⟩ [checked] checked reopened where
  opened_le := hle
  start_le := Nat.le_refl _
  seen_pos := Nat.le_refl 1
  past := fun t ht => by rwa [List.mem_singleton.mp ht]
  after := fun x hx => by
    rw [countIn_eq_zero fun t ht => by rwa [List.mem_singleton.mp ht]]
    exact Nat.zero_le _
  around := fun x _ _ => by
    have hle : countIn interval x [checked] ≤ 1 := List.countP_le_length
    dsimp only
    omega
  before := fun x _ => by
    have hle : countIn interval x [checked] ≤ 1 := List.countP_le_length
    omega

/-- An event past the burst is counted and not admitted. -/
theorem refuse (h : Accounts burst interval w admitted opened now) (hfull : burst ≤ w.seen) :
    Accounts burst interval { w with seen := w.seen + 1 } admitted opened now where
  opened_le := h.opened_le
  start_le := h.start_le
  seen_pos := Nat.succ_pos _
  past := h.past
  after := fun x hx => by
    have hle := h.after x hx
    rw [Nat.min_eq_right hfull] at hle
    rwa [Nat.min_eq_right (Nat.le_succ_of_le hfull)]
  around := fun x hx hx' => by
    have hle := h.around x hx hx'
    rw [Nat.min_eq_right hfull] at hle
    rwa [Nat.min_eq_right (Nat.le_succ_of_le hfull)]
  before := h.before

/-- An event within the burst is counted and admitted. -/
theorem accept (h : Accounts burst interval w admitted opened now) (hroom : w.seen < burst)
    (hclock : now ≤ checked) :
    Accounts burst interval { w with seen := w.seen + 1 } (admitted ++ [checked]) opened
      checked where
  opened_le := h.opened_le
  start_le := h.start_le.trans hclock
  seen_pos := Nat.succ_pos _
  past := fun t ht => by
    rcases List.mem_append.mp ht with ht | ht
    · exact (h.past t ht).trans hclock
    · exact (List.mem_singleton.mp ht).le
  after := fun x hx => by
    have hle := h.after x hx
    have hone := @countIn_append_singleton_le interval x checked admitted
    have hseen := h.seen_pos
    dsimp only
    omega
  around := fun x hx hx' => by
    have hle := h.around x hx hx'
    have hone := @countIn_append_singleton_le interval x checked admitted
    dsimp only
    omega
  before := fun x hx => by
    have hopened := (h.opened_le.trans h.start_le).trans hclock
    rw [countIn_append_of_outside (Or.inr (hx.trans hopened))]
    exact h.before x hx

/-- An event late enough opens a window and is admitted. -/
theorem reopen (h : Accounts burst interval w admitted opened now) (hburst : 1 ≤ burst)
    (hclock : now ≤ checked) (hlate : w.start + interval ≤ checked) (hle : checked ≤ reopened) :
    Accounts burst interval ⟨reopened, 1⟩ (admitted ++ [checked]) checked reopened where
  opened_le := hle
  start_le := Nat.le_refl _
  seen_pos := Nat.le_refl 1
  past := fun t ht => by
    rcases List.mem_append.mp ht with ht | ht
    · exact ((h.past t ht).trans hclock).trans hle
    · rwa [List.mem_singleton.mp ht]
  after := fun x hx => by
    rw [countIn_append_of_outside (Or.inl hx),
      countIn_eq_zero fun t ht => ((h.past t ht).trans hclock).trans_lt hx]
    exact Nat.zero_le _
  around := fun x _ hx => by
    have hopened := h.opened_le
    have hle := h.after x (by omega)
    have hone := @countIn_append_singleton_le interval x checked admitted
    dsimp only
    omega
  before := fun x hx => by
    rw [countIn_append_of_outside (Or.inr hx)]
    exact h.countIn_le hburst x

/-- An event, admitted or not, leaves the accounts in order. -/
theorem count (h : Accounts burst interval w admitted opened now) (hburst : 1 ≤ burst)
    (hclock : now ≤ checked) (hle : checked ≤ reopened) :
    ∃ opened', Accounts burst interval (w.count interval checked reopened)
      (if (w.count interval checked reopened).seen ≤ burst then admitted ++ [checked]
        else admitted) opened' reopened := by
  unfold Window.count
  split
  · split
    · next hroom => exact ⟨opened, (h.accept hroom hclock).later hle⟩
    · next hfull =>
      have hfull : burst ≤ w.seen := Nat.lt_succ_iff.mp (Nat.not_le.mp hfull)
      exact ⟨opened, (h.refuse hfull).later (hclock.trans hle)⟩
  · next hlate =>
    have hstart := h.start_le
    exact ⟨checked, h.reopen hburst hclock (by omega) hle⟩

end Window.Accounts

end SqdNetwork.Core
