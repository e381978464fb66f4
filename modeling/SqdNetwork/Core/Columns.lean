import SqdNetwork.Core.Outcome
import SqdNetwork.Core.Bisect
import Mathlib.Data.List.TakeWhile

/-!
# Columns of variable-length and repeated values

A column of lists is stored flat beside the running end of every list, and a
column that repeats itself is stored as runs, each naming its first row. Both
encodings are grown one row at a time and read back by row number.
-/

namespace SqdNetwork.Core

section Slices

variable {α : Type}

/-- Running ends of consecutive lists, counted from `start`. -/
def sliceEnds (start : Nat) : List (List α) → List Nat
  | [] => []
  | xs :: rest => (start + xs.length) :: sliceEnds (start + xs.length) rest

/-- Row starts and ends share one column: a leading zero, then every end. -/
def sliceOffsets (rows : List (List α)) : List Nat := 0 :: sliceEnds 0 rows

@[simp] theorem length_sliceEnds (start : Nat) (rows : List (List α)) :
    (sliceEnds start rows).length = rows.length := by
  induction rows generalizing start with
  | nil => rfl
  | cons xs rest ih => simp [sliceEnds, ih]

/-- A further row ends where the flattened column ends. -/
theorem sliceEnds_append (start : Nat) (rows : List (List α)) (xs : List α) :
    sliceEnds start (rows ++ [xs]) =
      sliceEnds start rows ++ [start + (rows ++ [xs]).flatten.length] := by
  induction rows generalizing start with
  | nil => simp [sliceEnds]
  | cons ys rest ih =>
    simp only [List.cons_append, sliceEnds, ih, List.flatten_cons, List.length_append,
      Nat.add_assoc]

/-- The offset of a row is the length of everything stored before it. -/
theorem getElem?_sliceOffsets (rows : List (List α)) {i : Nat} (hi : i ≤ rows.length) :
    (sliceOffsets rows)[i]? = some (rows.take i).flatten.length := by
  suffices h : ∀ (start : Nat), (start :: sliceEnds start rows)[i]? =
      some (start + (rows.take i).flatten.length) by
    simpa only [sliceOffsets, Nat.zero_add] using h 0
  induction rows generalizing i with
  | nil =>
    intro start
    have hz : i = 0 := by simpa using hi
    simp [hz]
  | cons xs rest ih =>
    intro start
    cases i with
    | zero => simp
    | succ i =>
      have hi' : i ≤ rest.length := by simpa using hi
      simp only [sliceEnds, List.getElem?_cons_succ, ih hi', List.take_succ_cons,
        List.flatten_cons, List.length_append, Nat.add_assoc]

/-- The stretch of the flat column between a row's two offsets is that row. -/
theorem flatten_slice (rows : List (List α)) {i : Nat} {xs : List α} (h : rows[i]? = some xs) :
    (rows.flatten.take (rows.take (i + 1)).flatten.length).drop
      (rows.take i).flatten.length = xs := by
  obtain ⟨hi, he⟩ := List.getElem?_eq_some_iff.mp h
  have hsplit : rows.flatten = (rows.take i).flatten ++ (xs ++ (rows.drop (i + 1)).flatten) := by
    conv_lhs => rw [← List.take_append_drop i rows, List.drop_eq_getElem_cons hi]
    rw [List.flatten_append, List.flatten_cons, he]
  have hnext : (rows.take (i + 1)).flatten = (rows.take i).flatten ++ xs := by
    rw [List.take_add_one, h, List.flatten_append]
    simp
  rw [hsplit, hnext, ← List.append_assoc]
  simp [List.take_append]

/-- A flat column that reaches a bound has a first row at which it does. -/
theorem exists_crossing {bound : Nat} (hpos : 0 < bound) {rows : List (List α)}
    (h : bound ≤ rows.flatten.length) : ∃ i xs, rows[i]? = some xs ∧
      (rows.take i).flatten.length < bound ∧
      bound ≤ (rows.take i).flatten.length + xs.length := by
  induction rows generalizing bound with
  | nil => exact absurd h (Nat.not_le.mpr hpos)
  | cons first rest ih =>
    by_cases hfirst : bound ≤ first.length
    · exact ⟨0, first, rfl, hpos, by simpa using hfirst⟩
    · rw [List.flatten_cons, List.length_append] at h
      obtain ⟨i, xs, hi, hlt, hle⟩ := @ih (bound - first.length) (by omega) (by omega)
      refine ⟨i + 1, xs, hi, ?_, ?_⟩
      · rw [List.take_succ_cons, List.flatten_cons, List.length_append]
        omega
      · rw [List.take_succ_cons, List.flatten_cons, List.length_append]
        omega

/-- Reading the subscripts from `start` up to `stop` in order. -/
def readRange (xs : List α) (start stop : Nat) : Exec (List α) :=
  (List.range' start (stop - start)).mapM (Exec.index xs)

/-- A range inside the column reads the stored stretch. -/
theorem readRange_eq_ok (xs : List α) {start stop : Nat} (h : stop ≤ xs.length) :
    readRange xs start stop = .ok ((xs.take stop).drop start) := by
  unfold readRange
  by_cases hle : stop ≤ start
  · have hz : stop - start = 0 := by omega
    have hd : (xs.take stop).drop start = [] := by
      apply List.drop_eq_nil_of_le
      simp only [List.length_take]
      omega
    rw [hz, hd]
    rfl
  · induction hn : stop - start generalizing start with
    | zero => omega
    | succ n ih =>
      have hs : start < xs.length := by omega
      rw [List.range'_succ, List.mapM_cons, Exec.index_of_lt hs]
      have htake : start < (xs.take stop).length := by
        simp only [List.length_take]
        omega
      rw [List.drop_eq_getElem_cons htake, List.getElem_take]
      by_cases hlast : stop ≤ start + 1
      · have hz : n = 0 := by omega
        have hd : (xs.take stop).drop (start + 1) = [] := by
          apply List.drop_eq_nil_of_le
          simp only [List.length_take]
          omega
        rw [hz, hd]
        rfl
      · rw [Exec.ok_bind, ih hlast (by omega)]
        rfl

end Slices

section Runs

variable {R β : Type} (start : R → Nat) (value : R → β)

/-- The run a row falls in: the last one that starts at or before it. -/
def runAt (runs : List R) (i : Nat) : Option R :=
  (runs.takeWhile fun r => start r ≤ i).getLast?

/-- The runs carry exactly the values of a column. -/
structure RunsEncode (runs : List R) (column : List β) : Prop where
  /-- Every run starts at an existing row. -/
  start_lt : ∀ r ∈ runs, start r < column.length
  /-- Starts strictly ascend. -/
  ascending : runs.Pairwise fun a b => start a < start b
  /-- A column with rows is covered from its first row on. -/
  covers : column ≠ [] → ∃ r rest, runs = r :: rest ∧ start r = 0
  /-- Every row finds its own value. -/
  lookup : ∀ i b, column[i]? = some b → (runAt start runs i).map value = some b

/-- Append a run unless the last one already carries its value. -/
def pushRun [DecidableEq β] (runs : List R) (r : R) : List R :=
  if runs.getLast?.all (fun last => value last != value r) then runs ++ [r] else runs

/-- The empty column has no run. -/
theorem RunsEncode.nil : RunsEncode start value ([] : List R) [] :=
  ⟨by simp, List.Pairwise.nil, fun h => absurd rfl h, by simp⟩

variable {start value} {runs : List R} {column : List β}

/-- Only the empty column has no run. -/
theorem RunsEncode.runs_eq_nil (h : RunsEncode start value runs []) : runs = [] := by
  apply List.eq_nil_iff_forall_not_mem.mpr
  intro r hr
  exact absurd (h.start_lt r hr) (Nat.not_lt_zero _)

/-- From the last row on every run has started. -/
theorem RunsEncode.takeWhile_all (h : RunsEncode start value runs column) {i : Nat}
    (hi : column.length ≤ i + 1) : runs.takeWhile (fun r => start r ≤ i) = runs := by
  apply List.takeWhile_eq_self_iff.mpr
  intro r hr
  have hlt := h.start_lt r hr
  exact decide_eq_true (by omega)

/-- A row whose value differs from the last run opens a run of its own. -/
theorem RunsEncode.snoc_run (h : RunsEncode start value runs column) {r : R}
    (hr : start r = column.length) :
    RunsEncode start value (runs ++ [r]) (column ++ [value r]) := by
  refine ⟨?_, ?_, ?_, ?_⟩
  · intro a ha
    rw [List.length_append, List.length_singleton]
    rcases List.mem_append.mp ha with ha | ha
    · have hlt := h.start_lt a ha
      omega
    · rw [List.mem_singleton.mp ha, hr]
      omega
  · refine List.pairwise_append.mpr ⟨h.ascending, List.pairwise_singleton _ _, ?_⟩
    intro a ha b hb
    rw [List.mem_singleton.mp hb, hr]
    exact h.start_lt a ha
  · intro _
    cases column with
    | nil => exact ⟨r, [], by simp [h.runs_eq_nil], hr⟩
    | cons b bs =>
      obtain ⟨a, rest, he, hz⟩ := h.covers (List.cons_ne_nil b bs)
      exact ⟨a, rest ++ [r], by simp [he], hz⟩
  · intro i b hb
    have hi : i ≤ column.length := by
      have hl := (List.getElem?_eq_some_iff.mp hb).1
      rw [List.length_append, List.length_singleton] at hl
      omega
    unfold runAt
    rw [List.takeWhile_append]
    rcases Nat.lt_or_eq_of_le hi with hlt | heq
    · rw [List.getElem?_append_left hlt] at hb
      have hold := h.lookup i b hb
      have hstop : [r].takeWhile (fun r => start r ≤ i) = [] := by
        simp [show ¬ start r ≤ i by omega]
      split
      · next hall =>
        rw [hstop, List.append_nil]
        unfold runAt at hold
        rwa [(List.takeWhile_prefix _).eq_of_length hall] at hold
      · exact hold
    · have hv : b = value r := by simpa [heq] using hb.symm
      rw [h.takeWhile_all (by omega), if_pos rfl]
      simp [hr, heq, hv]

/-- A row that repeats the last run's value is carried by that run. -/
theorem RunsEncode.snoc_same (h : RunsEncode start value runs column) {last : R}
    (hlast : runs.getLast? = some last) :
    RunsEncode start value runs (column ++ [value last]) := by
  have hcol : column ≠ [] := by
    intro he
    subst he
    simp [h.runs_eq_nil] at hlast
  refine ⟨?_, h.ascending, fun _ => h.covers hcol, ?_⟩
  · intro a ha
    have hlt := h.start_lt a ha
    rw [List.length_append, List.length_singleton]
    omega
  · intro i b hb
    by_cases hlt : i < column.length
    · rw [List.getElem?_append_left hlt] at hb
      exact h.lookup i b hb
    · have hl := (List.getElem?_eq_some_iff.mp hb).1
      rw [List.length_append, List.length_singleton] at hl
      have heq : i = column.length := by omega
      have hv : b = value last := by simpa [heq] using hb.symm
      rw [runAt, h.takeWhile_all (by omega), hlast, hv]
      rfl

/-- A further row keeps the encoding, whether it opens a run or extends the last one. -/
theorem RunsEncode.push [DecidableEq β] (h : RunsEncode start value runs column) {r : R}
    (hr : start r = column.length) :
    RunsEncode start value (pushRun value runs r) (column ++ [value r]) := by
  unfold pushRun
  split
  · exact h.snoc_run hr
  · next hc =>
    cases hlast : runs.getLast? with
    | none => simp [hlast] at hc
    | some last =>
      have hv : value last = value r := by simpa [hlast] using hc
      rw [← hv]
      exact h.snoc_same hlast

/-- Bisecting on the starts and stepping back once finds the run in force. -/
theorem RunsEncode.bisect_runAt (h : RunsEncode start value runs column) {i : Nat}
    (hi : i < column.length) :
    ∃ k, bisectPoint (fun j => runs[j]?.any fun r => start r ≤ i) 0 runs.length = k + 1 ∧
      runs[k]? = runAt start runs i := by
  obtain ⟨r, rest, he, hz⟩ := h.covers (List.ne_nil_of_length_pos (by omega))
  have hpoint : bisectPoint (fun j => runs[j]?.any fun r => start r ≤ i) 0 runs.length =
      (runs.takeWhile fun r => start r ≤ i).length := by
    apply bisectPoint_takeWhile
    refine h.ascending.imp ?_
    intro a b hab hb
    exact decide_eq_true (by have := of_decide_eq_true hb; omega)
  have hpos : 0 < (runs.takeWhile fun r => start r ≤ i).length := by
    simp [he, hz]
  refine ⟨(runs.takeWhile fun r => start r ≤ i).length - 1, by omega, ?_⟩
  rw [runAt, List.getLast?_eq_getElem?]
  obtain ⟨tail, htail⟩ := List.takeWhile_prefix (l := runs) fun r => decide (start r ≤ i)
  have hget : ((runs.takeWhile fun r => start r ≤ i) ++ tail)[
      (runs.takeWhile fun r => start r ≤ i).length - 1]? =
      (runs.takeWhile fun r => start r ≤ i)[
        (runs.takeWhile fun r => start r ≤ i).length - 1]? :=
    List.getElem?_append_left (by omega)
  rwa [htail] at hget

end Runs

end SqdNetwork.Core
