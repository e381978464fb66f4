import SqdNetwork.Core.Outcome

/-!
# Running a list of operations

A script is a list of operations run against a state that each may change. Every
operation reports an outcome, and a panic ends the script. What one operation
preserves a whole script preserves, and two states that no operation tells apart
give the same outcomes.
-/

namespace SqdNetwork.Core

variable {S Op R : Type} (step : S → Op → Exec (S × R))

/-- Run the operations in order, pairing each with its outcome. -/
def runScript (s : S) : List Op → Exec (S × List (Op × R))
  | [] => .ok (s, [])
  | op :: ops => do
    let (s, r) ← step s op
    let (s, rest) ← runScript s ops
    .ok (s, (op, r) :: rest)

variable {step}

/-- A completed script starts with a completed first operation. -/
theorem runScript_cons {s s' : S} {op : Op} {ops : List Op} {log : List (Op × R)}
    (h : runScript step s (op :: ops) = .ok (s', log)) :
    ∃ mid r rest, step s op = .ok (mid, r) ∧ runScript step mid ops = .ok (s', rest) ∧
      log = (op, r) :: rest := by
  obtain ⟨⟨mid, r⟩, hstep, h⟩ := Exec.bind_eq_ok.mp h
  obtain ⟨⟨s'', rest⟩, hrest, h⟩ := Exec.bind_eq_ok.mp h
  have he := Except.ok.inj h
  rw [Prod.mk.injEq] at he
  obtain ⟨rfl, rfl⟩ := he
  exact ⟨mid, r, rest, hstep, hrest, rfl⟩

/-- A completed script logs its operations. -/
theorem map_fst_of_runScript {s s' : S} {ops : List Op} {log : List (Op × R)}
    (h : runScript step s ops = .ok (s', log)) : log.map Prod.fst = ops := by
  induction ops generalizing s log with
  | nil =>
    have he := Except.ok.inj h
    rw [Prod.mk.injEq] at he
    rw [← he.2, List.map_nil]
  | cons op ops ih =>
    obtain ⟨mid, r, rest, -, hrest, rfl⟩ := runScript_cons h
    rw [List.map_cons, ih hrest]

/-- A script is run by running its two parts one after the other. -/
theorem runScript_append (s : S) (ops ops' : List Op) :
    runScript step s (ops ++ ops') = (do
      let (s, log) ← runScript step s ops
      let (s, log') ← runScript step s ops'
      .ok (s, log ++ log')) := by
  induction ops generalizing s with
  | nil =>
    cases h : runScript step s ops' with
    | error p => simp [runScript, h]
    | ok out => simp [runScript, h]
  | cons op ops ih =>
    simp only [List.cons_append, runScript, ih, bind_assoc, Exec.ok_bind]

/-- A script returns when what is known before each operation makes it return and is known again
before the next. -/
theorem runScript_returns {I : S → List Op → Prop}
    (hstep : ∀ s op ops, I s (op :: ops) → ∃ s' r, step s op = .ok (s', r) ∧ I s' ops)
    {ops : List Op} {s : S} (h : I s ops) : (runScript step s ops).Returns := by
  induction ops generalizing s with
  | nil => exact ⟨_, rfl⟩
  | cons op ops ih =>
    obtain ⟨s', r, hop, hnext⟩ := hstep s op ops h
    obtain ⟨⟨last, log⟩, hrest⟩ := ih hnext
    exact ⟨(last, (op, r) :: log), by simp only [runScript, hop, Exec.ok_bind, hrest]⟩

/-- Some operations of a script run on their own as they ran among the others, when the others do
not affect what they see. -/
theorem runScript_filter (related : S → S → Prop) {mine : Op → Bool}
    (hskip : ∀ s t op s' r, related s t → mine op = false → step s op = .ok (s', r) →
      related s' t)
    (htake : ∀ s t op s' r, related s t → mine op = true → step s op = .ok (s', r) →
      ∃ t', step t op = .ok (t', r) ∧ related s' t')
    {ops : List Op} {s s' t : S} {log : List (Op × R)} (hrel : related s t)
    (h : runScript step s ops = .ok (s', log)) :
    ∃ t', runScript step t (ops.filter mine) = .ok (t', log.filter fun e => mine e.1) := by
  induction ops generalizing s t log with
  | nil =>
    have he := Except.ok.inj h
    rw [Prod.mk.injEq] at he
    obtain ⟨-, rfl⟩ := he
    exact ⟨t, rfl⟩
  | cons op ops ih =>
    obtain ⟨mid, r, rest, hop, hrest, rfl⟩ := runScript_cons h
    cases hmine : mine op with
    | false =>
      obtain ⟨t', ht'⟩ := ih (hskip s t op mid r hrel hmine hop) hrest
      refine ⟨t', ?_⟩
      rwa [List.filter_cons_of_neg (by simp [hmine]), List.filter_cons_of_neg (by simp [hmine])]
    | true =>
      obtain ⟨mid', hop', hmid⟩ := htake s t op mid r hrel hmine hop
      obtain ⟨t', ht'⟩ := ih hmid hrest
      refine ⟨t', ?_⟩
      rw [List.filter_cons_of_pos hmine, List.filter_cons_of_pos (by exact hmine)]
      simp only [runScript, hop', Exec.ok_bind, ht']

/-- Every operation of a script meets a condition in the state it is run in. -/
def EveryOp (step : S → Op → Exec (S × R)) (ok : S → Op → Prop) : S → List Op → Prop
  | _, [] => True
  | s, op :: ops => ok s op ∧ ∀ s' r, step s op = .ok (s', r) → EveryOp step ok s' ops

/-- A property of the state and the log so far that every operation meeting the condition keeps
holds when a script of such operations completes. -/
theorem runScript_log_invariant_of_everyOp {ok : S → Op → Prop} {I : S → List (Op × R) → Prop}
    (hstep : ∀ s s' op r log, I s log → ok s op → step s op = .ok (s', r) →
      I s' (log ++ [(op, r)]))
    {ops : List Op} {s s' : S} {before log : List (Op × R)} (h0 : I s before)
    (hok : EveryOp step ok s ops) (h : runScript step s ops = .ok (s', log)) :
    I s' (before ++ log) := by
  induction ops generalizing s before log with
  | nil =>
    have he := Except.ok.inj h
    rw [Prod.mk.injEq] at he
    obtain ⟨rfl, rfl⟩ := he
    simpa using h0
  | cons op ops ih =>
    obtain ⟨mid, r, rest, hop, hrest, rfl⟩ := runScript_cons h
    have hmid := ih (hstep s mid op r before h0 hok.1 hop) (hok.2 mid r hop) hrest
    rwa [List.append_assoc, List.singleton_append] at hmid

theorem everyOp_of_forall {ok : S → Op → Prop} (h : ∀ s op, ok s op) (s : S) (ops : List Op) :
    EveryOp step ok s ops := by
  induction ops generalizing s with
  | nil => trivial
  | cons op ops ih => exact ⟨h s op, fun s' _ _ => ih s'⟩

/-- A property of the state and the log so far that every operation keeps holds when the
script completes. -/
theorem runScript_invariant {I : S → List (Op × R) → Prop}
    (hstep : ∀ s s' op r log, I s log → step s op = .ok (s', r) → I s' (log ++ [(op, r)]))
    {ops : List Op} {s s' : S} {before log : List (Op × R)} (h0 : I s before)
    (h : runScript step s ops = .ok (s', log)) : I s' (before ++ log) := by
  have hall : EveryOp step (fun _ _ => True) s ops := everyOp_of_forall (fun _ _ => trivial) s ops
  exact runScript_log_invariant_of_everyOp
    (fun s s' op r log hs _ hop => hstep s s' op r log hs hop) h0 hall h

/-- A property of the state that every operation meeting the condition keeps holds when a
script of such operations completes. -/
theorem runScript_invariant_of_everyOp {ok : S → Op → Prop} {I : S → Prop}
    (hstep : ∀ s s' op r, I s → ok s op → step s op = .ok (s', r) → I s')
    {ops : List Op} {s s' : S} {log : List (Op × R)} (h0 : I s) (hok : EveryOp step ok s ops)
    (h : runScript step s ops = .ok (s', log)) : I s' :=
  @runScript_log_invariant_of_everyOp _ _ _ _ _ (fun s _ => I s)
    (fun s s' op r _ => hstep s s' op r) _ _ _ [] _ h0 hok h

/-- When an operation has a good outcome exactly if it meets a condition, all outcomes of a
completed script are good exactly if every operation meets the condition. -/
theorem forall_log_iff_everyOp {ok : S → Op → Prop} (good : Op × R → Prop)
    (hstep : ∀ s op s' r, step s op = .ok (s', r) → (good (op, r) ↔ ok s op))
    {ops : List Op} {s s' : S} {log : List (Op × R)} (h : runScript step s ops = .ok (s', log)) :
    (∀ e ∈ log, good e) ↔ EveryOp step ok s ops := by
  induction ops generalizing s log with
  | nil =>
    have he := Except.ok.inj h
    rw [Prod.mk.injEq] at he
    rw [← he.2]
    exact iff_of_true (fun e he => absurd he List.not_mem_nil) trivial
  | cons op ops ih =>
    obtain ⟨mid, r, rest, hop, hrest, rfl⟩ := runScript_cons h
    rw [List.forall_mem_cons, hstep s op mid r hop, ih hrest]
    refine and_congr_right fun _ => ⟨fun hops s' r' hop' => ?_, fun hops => hops mid r hop⟩
    have he := Except.ok.inj (hop.symm.trans hop')
    rw [Prod.mk.injEq] at he
    exact he.1 ▸ hops

/-- Two executions with one outcome and related states, or with the same panic. -/
def Alike (related : S → S → Prop) : Exec (S × R) → Exec (S × R) → Prop
  | .ok (s, r), .ok (t, q) => related s t ∧ r = q
  | .error p, .error q => p = q
  | _, _ => False

/-- Alike executions continued alike stay alike. -/
theorem Alike.bind {S' R' : Type} {related : S → S → Prop} {related' : S' → S' → Prop}
    {x y : Exec (S × R)} {f g : S × R → Exec (S' × R')} (h : Alike related x y)
    (hfg : ∀ s t r, related s t → Alike related' (f (s, r)) (g (t, r))) :
    Alike related' (x >>= f) (y >>= g) := by
  cases x with
  | error p =>
    cases y with
    | error q => exact h
    | ok out => exact h.elim
  | ok out =>
    cases y with
    | error q => exact h.elim
    | ok out' =>
      obtain ⟨s, r⟩ := out
      obtain ⟨t, q⟩ := out'
      obtain ⟨hrel, rfl⟩ := h
      exact hfg s t r hrel

/-- An execution is alike itself when its final state is related to itself. -/
theorem Alike.refl {related : S → S → Prop} (hrefl : ∀ s, related s s) (x : Exec (S × R)) :
    Alike related x x := by
  cases x with
  | error p => exact rfl
  | ok out => exact ⟨hrefl out.1, rfl⟩

/-- States that no operation tells apart are not told apart by a script. -/
theorem runScript_alike {related : S → S → Prop}
    (hstep : ∀ s t op, related s t → Alike related (step s op) (step t op))
    (ops : List Op) {s t : S} (h : related s t) :
    Alike related (runScript step s ops) (runScript step t ops) := by
  induction ops generalizing s t with
  | nil => exact ⟨h, rfl⟩
  | cons op ops ih =>
    refine (hstep s t op h).bind fun s' t' r hmid => ?_
    refine (ih hmid).bind fun s'' t'' rest hend => ?_
    exact ⟨hend, rfl⟩

/-- A script and the same script without one operation: they end in related states with the same
outcomes but for that operation's entry, or in the same panic. -/
def Erased (related : S → S → Prop) (before : List (Op × R)) (entry : Op × R) :
    Exec (S × List (Op × R)) → Exec (S × List (Op × R)) → Prop
  | .ok (s, log), .ok (t, log') => related s t ∧
      ∃ after, log = before ++ entry :: after ∧ log' = before ++ after
  | .error p, .error q => p = q
  | _, _ => False

theorem Erased.imp {related related' : S → S → Prop} (himp : ∀ s t, related s t → related' s t)
    {before : List (Op × R)} {entry : Op × R} {x y : Exec (S × List (Op × R))}
    (h : Erased related before entry x y) : Erased related' before entry x y := by
  cases x with
  | error p =>
    cases y with
    | error q => exact h
    | ok out => exact h.elim
  | ok out =>
    cases y with
    | error q => exact h.elim
    | ok out' => exact ⟨himp _ _ h.1, h.2⟩

/-- An operation that leaves a state no later operation tells from the one before it can be
erased from a script. -/
theorem runScript_erased {related : S → S → Prop}
    (hstep : ∀ s t op, related s t → Alike related (step s op) (step t op))
    {s mid mid' : S} {pre post : List Op} {op : Op} {r : R} {before : List (Op × R)}
    (hpre : runScript step s pre = .ok (mid, before)) (hop : step mid op = .ok (mid', r))
    (hrel : related mid' mid) :
    Erased related before (op, r) (runScript step s (pre ++ op :: post))
      (runScript step s (pre ++ post)) := by
  have hlike := runScript_alike hstep post hrel
  simp only [runScript_append, hpre, runScript, hop, Exec.ok_bind]
  generalize runScript step mid' post = x at hlike
  generalize runScript step mid post = y at hlike
  cases x with
  | error p =>
    cases y with
    | error q => exact hlike
    | ok out => exact hlike.elim
  | ok out =>
    cases y with
    | error q => exact hlike.elim
    | ok out' =>
      obtain ⟨hend, hlog⟩ := hlike
      exact ⟨hend, out.2, rfl, by rw [hlog]⟩

end SqdNetwork.Core
