import Mathlib.Data.List.Chain
import SqdNetwork.Assignments.LegacyRouting
import SqdNetwork.Assignments.PortalRoundTrip

/-!
# Enforced continuity

All three builders compare the start of a chunk with the block after the last one,
and add one to that block without a guard. Short of the last of all blocks the
check refuses exactly the chunks that leave a gap, so what is appended to a dataset
is consecutive. At the last block the sum leaves its type: a debug build panics and
a release build takes a chunk that starts over.
-/

namespace SqdNetwork.Assignments

open SqdNetwork.Core

/-- The last block that 64 bits can number. -/
def topBlock : UInt64 := 18446744073709551615

/-- The range starts right after the last of the given ones. -/
def BlockRange.Continues (range : BlockRange) (chunks : List BlockRange) : Prop :=
  ∀ last, chunks.getLast? = some last → range.start.toNat = last.stop.toNat + 1

/-- Every range starts right after the one before it. -/
def Consecutive (ranges : List BlockRange) : Prop :=
  ranges.IsChain fun a b => b.start.toNat = a.stop.toNat + 1

theorem Consecutive.append {ranges : List BlockRange} {range : BlockRange}
    (h : Consecutive ranges) (hnext : range.Continues ranges) :
    Consecutive (ranges ++ [range]) := by
  refine List.isChain_append.mpr ⟨h, List.isChain_singleton _, ?_⟩
  rintro last hlast _ ⟨⟩
  exact hnext last hlast

section Check

variable {profile : Profile} {lastBlock : Option UInt64}

/-- One more than a block is in range unless the block is the last one. -/
theorem succ_lt_of_ne_topBlock {last : UInt64} (h : last ≠ topBlock) :
    last.toNat + 1 < 2 ^ 64 := by
  have hlt := last.toNat_lt
  have hne : last.toNat ≠ 2 ^ 64 - 1 := fun he => h (UInt64.toNat_inj.mp he)
  omega

/-- The check can be evaluated for every chunk exactly if the last block is not the last of
all. -/
theorem continuityOf_returns_iff :
    (∀ start, (continuityOf .debug lastBlock start).Returns) ↔ lastBlock ≠ some topBlock := by
  cases lastBlock with
  | none => exact iff_of_true (fun start => ⟨_, rfl⟩) (by simp)
  | some last =>
    rw [ne_eq, Option.some.injEq]
    constructor
    · rintro h rfl
      obtain ⟨r, hr⟩ := h 0
      cases hr
    · intro hne start
      exact (Exec.returns_addU64 (succ_lt_of_ne_topBlock hne)).bind fun next _ => ⟨_, rfl⟩

/-- Where it does not overflow, the check passes exactly the chunks that follow. -/
theorem continuityOf_eq_ok_iff {start : UInt64} {r : Outcome} (htop : lastBlock ≠ some topBlock)
    (h : continuityOf profile lastBlock start = .ok r) :
    r = .ok () ↔ ∀ last, lastBlock = some last → start.toNat = last.toNat + 1 := by
  cases lastBlock with
  | none =>
    cases h
    exact iff_of_true rfl fun last hlast => by cases hlast
  | some last =>
    have hfits : last.toNat + (1 : UInt64).toNat < 2 ^ 64 :=
      succ_lt_of_ne_topBlock fun he => htop (congrArg some he)
    obtain ⟨next, hnext, h⟩ := Exec.bind_eq_ok.mp h
    have hvalue := Exec.toNat_of_addU64 hnext hfits
    rw [← Except.ok.inj h]
    have hstart : next = start ↔ start.toNat = last.toNat + 1 := by
      rw [← UInt64.toNat_inj, hvalue, eq_comm]
      rfl
    by_cases he : next = start
    · rw [if_neg (not_not_intro he)]
      refine iff_of_true rfl ?_
      rintro _ ⟨⟩
      exact hstart.mp he
    · rw [if_pos he]
      refine iff_of_false (by simp) fun hall => he (hstart.mpr (hall last rfl))

end Check

/-- What finishing a chunk does to the last block: nothing, or it is the chunk's after a check
that passed. -/
def Attempted (profile : Profile) (lastBlock lastBlock' : Option UInt64)
    (range : Option BlockRange) (e : ChunkEnd) : Prop :=
  (e.appended true = false ∧ lastBlock' = lastBlock) ∨
  ∃ r, range = some r ∧ e.appended true = true ∧ lastBlock' = some r.stop ∧
    continuityOf profile lastBlock r.start = .ok (.ok ())

/-- What an operation and its report say about block ranges. -/
inductive RangeEvent where
  /-- A chunk handle with this staged range came to its end. -/
  | chunk (range : Option BlockRange) (e : ChunkEnd)
  /-- The dataset was closed. -/
  | close
  | other

/-- The ranges appended in a run: dataset by dataset, and those of the open one. -/
structure AppendedRanges where
  finished : List (List BlockRange) := []
  current : List BlockRange := []

namespace AppendedRanges

/-- What one event adds. -/
def apply (s : AppendedRanges) : RangeEvent → AppendedRanges
  | .chunk range e =>
    { s with current := s.current ++ if e.appended true then range.toList else [] }
  | .close => ⟨s.finished ++ [s.current], []⟩
  | .other => s

/-- Everything appended in a run. -/
def ofLog {Op R : Type} (event : Op × R → RangeEvent) (log : List (Op × R)) : AppendedRanges :=
  log.foldl (fun s entry => s.apply (event entry)) {}

theorem ofLog_snoc {Op R : Type} (event : Op × R → RangeEvent) (log : List (Op × R))
    (entry : Op × R) : ofLog event (log ++ [entry]) = (ofLog event log).apply (event entry) := by
  simp [ofLog]

/-- Every dataset is consecutive, the open one too. -/
structure Consecutive (s : AppendedRanges) : Prop where
  current : Assignments.Consecutive s.current
  finished : ∀ d ∈ s.finished, Assignments.Consecutive d

/-- The last block is the end of the last range of the open dataset. -/
def Ends (s : AppendedRanges) (lastBlock : Option UInt64) : Prop :=
  lastBlock = s.current.getLast?.map BlockRange.stop

end AppendedRanges

/-- What an event does to the last block. -/
def RangeEvent.Moves (profile : Profile) (lastBlock lastBlock' : Option UInt64) :
    RangeEvent → Prop
  | .chunk range e => Attempted profile lastBlock lastBlock' range e
  | .close => lastBlock' = none
  | .other => lastBlock' = lastBlock

/-- The event appends a chunk. -/
def RangeEvent.Appends : RangeEvent → Prop
  | .chunk _ e => e.appended true = true
  | _ => False

section Events

variable {profile : Profile} {lastBlock lastBlock' : Option UInt64} {s : AppendedRanges}
  {range : Option BlockRange} {e : ChunkEnd} {event : RangeEvent}

/-- An appended chunk follows, unless the last block was the last of all. -/
theorem Attempted.continues (h : Attempted profile lastBlock lastBlock' range e)
    (hends : s.Ends lastBlock) (htop : lastBlock ≠ some topBlock)
    (happended : e.appended true = true) : ∃ r, range = some r ∧ r.Continues s.current := by
  rcases h with ⟨hnot, -⟩ | ⟨r, hrange, -, -, hcheck⟩
  · exact absurd happended (by simp [hnot])
  · refine ⟨r, hrange, fun last hlast => ?_⟩
    apply (continuityOf_eq_ok_iff htop hcheck).mp rfl
    rw [hends, hlast, Option.map_some]

/-- An event moves the last block along with the open dataset. -/
theorem RangeEvent.Moves.ends (h : event.Moves profile lastBlock lastBlock')
    (hends : s.Ends lastBlock) : (s.apply event).Ends lastBlock' := by
  unfold AppendedRanges.Ends at hends ⊢
  cases event with
  | chunk range e =>
    rcases h with ⟨hnot, rfl⟩ | ⟨r, rfl, happended, rfl, -⟩
    · simp [AppendedRanges.apply, hnot, hends]
    · simp [AppendedRanges.apply, happended]
  | close => exact h
  | other => exact h.trans hends

/-- Below the last block an event keeps every dataset consecutive. -/
theorem RangeEvent.Moves.consecutive (h : event.Moves profile lastBlock lastBlock')
    (hends : s.Ends lastBlock) (htop : event.Appends → lastBlock ≠ some topBlock)
    (hs : s.Consecutive) : (s.apply event).Consecutive := by
  cases event with
  | chunk range e =>
    refine ⟨?_, hs.finished⟩
    cases happended : e.appended true with
    | false => simpa [AppendedRanges.apply, happended] using hs.current
    | true =>
      obtain ⟨r, rfl, hnext⟩ := Attempted.continues h hends (htop happended) happended
      simpa [AppendedRanges.apply, happended] using hs.current.append hnext
  | close =>
    refine ⟨List.IsChain.nil, fun d hd => ?_⟩
    rcases List.mem_append.mp hd with hd | hd
    · exact hs.finished d hd
    · rw [List.mem_singleton.mp hd]
      exact hs.current
  | other => exact hs

/-- What is asked of a builder for any chunk that is finished next: the check can be evaluated, an
appended chunk follows the ones before it, and a chunk that does not is refused with an error. -/
structure EnforcesContinuity (lastBlock : Option UInt64) (chunks : List BlockRange)
    (finishing : Option BlockRange → ChunkEnd → Prop) : Prop where
  returns : ∀ start, (continuityOf .debug lastBlock start).Returns
  follows : ∀ range e, finishing (some range) e → e.appended true = true → range.Continues chunks
  refused : ∀ range e, finishing (some range) e → ¬range.Continues chunks →
    ∃ error, e = .rejected error ∨ e = .finished (.error error)

/-- A chunk handle that was not dropped ended in an append or in an error. -/
theorem ChunkEnd.error_of_not_appended {check : Bool} (hfinish : e ≠ .dropped)
    (h : e.appended check = false) :
    ∃ error, e = .rejected error ∨ e = .finished (.error error) := by
  cases e with
  | dropped => exact absurd rfl hfinish
  | rejected error => exact ⟨error, Or.inl rfl⟩
  | finished r =>
    cases r with
    | error error => exact ⟨error, Or.inr rfl⟩
    | ok => cases h

/-- A builder that attempts what it finishes enforces continuity exactly short of the last
block. -/
theorem enforcesContinuity_iff {finishing : Option BlockRange → ChunkEnd → Prop}
    (hends : s.Ends lastBlock)
    (hattempt : ∀ range e, finishing range e →
      e ≠ .dropped ∧ ∃ lastBlock', Attempted profile lastBlock lastBlock' range e) :
    EnforcesContinuity lastBlock s.current finishing ↔ lastBlock ≠ some topBlock := by
  constructor
  · intro h
    exact continuityOf_returns_iff.mp h.returns
  · intro htop
    have hfollows : ∀ range e, finishing (some range) e → e.appended true = true →
        range.Continues s.current := by
      intro range e he happended
      obtain ⟨-, lastBlock', hattempted⟩ := hattempt _ _ he
      obtain ⟨r, ⟨⟩, hnext⟩ := hattempted.continues hends htop happended
      exact hnext
    refine ⟨continuityOf_returns_iff.mpr htop, hfollows, fun range e he hgap => ?_⟩
    apply ChunkEnd.error_of_not_appended (hattempt _ _ he).1
    exact Bool.eq_false_iff.mpr fun happended => hgap (hfollows range e he happended)

end Events

section Runs

variable {S Op R : Type} {step : S → Op → Exec (S × R)} {ready : S → Prop}
  {lastBlock : S → Option UInt64} {event : Op × R → RangeEvent} {finishes : Op → Bool}
  {profile : Profile} {ops : List Op} {s s' : S} {log : List (Op × R)}

/-- The open dataset does not end with the last of all blocks when a chunk is finished. -/
def BelowTop (lastBlock : S → Option UInt64) (finishes : Op → Bool) (s : S) (op : Op) : Prop :=
  finishes op = true → lastBlock s ≠ some topBlock

/-- What every operation of a builder does to its last block. -/
structure MovesLastBlock (profile : Profile) (step : S → Op → Exec (S × R)) (ready : S → Prop)
    (lastBlock : S → Option UInt64) (event : Op × R → RangeEvent) (finishes : Op → Bool) :
    Prop where
  keeps : ∀ {s s' op r}, ready s → step s op = .ok (s', r) → ready s'
  moves : ∀ {s s' op r}, ready s → step s op = .ok (s', r) →
    (event (op, r)).Moves profile (lastBlock s) (lastBlock s')
  appends : ∀ {s s' op r}, step s op = .ok (s', r) → (event (op, r)).Appends → finishes op = true

/-- The last block is the end of the open dataset throughout a run. -/
theorem MovesLastBlock.ends (h : MovesLastBlock profile step ready lastBlock event finishes)
    (hready : ready s) (hlast : lastBlock s = none) (hrun : runScript step s ops = .ok (s', log)) :
    ready s' ∧ (AppendedRanges.ofLog event log).Ends (lastBlock s') := by
  have h0 : ready s ∧ (AppendedRanges.ofLog event []).Ends (lastBlock s) := ⟨hready, hlast⟩
  refine runScript_invariant
    (I := fun s log => ready s ∧ (AppendedRanges.ofLog event log).Ends (lastBlock s))
    (fun s s' op r log hs hstep => ⟨h.keeps hs.1 hstep, ?_⟩) h0 hrun
  rw [AppendedRanges.ofLog_snoc]
  exact (h.moves hs.1 hstep).ends hs.2

/-- A run that finishes chunks only below the last block appends consecutive chunks. -/
theorem MovesLastBlock.consecutive
    (h : MovesLastBlock profile step ready lastBlock event finishes) (hready : ready s)
    (hlast : lastBlock s = none) (hbelow : EveryOp step (BelowTop lastBlock finishes) s ops)
    (hrun : runScript step s ops = .ok (s', log)) :
    (AppendedRanges.ofLog event log).Consecutive := by
  have h0 : (ready s ∧ (AppendedRanges.ofLog event []).Ends (lastBlock s)) ∧
      (AppendedRanges.ofLog event []).Consecutive :=
    ⟨⟨hready, hlast⟩, List.IsChain.nil, fun _ hd => absurd hd List.not_mem_nil⟩
  refine (runScript_log_invariant_of_everyOp
    (I := fun s log => (ready s ∧ (AppendedRanges.ofLog event log).Ends (lastBlock s)) ∧
      (AppendedRanges.ofLog event log).Consecutive)
    (fun s s' op r log hs hop hstep => ?_) h0 hbelow hrun).2
  obtain ⟨⟨hready, hends⟩, hcons⟩ := hs
  have hmoves := h.moves hready hstep
  rw [AppendedRanges.ofLog_snoc]
  refine ⟨⟨h.keeps hready hstep, hmoves.ends hends⟩, hmoves.consecutive hends ?_ hcons⟩
  exact fun happends => hop (h.appends hstep happends)

end Runs

/-- Appending a row attempts it. -/
theorem attempted_of_appendChunk {C : Type} {profile : Profile} {base : C → StagedColumns}
    {push : UInt32 → UInt32 → C → C} {pushEnd : UInt32 → C → C} {columns columns' : C}
    {lastBlock lastBlock' : Option UInt64} {range : BlockRange} {r : Outcome}
    (hrange : range.start ≤ range.stop)
    (h : appendChunk profile true base push pushEnd columns lastBlock range =
      .ok (columns', lastBlock', r)) :
    Attempted profile lastBlock lastBlock' (some range) (.finished r) := by
  have hpassed : appended true r = true →
      continuityOf profile lastBlock range.start = .ok (.ok ()) := by
    intro happended
    obtain ⟨continuity, hcheck, h⟩ := Exec.bind_eq_ok.mp h
    rcases continuityOf_cases hcheck with rfl | ⟨last, rfl⟩
    · exact hcheck
    · -- a gap is reported as it was found
      rw [if_pos ⟨by simp, rfl⟩] at h
      cases h
      exact absurd happended (by simp [appended])
  rcases appendChunk_cases hrange h with ⟨-, hlast, hnot⟩ | ⟨_, _, -, hlast, hnot, -⟩ |
      ⟨_, _, _, -, -, -, -, hlast, happended⟩
  · exact Or.inl ⟨hnot, hlast⟩
  · exact Or.inl ⟨hnot, hlast⟩
  · exact Or.inr ⟨range, rfl, happended, hlast, hpassed happended⟩

/-- The life of a chunk handle is an attempt on the range its chunk staged. -/
theorem attempted_of_handled {C Row K : Type} {kind : DatasetKind C Row K} {profile : Profile}
    {columns columns' : C} {lastBlock lastBlock' : Option UInt64} {chunk : K} {e : ChunkEnd}
    {range : Option BlockRange}
    (h : kind.Handled profile true columns lastBlock chunk columns' lastBlock' e)
    (hrange : ∀ row, kind.StagedBy chunk row →
      range = some ⟨(kind.row row).id.firstBlock, (kind.row row).id.lastBlock⟩) :
    Attempted profile lastBlock lastBlock' range e := by
  cases h with
  | kept hnot => exact Or.inl ⟨hnot true, rfl⟩
  | @tried _ _ row _ hrow happend =>
    rw [hrange row hrow]
    exact attempted_of_appendChunk (kind.row row).id.first_le happend

namespace WorkerAssignmentBuilder

variable {P Key Rng : Type} {profile : Profile} {b b' : WorkerAssignmentBuilder P Key Rng}

/-- A chunk handle of the open dataset came to its end. -/
def rangeEvent : WorkerDatasetOp × WorkerDatasetResult → RangeEvent
  | (.chunk cs _, .chunk e) => .chunk (WorkerStaged.ofCalls cs).blockRange e
  | _ => .other

/-- The operation finishes a chunk. -/
def finishes : WorkerDatasetOp → Bool
  | .chunk _ finish => finish
  | _ => false

/-- What a chunk with a staged range can end in when it is finished next. -/
def Finishing (profile : Profile) (b : WorkerAssignmentBuilder P Key Rng)
    (range : Option BlockRange) (e : ChunkEnd) : Prop :=
  ∃ cs b', (WorkerStaged.ofCalls cs).blockRange = range ∧
    b.runChunk profile cs true = .ok (b', e)

/-- A handle is dropped only unfinished and appends only when finished. -/
theorem runChunk_finish {cs : List WorkerChunkCall} {finish : Bool} {e : ChunkEnd}
    (h : b.runChunk profile cs finish = .ok (b', e)) :
    (finish = true → e ≠ .dropped) ∧ (e.appended true = true → finish = true) := by
  obtain ⟨⟨mid, r⟩, -, h⟩ := Exec.bind_eq_ok.mp h
  cases r with
  | error error =>
    cases h
    exact ⟨fun _ => nofun, nofun⟩
  | ok chunk =>
    cases finish with
    | false =>
      cases h
      exact ⟨nofun, nofun⟩
    | true =>
      obtain ⟨out, -, h⟩ := Exec.bind_eq_ok.mp h
      cases h
      exact ⟨fun _ => nofun, fun _ => rfl⟩

/-- Whatever a chunk handle does is an attempt. -/
theorem attempted_of_runChunk {cs : List WorkerChunkCall} {finish : Bool} {e : ChunkEnd}
    (hcheck : b.checkContinuity = true) (h : b.runChunk profile cs finish = .ok (b', e)) :
    b'.checkContinuity = true ∧
      Attempted profile b.lastBlock b'.lastBlock (WorkerStaged.ofCalls cs).blockRange e := by
  obtain ⟨hframe, -, hhandled⟩ := handled_of_runChunk h
  have hsame : b'.checkContinuity = b.checkContinuity :=
    congrArg (fun b => b.checkContinuity) hframe
  rw [hcheck] at hhandled hsame
  exact ⟨hsame, attempted_of_handled hhandled fun _ hrow => hrow.1.blockRange⟩

/-- What the operations on an open dataset do to the last block. -/
theorem movesLastBlock : MovesLastBlock profile (datasetStep profile)
    (fun b : WorkerAssignmentBuilder P Key Rng => b.checkContinuity = true)
    (fun b => b.lastBlock) rangeEvent finishes := by
  constructor
  · intro b b' op r hcheck hstep
    rcases datasetStep_cases hstep with ⟨cs, finish, e, rfl, rfl, hrun⟩ |
        ⟨version, baseUrl, out, rfl, rfl, hregister⟩
    · exact (attempted_of_runChunk hcheck hrun).1
    · obtain ⟨generations, rfl⟩ := registerGeneration_frame hregister
      exact hcheck
  · intro b b' op r hcheck hstep
    rcases datasetStep_cases hstep with ⟨cs, finish, e, rfl, rfl, hrun⟩ |
        ⟨version, baseUrl, out, rfl, rfl, hregister⟩
    · exact (attempted_of_runChunk hcheck hrun).2
    · obtain ⟨generations, rfl⟩ := registerGeneration_frame hregister
      exact rfl
  · intro b b' op r hstep happends
    rcases datasetStep_cases hstep with ⟨cs, finish, e, rfl, rfl, hrun⟩ |
        ⟨version, baseUrl, out, rfl, rfl, -⟩
    · exact (runChunk_finish hrun).2 happends
    · exact happends.elim

/-- An open dataset enforces continuity exactly short of the last block. -/
theorem enforces_iff {s : AppendedRanges} (hcheck : b.checkContinuity = true)
    (hends : s.Ends b.lastBlock) :
    EnforcesContinuity b.lastBlock s.current (b.Finishing profile) ↔
      b.lastBlock ≠ some topBlock := by
  apply enforcesContinuity_iff hends
  rintro range e ⟨cs, b', rfl, hrun⟩
  exact ⟨(runChunk_finish hrun).1 rfl, _, (attempted_of_runChunk hcheck hrun).2⟩

end WorkerAssignmentBuilder

namespace PortalAssignmentBuilder

variable {P : Type} {profile : Profile} {b b' : PortalAssignmentBuilder P}

/-- A chunk handle of the open dataset came to its end. -/
def rangeEvent (entry : PortalDatasetOp × ChunkEnd) : RangeEvent :=
  .chunk (PortalStaged.ofCalls entry.1.calls).blockRange entry.2

/-- What a chunk with a staged range can end in when it is finished next. -/
def Finishing (profile : Profile) (b : PortalAssignmentBuilder P) (range : Option BlockRange)
    (e : ChunkEnd) : Prop :=
  ∃ cs b', (PortalStaged.ofCalls cs).blockRange = range ∧
    b.runChunk profile ⟨cs, true⟩ = .ok (b', e)

/-- A handle is dropped only unfinished and appends only when finished. -/
theorem runChunk_finish {op : PortalDatasetOp} {e : ChunkEnd}
    (h : b.runChunk profile op = .ok (b', e)) :
    (op.finish = true → e ≠ .dropped) ∧ (e.appended true = true → op.finish = true) := by
  unfold runChunk at h
  dsimp only at h
  split at h
  · next hfinish =>
    obtain ⟨out, -, h⟩ := Exec.bind_eq_ok.mp h
    cases h
    exact ⟨fun _ => nofun, fun _ => hfinish⟩
  · next hfinish =>
    cases h
    exact ⟨fun hf => absurd hf hfinish, nofun⟩

/-- Whatever a chunk handle does is an attempt. -/
theorem attempted_of_runChunk {op : PortalDatasetOp} {e : ChunkEnd}
    (hcheck : b.checkContinuity = true) (h : b.runChunk profile op = .ok (b', e)) :
    b'.checkContinuity = true ∧
      Attempted profile b.lastBlock b'.lastBlock (PortalStaged.ofCalls op.calls).blockRange e := by
  obtain ⟨hframe, hhandled⟩ := handled_of_runChunk h
  have hsame : b'.checkContinuity = b.checkContinuity :=
    congrArg (fun b => b.checkContinuity) hframe
  rw [hcheck] at hhandled hsame
  exact ⟨hsame, attempted_of_handled hhandled fun _ hrow => hrow.blockRange⟩

/-- What the chunks of an open dataset do to the last block. -/
theorem movesLastBlock : MovesLastBlock profile (runChunk profile)
    (fun b : PortalAssignmentBuilder P => b.checkContinuity = true) (fun b => b.lastBlock)
    rangeEvent PortalDatasetOp.finish where
  keeps hcheck hrun := (attempted_of_runChunk hcheck hrun).1
  moves hcheck hrun := (attempted_of_runChunk hcheck hrun).2
  appends hrun happends := (runChunk_finish hrun).2 happends

/-- An open dataset enforces continuity exactly short of the last block. -/
theorem enforces_iff {s : AppendedRanges} (hcheck : b.checkContinuity = true)
    (hends : s.Ends b.lastBlock) :
    EnforcesContinuity b.lastBlock s.current (b.Finishing profile) ↔
      b.lastBlock ≠ some topBlock := by
  apply enforcesContinuity_iff hends
  rintro range e ⟨cs, b', rfl, hrun⟩
  exact ⟨(runChunk_finish hrun).1 rfl, _, (attempted_of_runChunk hcheck hrun).2⟩

end PortalAssignmentBuilder

namespace AssignmentBuilder

variable {P Key Rng : Type} {profile : Profile} {b b' : AssignmentBuilder P Key Rng}

/-- A chunk handle came to its end, or the open dataset was closed. -/
def rangeEvent : AssignmentOp P × AssignmentResult → RangeEvent
  | (.chunk calls _, .chunk e) => .chunk (ChunkBuilder.ofCalls calls).blockRange e
  | (.finishDataset, .finished) => .close
  | _ => .other

/-- The operation finishes a chunk. -/
def finishes : AssignmentOp P → Bool
  | .chunk _ finish => finish
  | _ => false

/-- What a chunk with a staged range can end in when it is finished next. -/
def Finishing (profile : Profile) (b : AssignmentBuilder P Key Rng) (range : Option BlockRange)
    (e : ChunkEnd) : Prop :=
  ∃ calls b', (ChunkBuilder.ofCalls calls).blockRange = range ∧
    b.runChunk profile calls true = .ok (b', e)

/-- A handle is dropped only unfinished and appends only when finished. -/
theorem runChunk_finish {calls : List ChunkCall} {finish : Bool} {e : ChunkEnd}
    (h : b.runChunk profile calls finish = .ok (b', e)) :
    (finish = true → e ≠ .dropped) ∧ (e.appended true = true → finish = true) := by
  cases finish with
  | false =>
    cases h
    exact ⟨nofun, nofun⟩
  | true =>
    obtain ⟨out, -, h⟩ := Exec.bind_eq_ok.mp h
    cases h
    exact ⟨fun _ => nofun, fun _ => rfl⟩

/-- Whatever a chunk handle does is an attempt. -/
theorem attempted_of_runChunk {calls : List ChunkCall} {finish : Bool} {e : ChunkEnd}
    (hcheck : b.checkContinuity = true) (h : b.runChunk profile calls finish = .ok (b', e)) :
    b'.checkContinuity = true ∧
      Attempted profile b.lastBlock b'.lastBlock (ChunkBuilder.ofCalls calls).blockRange e := by
  cases finish with
  | false =>
    cases h
    exact ⟨hcheck, Or.inl ⟨rfl, rfl⟩⟩
  | true =>
    obtain ⟨⟨mid, r⟩, hfinish, h⟩ := Exec.bind_eq_ok.mp h
    cases h
    obtain ⟨chunk, dataset, range, -, hrange, -, hadd⟩ := finish_adds hfinish
    obtain ⟨result, hcontinuity, hadd⟩ := Exec.bind_eq_ok.mp hadd
    rw [hcheck] at hadd
    have happended := appended_of_continuity hcontinuity true
    by_cases hok : result = .ok ()
    · rw [if_pos (Or.inl hok)] at hadd
      cases hadd
      subst hok
      exact ⟨rfl, Or.inr ⟨range, hrange, rfl, rfl, hcontinuity⟩⟩
    · rw [if_neg (by simp [hok])] at hadd
      cases hadd
      refine ⟨hcheck, Or.inl ⟨Bool.eq_false_iff.mpr fun ha => ?_, rfl⟩⟩
      exact (happended.mp ha).elim hok (by simp)

/-- The builder enforces continuity exactly short of the last block. -/
theorem enforces_iff {s : AppendedRanges} (hcheck : b.checkContinuity = true)
    (hends : s.Ends b.lastBlock) :
    EnforcesContinuity b.lastBlock s.current (b.Finishing profile) ↔
      b.lastBlock ≠ some topBlock := by
  apply enforcesContinuity_iff hends
  rintro range e ⟨calls, b', rfl, hrun⟩
  exact ⟨(runChunk_finish hrun).1 rfl, _, (attempted_of_runChunk hcheck hrun).2⟩

variable [LT P] [DecidableLT P] {env : Sealing P Key Rng}

/-- An operation attempts a chunk, closes the dataset or leaves the last block alone. -/
theorem moves_of_step {op : AssignmentOp P} {r : AssignmentResult}
    (hcheck : b.checkContinuity = true) (hstep : b.step profile env op = .ok (b', r)) :
    b'.checkContinuity = true ∧ (rangeEvent (op, r)).Moves profile b.lastBlock b'.lastBlock := by
  cases op with
  | chunk calls finish =>
    obtain ⟨⟨mid, e⟩, hrun, hout⟩ := Exec.bind_eq_ok.mp hstep
    cases hout
    exact attempted_of_runChunk hcheck hrun
  | finishDataset =>
    obtain ⟨mid, hclose, hout⟩ := Exec.bind_eq_ok.mp hstep
    cases hout
    obtain ⟨lastBlock, -, hclose⟩ := Exec.bind_eq_ok.mp hclose
    obtain ⟨id, -, hclose⟩ := Exec.bind_eq_ok.mp hclose
    cases hclose
    exact ⟨hcheck, rfl⟩
  | addWorker peer status timestamp =>
    obtain ⟨mid, hadd, hout⟩ := Exec.bind_eq_ok.mp hstep
    cases hout
    obtain ⟨rng, workers, rfl⟩ := addWorker_frame hadd
    exact ⟨hcheck, rfl⟩

/-- What the operations of the legacy builder do to the last block. -/
theorem movesLastBlock : MovesLastBlock profile (step profile env)
    (fun b : AssignmentBuilder P Key Rng => b.checkContinuity = true) (fun b => b.lastBlock)
    rangeEvent finishes := by
  constructor
  · intro b b' op r hcheck hstep
    exact (moves_of_step hcheck hstep).1
  · intro b b' op r hcheck hstep
    exact (moves_of_step hcheck hstep).2
  · intro b b' op r hstep happends
    cases op with
    | chunk calls finish =>
      obtain ⟨⟨mid, e⟩, hrun, hout⟩ := Exec.bind_eq_ok.mp hstep
      cases hout
      exact (runChunk_finish hrun).2 happends
    | finishDataset =>
      obtain ⟨mid, -, hout⟩ := Exec.bind_eq_ok.mp hstep
      cases hout
      exact happends.elim
    | addWorker peer status timestamp => exact happends.elim

end AssignmentBuilder

/-- With the check on, in every state that a run of any of the three builders reaches: whatever
chunk is finished next, continuity is enforced and can be evaluated, exactly if the open dataset
does not end with the last of all blocks. A run that finishes chunks only in such states appends
consecutive chunks to each dataset. -/
theorem continuity_enforced_iff (P Key Rng : Type) [LT P] [DecidableLT P] (profile : Profile) :
    (∀ (env : Sealing P Key Rng) (secret : String) (rng : Rng) (ops : List (AssignmentOp P))
      (b : AssignmentBuilder P Key Rng) (log : List (AssignmentOp P × AssignmentResult)),
      runScript (AssignmentBuilder.step profile env)
        ((AssignmentBuilder.newWithRng env secret rng).setCheckContinuity true) ops =
          .ok (b, log) →
      (EnforcesContinuity b.lastBlock
        (AppendedRanges.ofLog AssignmentBuilder.rangeEvent log).current
        (b.Finishing profile) ↔ b.lastBlock ≠ some topBlock) ∧
      (EveryOp (AssignmentBuilder.step profile env)
        (BelowTop AssignmentBuilder.lastBlock AssignmentBuilder.finishes)
        ((AssignmentBuilder.newWithRng env secret rng).setCheckContinuity true) ops →
        (AppendedRanges.ofLog AssignmentBuilder.rangeEvent log).Consecutive)) ∧
    (∀ (env : Sealing P Key Rng) (secret : String) (rng : Rng) (ops : List (WorkerOp P))
      (start : WorkerAssignmentBuilder P Key Rng) (log : List (WorkerOp P × WorkerResult))
      (dops : List WorkerDatasetOp) (b : WorkerAssignmentBuilder P Key Rng)
      (dlog : List (WorkerDatasetOp × WorkerDatasetResult)),
      runScript (WorkerAssignmentBuilder.step profile env)
        ((WorkerAssignmentBuilder.newWithRng env secret rng).setCheckContinuity true) ops =
          .ok (start, log) →
      runScript (WorkerAssignmentBuilder.datasetStep profile) start dops = .ok (b, dlog) →
      (EnforcesContinuity b.lastBlock
        (AppendedRanges.ofLog WorkerAssignmentBuilder.rangeEvent dlog).current
        (b.Finishing profile) ↔ b.lastBlock ≠ some topBlock) ∧
      (EveryOp (WorkerAssignmentBuilder.datasetStep profile)
        (BelowTop WorkerAssignmentBuilder.lastBlock WorkerAssignmentBuilder.finishes) start dops →
        (AppendedRanges.ofLog WorkerAssignmentBuilder.rangeEvent dlog).Consecutive)) ∧
    ∀ (toBytes : P → List UInt8) (ops : List (PortalOp P)) (start : PortalAssignmentBuilder P)
      (log : List (PortalOp P × PortalResult)) (dops : List PortalDatasetOp)
      (b : PortalAssignmentBuilder P) (dlog : List (PortalDatasetOp × ChunkEnd)),
      runScript (PortalAssignmentBuilder.step profile toBytes)
        (PortalAssignmentBuilder.new.setCheckContinuity true) ops = .ok (start, log) →
      runScript (PortalAssignmentBuilder.runChunk profile) start dops = .ok (b, dlog) →
      (EnforcesContinuity b.lastBlock
        (AppendedRanges.ofLog PortalAssignmentBuilder.rangeEvent dlog).current
        (b.Finishing profile) ↔ b.lastBlock ≠ some topBlock) ∧
      (EveryOp (PortalAssignmentBuilder.runChunk profile)
        (BelowTop PortalAssignmentBuilder.lastBlock PortalDatasetOp.finish) start dops →
        (AppendedRanges.ofLog PortalAssignmentBuilder.rangeEvent dlog).Consecutive) := by
  refine ⟨?_, ?_, ?_⟩
  · intro env secret rng ops b log hrun
    obtain ⟨hcheck, hends⟩ := AssignmentBuilder.movesLastBlock.ends rfl rfl hrun
    exact ⟨AssignmentBuilder.enforces_iff hcheck hends,
      fun hbelow => AssignmentBuilder.movesLastBlock.consecutive rfl rfl hbelow hrun⟩
  · intro env secret rng ops start log dops b dlog hrun hopen
    have hbetween := WorkerAssignmentBuilder.between_of_runScript hrun
    obtain ⟨hcheck, hends⟩ := WorkerAssignmentBuilder.movesLastBlock.ends
      hbetween.checkContinuity hbetween.lastBlock hopen
    exact ⟨WorkerAssignmentBuilder.enforces_iff hcheck hends,
      fun hbelow => WorkerAssignmentBuilder.movesLastBlock.consecutive hbetween.checkContinuity
        hbetween.lastBlock hbelow hopen⟩
  · intro toBytes ops start log dops b dlog hrun hopen
    have hbetween := PortalAssignmentBuilder.between_of_runScript hrun
    obtain ⟨hcheck, hends⟩ := PortalAssignmentBuilder.movesLastBlock.ends
      hbetween.checkContinuity hbetween.lastBlock hopen
    exact ⟨PortalAssignmentBuilder.enforces_iff hcheck hends,
      fun hbelow => PortalAssignmentBuilder.movesLastBlock.consecutive hbetween.checkContinuity
        hbetween.lastBlock hbelow hopen⟩

/-- A portal chunk up to block 9. -/
def sampleFirstChunk : PortalDatasetOp := ⟨[.id sampleIds.1, .blockRange ⟨0, 9⟩], true⟩

theorem continuity_enforced_iff_sample :
    ∃ (b : PortalAssignmentBuilder Nat) (dlog : List (PortalDatasetOp × ChunkEnd)),
      runScript (PortalAssignmentBuilder.runChunk .debug) .new [sampleFirstChunk] =
        .ok (b, dlog) ∧ b.lastBlock = some 9 ∧
      EnforcesContinuity b.lastBlock
        (AppendedRanges.ofLog PortalAssignmentBuilder.rangeEvent dlog).current
        (b.Finishing .debug) ∧
      (AppendedRanges.ofLog PortalAssignmentBuilder.rangeEvent dlog).Consecutive := by
  have h := (continuity_enforced_iff Nat Unit Unit .debug).2.2 (fun _ => []) [] .new _
    [sampleFirstChunk] _ _ rfl rfl
  refine ⟨_, _, rfl, rfl, h.1.mpr ?_, h.2 ⟨fun _ => ?_, fun _ _ _ => trivial⟩⟩
  · exact fun hlast => absurd (Option.some.inj hlast) (by decide)
  · exact fun hlast => Option.some_ne_none _ hlast.symm

/-- The id of a chunk that ends with the last of all blocks. -/
def sampleTopId : DataChunk :=
  (DataChunk.new topBlock topBlock topBlock "abcde").get (by decide)

/-- A portal chunk that ends with the last of all blocks, and one that starts over. -/
def sampleWrap : List PortalDatasetOp :=
  [⟨[.id sampleTopId, .blockRange ⟨topBlock, topBlock⟩], true⟩, sampleFirstChunk]

/-- After a chunk that ends with the last of all blocks, a release build appends one that starts
at block 0 and a debug build panics. -/
theorem continuity_wraps :
    (∃ (b : PortalAssignmentBuilder Nat) (log : List (PortalDatasetOp × ChunkEnd)),
      runScript (PortalAssignmentBuilder.runChunk .release)
        (PortalAssignmentBuilder.new.setCheckContinuity true) sampleWrap = .ok (b, log) ∧
      log.map Prod.snd = [.finished (.ok ()), .finished (.ok ())] ∧
      (AppendedRanges.ofLog PortalAssignmentBuilder.rangeEvent log).current =
        [⟨topBlock, topBlock⟩, ⟨0, 9⟩] ∧
      ¬(AppendedRanges.ofLog PortalAssignmentBuilder.rangeEvent log).Consecutive) ∧
    runScript (PortalAssignmentBuilder.runChunk .debug)
      ((PortalAssignmentBuilder.new : PortalAssignmentBuilder Nat).setCheckContinuity true)
        sampleWrap = .error .overflow := by
  refine ⟨⟨_, _, rfl, rfl, rfl, fun h => ?_⟩, rfl⟩
  have hnext := List.isChain_pair.mp h.current
  exact absurd hnext (by decide)

end SqdNetwork.Assignments
