import SqdNetwork.Core.Machine
import SqdNetwork.Transport.StreamClient

/-!
# Streams open to one peer

The semaphore of a handle bounds the streams that the handle has open to a peer.
The clones of a handle have semaphores of their own, so the bound holds over all of
them only where each peer is called through one handle.
-/

namespace SqdNetwork.Transport

open SqdNetwork.Core

namespace StreamClients

variable {P : Type} [DecidableEq P]

/-- The permits that calls through a handle hold for a peer. -/
def held (c : StreamClients P) (handle : Nat) (peer : P) : Nat :=
  c.calls.countP fun call => call.handle = handle && call.peer = peer && call.phase.holdsPermit

/-- The handle has a semaphore for the peer: it has been called for it. -/
def HasSemaphore (c : StreamClients P) (handle : Nat) (peer : P) : Prop :=
  ∃ table ∈ c.handles[handle]?, table.left peer ≠ none

instance (c : StreamClients P) (handle : Nat) (peer : P) : Decidable (c.HasSemaphore handle peer) :=
  inferInstanceAs (Decidable (∃ table ∈ c.handles[handle]?, table.left peer ≠ none))

/-- The semaphores count the permits that calls hold, and every call is through a handle. -/
structure Counted (c : StreamClients P) (limit : Nat) : Prop where
  balanced : ∀ (h : Nat) (table : Permits P), c.handles[h]? = some table →
    table.Balanced limit (c.held h)
  handled : ∀ call ∈ c.calls, call.handle < c.handles.length

/-- No two handles have a semaphore for one peer. -/
def Sole (c : StreamClients P) : Prop :=
  ∀ peer h h', c.HasSemaphore h peer → c.HasSemaphore h' peer → h = h'

/-- Moving a call on changes only what is held through its handle for its peer. -/
theorem held_setPhase {c : StreamClients P} {index : Nat} {call : StreamCall P}
    (hcall : c.calls[index]? = some call) (phase : CallPhase) (h : Nat) (p : P) :
    (c.setPhase index call phase).held h p +
        (if call.handle = h ∧ call.peer = p then call.phase.holdsPermit.toNat else 0) =
      c.held h p + (if call.handle = h ∧ call.peer = p then phase.holdsPermit.toNat else 0) := by
  have hcount := countP_set_add hcall { call with phase := phase }
    (fun call => call.handle = h && call.peer = p && call.phase.holdsPermit)
  by_cases hkey : call.handle = h ∧ call.peer = p
  · obtain ⟨rfl, rfl⟩ := hkey
    cases hold : call.phase.holdsPermit <;> cases hnew : phase.holdsPermit <;>
      simpa [held, setPhase, hold, hnew] using hcount
  · have hfalse : (decide (call.handle = h) && decide (call.peer = p)) = false := by
      simpa using hkey
    simpa [held, setPhase, hkey, hfalse] using hcount

theorem counted_start (limit : Nat) : (start : StreamClients P).Counted limit where
  balanced h table htable := by
    cases h with
    | zero =>
      cases htable
      exact Permits.balanced_empty limit
    | succ h => simp [start] at htable
  handled := by simp [start]

/-- Calls that move on without taking or giving back a permit. -/
theorem Counted.setPhase {c : StreamClients P} {limit : Nat} (hc : c.Counted limit) {index : Nat}
    {call : StreamCall P} (hcall : c.calls[index]? = some call) {phase : CallPhase}
    (hphase : phase.holdsPermit = call.phase.holdsPermit) :
    (c.setPhase index call phase).Counted limit where
  balanced h table htable := by
    have hheld : (c.setPhase index call phase).held h = c.held h := by
      funext p
      have hadd := held_setPhase hcall phase h p
      rw [hphase] at hadd
      omega
    rw [hheld]
    exact hc.balanced h table htable
  handled call' hcall' := by
    rcases List.mem_or_eq_of_mem_set hcall' with hcall' | rfl
    · exact hc.handled call' hcall'
    · exact hc.handled call (List.mem_of_getElem? hcall)

/-- A call takes or gives back a permit as it moves on. -/
theorem Counted.setHandle {c d : StreamClients P} {limit : Nat} (hc : c.Counted limit)
    {index : Nat} {call : StreamCall P} (hcall : c.calls[index]? = some call) {phase : CallPhase}
    (hcalls : d.calls = (c.setPhase index call phase).calls) {new : Permits P}
    (hhandles : d.handles = c.handles.set call.handle new)
    (hbalanced : ∀ held' : P → Nat,
      held' call.peer + call.phase.holdsPermit.toNat =
          c.held call.handle call.peer + phase.holdsPermit.toNat →
        (∀ p, p ≠ call.peer → held' p = c.held call.handle p) → new.Balanced limit held') :
    d.Counted limit := by
  have hlt : call.handle < c.handles.length := hc.handled call (List.mem_of_getElem? hcall)
  have hheld : ∀ h, d.held h = (c.setPhase index call phase).held h := by
    intro h
    funext p
    rw [held, hcalls, held]
  refine ⟨fun h table htable => ?_, fun call' hcall' => ?_⟩
  · rw [hheld]
    rw [hhandles] at htable
    rcases getElem?_set_cases htable with ⟨rfl, rfl⟩ | ⟨hh, htable⟩
    · refine hbalanced _ ?_ fun p hp => ?_
      · simpa using held_setPhase hcall phase call.handle call.peer
      · simpa [hp.symm] using held_setPhase hcall phase call.handle p
    · have hsame : (c.setPhase index call phase).held h = c.held h := by
        funext p
        simpa [Ne.symm hh] using held_setPhase hcall phase h p
      rw [hsame]
      exact hc.balanced h table htable
  · rw [hhandles, List.length_set]
    rw [hcalls] at hcall'
    rcases List.mem_or_eq_of_mem_set hcall' with hcall' | rfl
    · exact hc.handled call' hcall'
    · exact hlt

omit [DecidableEq P] in
/-- The handles after one was cloned. -/
theorem handles_append {c : StreamClients P} {h : Nat} {table : Permits P}
    (htable : (c.handles ++ [.empty])[h]? = some table) :
    c.handles[h]? = some table ∨ h = c.handles.length ∧ table = .empty := by
  by_cases hlt : h < c.handles.length
  · rw [List.getElem?_append_left hlt] at htable
    exact .inl htable
  · rw [List.getElem?_append_right (by omega), List.getElem?_singleton] at htable
    split at htable
    · next hzero =>
      cases htable
      exact .inr ⟨by omega, rfl⟩
    · cases htable

theorem Counted.clone {c : StreamClients P} {limit : Nat} (hc : c.Counted limit) (handle : Nat) :
    (c.clone handle).Counted limit := by
  unfold StreamClients.clone
  split
  · exact hc
  · refine ⟨fun h table htable => ?_, fun call hcall => ?_⟩
    · rcases handles_append htable with hold | ⟨rfl, rfl⟩
      · exact hc.balanced h table hold
      · intro p
        refine List.countP_eq_zero.mpr fun call hcall => ?_
        have hne := (hc.handled call hcall).ne
        simp [hne]
    · rw [List.length_append]
      exact Nat.lt_add_right _ (hc.handled call hcall)

theorem Counted.acquire {c : StreamClients P} {config : ClientConfig} {limit : Nat}
    (hc : c.Counted limit) (hlimit : config.maxConcurrentStreams = some limit) (index : Nat) :
    (c.acquire config index).Counted limit := by
  unfold StreamClients.acquire
  split
  · exact hc
  · next call hcall =>
    split
    · next hwaiting =>
      rw [hlimit]
      dsimp only
      split
      · exact hc
      · next new hnew =>
        obtain ⟨table, htable, hacquire⟩ := Option.bind_eq_some_iff.mp hnew
        refine hc.setHandle hcall rfl rfl fun held' hself hothers => ?_
        refine (hc.balanced _ _ htable).acquire hacquire ?_ hothers
        simpa [hwaiting, CallPhase.holdsPermit] using hself
    · exact hc

theorem Counted.advance {c : StreamClients P} {limit : Nat} (hc : c.Counted limit) (index : Nat)
    {source target : CallPhase} (hphase : target.holdsPermit = source.holdsPermit) :
    (c.advance index source target).Counted limit := by
  unfold StreamClients.advance
  split
  · exact hc
  · next call hcall =>
    split
    · next hsource => exact hc.setPhase hcall (hsource ▸ hphase)
    · exact hc

theorem Counted.finish {c : StreamClients P} {config : ClientConfig} {limit : Nat}
    (hc : c.Counted limit) (hlimit : config.maxConcurrentStreams = some limit) (index : Nat)
    (how : CallEnd) : (c.finish config index how).Counted limit := by
  unfold StreamClients.finish
  split
  · exact hc
  · next call hcall =>
    split
    · cases hholds : call.phase.holdsPermit with
      | false =>
        simp only [Bool.false_and, Bool.false_eq_true, if_false]
        exact hc.setPhase hcall hholds.symm
      | true =>
        obtain ⟨table, htable⟩ : ∃ table, c.handles[call.handle]? = some table :=
          ⟨_, List.getElem?_eq_getElem (hc.handled call (List.mem_of_getElem? hcall))⟩
        have hmodify : c.handles.modify call.handle (·.release call.peer) =
            c.handles.set call.handle (table.release call.peer) := by
          rw [List.modify_eq_set_getElem?, htable]
          rfl
        simp only [hlimit, Option.isSome_some, Bool.and_self, if_true, hmodify]
        refine hc.setHandle hcall rfl rfl fun held' hself hothers => ?_
        rw [hholds] at hself
        exact (hc.balanced _ _ htable).release hself.symm hothers
    · exact hc

/-- A call that holds no permit is added. -/
theorem Counted.addCall {c : StreamClients P} {limit : Nat} (hc : c.Counted limit)
    {call : StreamCall P} (hphase : call.phase.holdsPermit = false)
    (hhandle : call.handle < c.handles.length) :
    (⟨c.handles, c.calls ++ [call]⟩ : StreamClients P).Counted limit where
  balanced h table htable := by
    have hheld : (⟨c.handles, c.calls ++ [call]⟩ : StreamClients P).held h = c.held h := by
      funext p
      simp [held, List.countP_append, hphase]
    rw [hheld]
    exact hc.balanced h table htable
  handled call' hcall' := by
    rcases List.mem_append.mp hcall' with hcall' | hcall'
    · exact hc.handled call' hcall'
    · rw [List.mem_singleton.mp hcall']
      exact hhandle

/-- A handle has a semaphore made for a peer. -/
theorem Counted.ensure {c : StreamClients P} {limit : Nat} (hc : c.Counted limit) {handle : Nat}
    {table : Permits P} (htable : c.handles[handle]? = some table) (peer : P) :
    (⟨c.handles.set handle (table.ensure peer limit), c.calls⟩ : StreamClients P).Counted
      limit where
  balanced h table' htable' := by
    rcases getElem?_set_cases htable' with ⟨rfl, rfl⟩ | ⟨-, hold⟩
    · exact (hc.balanced h table htable).ensure peer
    · exact hc.balanced h table' hold
  handled call hcall := by
    rw [List.length_set]
    exact hc.handled call hcall

theorem Counted.call {c : StreamClients P} {config : ClientConfig} {limit : Nat}
    (hc : c.Counted limit) (hlimit : config.maxConcurrentStreams = some limit) (maxPermits : Nat)
    (handle : Nat) (peer : P) (kind : CallKind) :
    (c.call config maxPermits handle peer kind).Counted limit := by
  unfold StreamClients.call
  split
  · exact hc
  · next table htable =>
    have hlt : handle < c.handles.length := (List.getElem?_eq_some_iff.mp htable).1
    rw [hlimit]
    dsimp only
    split
    · exact hc.addCall rfl hlt
    · exact (hc.ensure htable peer).addCall rfl (by simpa using hlt)

/-- Every step keeps the count. -/
theorem Counted.step {c : StreamClients P} {config : ClientConfig} {limit : Nat}
    (hc : c.Counted limit) (hlimit : config.maxConcurrentStreams = some limit) (maxPermits : Nat)
    (a : ClientAction P) : (c.step config maxPermits a).Counted limit := by
  cases a with
  | clone handle => exact hc.clone handle
  | call handle peer kind => exact hc.call hlimit maxPermits handle peer kind
  | acquire index => exact hc.acquire hlimit index
  | deliver index => exact hc.advance index rfl
  | take index => exact hc.advance index rfl
  | finish index how => exact hc.finish hlimit index how

/-- The calls through one handle hold no more permits for a peer than the limit. -/
theorem Counted.held_le {c : StreamClients P} {limit : Nat} (hc : c.Counted limit) (handle : Nat)
    (peer : P) : c.held handle peer ≤ limit := by
  by_cases hlt : handle < c.handles.length
  · exact (hc.balanced _ _ (List.getElem?_eq_getElem hlt)).held_le peer
  · have hzero : c.held handle peer = 0 := by
      refine List.countP_eq_zero.mpr fun call hcall => ?_
      have hne : call.handle ≠ handle := fun heq => hlt (heq ▸ hc.handled call hcall)
      simp [hne]
    omega

/-- Whatever is cloned and called, each handle keeps to the limit. -/
theorem held_within_limit {config : ClientConfig} {limit : Nat}
    (hlimit : config.maxConcurrentStreams = some limit) (maxPermits : Nat)
    (actions : List (ClientAction P)) :
    Throughout (step config maxPermits) (fun c => ∀ handle peer, c.held handle peer ≤ limit)
      start actions := by
  have hcounted : Throughout (step config maxPermits) (fun c => c.Counted limit) start actions :=
    throughout_of_invariant (fun _ a hc => hc.step hlimit maxPermits a) actions
      (counted_start limit)
  exact hcounted.imp fun c hc => hc.held_le

omit [DecidableEq P] in
/-- Replacing the semaphores of one handle adds only the semaphores that are new there. -/
theorem HasSemaphore.of_set {c d : StreamClients P} {handle h : Nat} {table new : Permits P}
    {p : P} (htable : c.handles[handle]? = some table)
    (hhandles : d.handles = c.handles.set handle new) (hd : d.HasSemaphore h p)
    (hleft : h = handle → table.left p = none → new.left p = none) : c.HasSemaphore h p := by
  obtain ⟨table', htable', hsome⟩ := hd
  rw [hhandles] at htable'
  rcases getElem?_set_cases htable' with ⟨rfl, rfl⟩ | ⟨-, hold⟩
  · exact ⟨table, htable, fun hnone => hsome (hleft rfl hnone)⟩
  · exact ⟨table', hold, hsome⟩

omit [DecidableEq P] in
theorem hasSemaphore_of_clone {c : StreamClients P} {handle h : Nat} {p : P}
    (hclone : (c.clone handle).HasSemaphore h p) : c.HasSemaphore h p := by
  unfold StreamClients.clone at hclone
  split at hclone
  · exact hclone
  · obtain ⟨table, htable, hsome⟩ := hclone
    rcases handles_append htable with hold | ⟨-, rfl⟩
    · exact ⟨table, hold, hsome⟩
    · exact absurd rfl hsome

theorem hasSemaphore_of_call {config : ClientConfig} {maxPermits : Nat} {c : StreamClients P}
    {handle h : Nat} {peer p : P} {kind : CallKind}
    (hcall : (c.call config maxPermits handle peer kind).HasSemaphore h p) :
    c.HasSemaphore h p ∨ h = handle ∧ p = peer := by
  unfold StreamClients.call at hcall
  split at hcall
  · exact .inl hcall
  · next table htable =>
    split at hcall
    · exact .inl hcall
    · split at hcall
      · exact .inl hcall
      · by_cases hkey : h = handle ∧ p = peer
        · exact .inr hkey
        · refine .inl (HasSemaphore.of_set htable rfl hcall fun hh hnone => ?_)
          exact (Permits.left_ensure _ _ _ _).mpr ⟨fun hp => hkey ⟨hh, hp⟩, hnone⟩

theorem hasSemaphore_of_acquire {config : ClientConfig} {c : StreamClients P} {index h : Nat}
    {p : P} (hacquire : (c.acquire config index).HasSemaphore h p) : c.HasSemaphore h p := by
  unfold StreamClients.acquire at hacquire
  split at hacquire
  · exact hacquire
  · split at hacquire
    · split at hacquire
      · exact hacquire
      · split at hacquire
        · exact hacquire
        · next new hnew =>
          obtain ⟨table, htable, htake⟩ := Option.bind_eq_some_iff.mp hnew
          exact HasSemaphore.of_set htable rfl hacquire fun _ => (Permits.left_acquire htake p).mpr
    · exact hacquire

omit [DecidableEq P] in
theorem hasSemaphore_of_advance {c : StreamClients P} {index h : Nat} {source target : CallPhase}
    {p : P} (hadvance : (c.advance index source target).HasSemaphore h p) :
    c.HasSemaphore h p := by
  unfold StreamClients.advance at hadvance
  split at hadvance
  · exact hadvance
  · split at hadvance
    · exact hadvance
    · exact hadvance

theorem hasSemaphore_of_finish {config : ClientConfig} {c : StreamClients P} {index h : Nat}
    {how : CallEnd} {p : P} (hfinish : (c.finish config index how).HasSemaphore h p) :
    c.HasSemaphore h p := by
  unfold StreamClients.finish at hfinish
  split at hfinish
  · exact hfinish
  · next call hcall =>
    split at hfinish
    · obtain ⟨table, htable, hsome⟩ := hfinish
      simp only [StreamClients.setPhase] at htable
      split at htable
      · rw [Option.mem_def, List.getElem?_modify] at htable
        obtain ⟨old, hold, rfl⟩ := Option.map_eq_some_iff.mp htable
        refine ⟨old, hold, fun hnone => hsome ?_⟩
        split
        · exact (Permits.left_release _ _ _).mpr hnone
        · exact hnone
      · exact ⟨table, htable, hsome⟩
    · exact hfinish

/-- A step makes a semaphore only for the handle and the peer that it calls. -/
theorem hasSemaphore_of_step {config : ClientConfig} {maxPermits : Nat} {c : StreamClients P}
    {a : ClientAction P} {h : Nat} {p : P}
    (hstep : (c.step config maxPermits a).HasSemaphore h p) :
    c.HasSemaphore h p ∨ ∃ kind, a = .call h p kind := by
  cases a with
  | clone handle => exact .inl (hasSemaphore_of_clone hstep)
  | call handle peer kind =>
    rcases hasSemaphore_of_call hstep with hold | ⟨rfl, rfl⟩
    · exact .inl hold
    · exact .inr ⟨kind, rfl⟩
  | acquire index => exact .inl (hasSemaphore_of_acquire hstep)
  | deliver index => exact .inl (hasSemaphore_of_advance hstep)
  | take index => exact .inl (hasSemaphore_of_advance hstep)
  | finish index how => exact .inl (hasSemaphore_of_finish hstep)

/-- A call to a peer starts through a handle only if no other handle has been called for it. -/
def OneHandlePerPeer (c : StreamClients P) : ClientAction P → Prop
  | .call handle peer _ => ∀ h < c.handles.length, h ≠ handle → ¬ c.HasSemaphore h peer
  | .clone _ | .acquire _ | .deliver _ | .take _ | .finish _ _ => True

instance (c : StreamClients P) : (a : ClientAction P) → Decidable (c.OneHandlePerPeer a)
  | .call handle peer _ => inferInstanceAs
      (Decidable (∀ h < c.handles.length, h ≠ handle → ¬ c.HasSemaphore h peer))
  | .clone _ | .acquire _ | .deliver _ | .take _ | .finish _ _ => isTrue trivial

omit [DecidableEq P] in
/-- Under the condition, a handle with a semaphore for the peer of a call is the one called. -/
theorem OneHandlePerPeer.eq_handle {c : StreamClients P} {handle h : Nat} {peer : P}
    {kind : CallKind} (hok : c.OneHandlePerPeer (.call handle peer kind))
    (hh : c.HasSemaphore h peer) : h = handle := by
  obtain ⟨table, htable, -⟩ := id hh
  by_contra hne
  exact hok h (List.getElem?_eq_some_iff.mp htable).1 hne hh

theorem Sole.step {config : ClientConfig} {maxPermits : Nat} {c : StreamClients P}
    (hsole : c.Sole) {a : ClientAction P} (hok : c.OneHandlePerPeer a) :
    (c.step config maxPermits a).Sole := by
  intro p h h' hh hh'
  rcases hasSemaphore_of_step hh with hhas | ⟨kind, rfl⟩
  · rcases hasSemaphore_of_step hh' with hhas' | ⟨kind, rfl⟩
    · exact hsole p h h' hhas hhas'
    · exact hok.eq_handle hhas
  · rcases hasSemaphore_of_step hh' with hhas' | ⟨kind', hcall⟩
    · exact (hok.eq_handle hhas').symm
    · cases hcall
      rfl

end StreamClients

end SqdNetwork.Transport
