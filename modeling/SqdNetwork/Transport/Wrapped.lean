import SqdNetwork.Transport.InboundStreams

/-!
# Wrapped behaviours

Most behaviours here wrap another one: they see what happens to it, pass its commands
on to the swarm, and tell events of their own. `Wrapped` turns such a wrapper into a
behaviour that tells the swarm one thing at a time. What the wrapper has to tell is
kept in order until the swarm has taken it.
-/

namespace SqdNetwork.Transport

open SqdNetwork.Core

/-- What a behaviour tells the swarm: an event, or a command. -/
inductive ToSwarm (E C : Type) where
  | generateEvent (event : E)
  | command (command : C)
  deriving DecidableEq

/-- A behaviour around an inner one, both with state `W`: `F` is what the swarm tells, `I` are the
events of the inner behaviour, `E` the events of the wrapper and `C` the commands of both. -/
structure BehaviourWrapper (W F I E C : Type) where
  innerOnSwarmEvent : W → F → W
  innerPoll : W → W × Poll (ToSwarm I C)
  onSwarmEvent : W → F → W × List (ToSwarm E C) := fun w _ => (w, [])
  onInnerEvent : W → I → W × List (ToSwarm E C) := fun w _ => (w, [])
  poll : W → W × Poll (List (ToSwarm E C)) := fun w => (w, .pending)

/-- Events of the inner behaviour are handled, its commands passed on. -/
def BehaviourWrapper.onInnerCommand {W F I E C : Type} (b : BehaviourWrapper W F I E C) (w : W) :
    ToSwarm I C → W × List (ToSwarm E C)
  | .generateEvent event => b.onInnerEvent w event
  | .command command => (w, [.command command])

/-- A wrapper and what it has to tell. -/
structure Wrapped (W E C : Type) where
  wrapper : W
  pendingEvents : List (ToSwarm E C)

namespace Wrapped

variable {W F I E C : Type}

/-- The inner behaviour is told first. -/
def onSwarmEvent (b : BehaviourWrapper W F I E C) (s : Wrapped W E C) (event : F) :
    Wrapped W E C :=
  let (wrapper, events) := b.onSwarmEvent (b.innerOnSwarmEvent s.wrapper event) event
  ⟨wrapper, s.pendingEvents ++ events⟩

/-- The loop of polling: what is pending goes first, then the wrapper is polled, then the inner
behaviour. The loop ends with something to tell or when both have nothing to say; with `fuel`
rounds it may not have ended. -/
def poll (b : BehaviourWrapper W F I E C) :
    Nat → Wrapped W E C → Option (Wrapped W E C × Poll (ToSwarm E C))
  | 0, _ => none
  | fuel + 1, s =>
    match s.pendingEvents with
    | event :: events => some (⟨s.wrapper, events⟩, .ready event)
    | [] =>
      match b.poll s.wrapper with
      | (wrapper, .ready events) => poll b fuel ⟨wrapper, events⟩
      | (wrapper, .pending) =>
        match b.innerPoll wrapper with
        | (wrapper, .ready event) =>
          let (wrapper, events) := b.onInnerCommand wrapper event
          poll b fuel ⟨wrapper, events⟩
        | (wrapper, .pending) => some (⟨wrapper, []⟩, .pending)

end Wrapped

/-- What the swarm does to a behaviour. -/
inductive WrappedAction (F : Type) where
  | onSwarmEvent (event : F)
  | poll

namespace Wrapped

variable {W F I E C : Type}

/-- A run of the swarm, with what each poll gave; none if a poll has not ended. -/
def run (b : BehaviourWrapper W F I E C) (fuel : Nat) :
    Wrapped W E C → List (WrappedAction F) → Option (Wrapped W E C × List (Poll (ToSwarm E C)))
  | s, [] => some (s, [])
  | s, .onSwarmEvent event :: actions => run b fuel (s.onSwarmEvent b event) actions
  | s, .poll :: actions =>
    match poll b fuel s with
    | none => none
    | some (s, polled) => (run b fuel s actions).map fun r => (r.1, polled :: r.2)

/-- What the swarm was told. -/
def told : List (Poll (ToSwarm E C)) → List (ToSwarm E C)
  | [] => []
  | .ready event :: polls => event :: told polls
  | .pending :: polls => told polls

/-- The wrapper with a log of all it has to tell and of all commands of the inner behaviour, in the
order in which they arise. -/
def logged (b : BehaviourWrapper W F I E C) :
    BehaviourWrapper (W × List (ToSwarm E C)) F I E C where
  innerOnSwarmEvent w event := (b.innerOnSwarmEvent w.1 event, w.2)
  innerPoll w :=
    match b.innerPoll w.1 with
    | (w', .ready (.command command)) =>
      ((w', w.2 ++ [.command command]), .ready (.command command))
    | (w', polled) => ((w', w.2), polled)
  onSwarmEvent w event :=
    let (w', events) := b.onSwarmEvent w.1 event
    ((w', w.2 ++ events), events)
  onInnerEvent w event :=
    let (w', events) := b.onInnerEvent w.1 event
    ((w', w.2 ++ events), events)
  poll w :=
    match b.poll w.1 with
    | (w', .ready events) => ((w', w.2 ++ events), .ready events)
    | (w', .pending) => ((w', w.2), .pending)

variable (b : BehaviourWrapper W F I E C)

section Rounds

variable {b} {w w' w'' : W} {events : List (ToSwarm E C)} {event : ToSwarm I C}

theorem poll_of_ready (fuel : Nat) (h : b.poll w = (w', .ready events)) :
    poll b (fuel + 1) ⟨w, []⟩ = poll b fuel ⟨w', events⟩ := by
  simp only [poll, h]

theorem poll_of_inner (fuel : Nat) (h : b.poll w = (w', .pending))
    (hinner : b.innerPoll w' = (w'', .ready event)) :
    poll b (fuel + 1) ⟨w, []⟩ =
      poll b fuel ⟨(b.onInnerCommand w'' event).1, (b.onInnerCommand w'' event).2⟩ := by
  simp only [poll, h, hinner]

theorem poll_of_pending (fuel : Nat) (h : b.poll w = (w', .pending))
    (hinner : b.innerPoll w' = (w'', .pending)) :
    poll b (fuel + 1) ⟨w, []⟩ = some (⟨w'', []⟩, .pending) := by
  simp only [poll, h, hinner]

theorem poll_logged (h : b.poll w = (w', .ready events)) (log : List (ToSwarm E C)) :
    (logged b).poll (w, log) = ((w', log ++ events), .ready events) := by
  simp only [logged, h]

theorem poll_logged_pending (h : b.poll w = (w', .pending)) (log : List (ToSwarm E C)) :
    (logged b).poll (w, log) = ((w', log), .pending) := by
  simp only [logged, h]

theorem innerPoll_logged_pending (h : b.innerPoll w = (w', .pending)) (log : List (ToSwarm E C)) :
    (logged b).innerPoll (w, log) = ((w', log), .pending) := by
  simp only [logged, h]

/-- What the inner behaviour says is logged as it is handled. -/
theorem innerPoll_logged (h : b.innerPoll w = (w', .ready event)) (log : List (ToSwarm E C)) :
    ∃ log', (logged b).innerPoll (w, log) = ((w', log'), .ready event) ∧
      (logged b).onInnerCommand (w', log') event =
        (((b.onInnerCommand w' event).1, log ++ (b.onInnerCommand w' event).2),
          (b.onInnerCommand w' event).2) := by
  cases event with
  | generateEvent event =>
    refine ⟨log, ?_, rfl⟩
    simp only [logged, h]
  | command command =>
    refine ⟨log ++ [.command command], ?_, rfl⟩
    simp only [logged, h]

end Rounds

/-- A poll of the behaviour and of the one with the log end alike; what is told and what stays
pending is what was pending and what was logged since. -/
theorem poll_logged_spec (fuel : Nat) (w : W) (log pendingEvents : List (ToSwarm E C)) :
    poll b fuel ⟨w, pendingEvents⟩ = none ∧
        poll (logged b) fuel ⟨(w, log), pendingEvents⟩ = none ∨
      ∃ w' new events polled,
        poll b fuel ⟨w, pendingEvents⟩ = some (⟨w', events⟩, polled) ∧
        poll (logged b) fuel ⟨(w, log), pendingEvents⟩ =
          some (⟨(w', log ++ new), events⟩, polled) ∧
        pendingEvents ++ new = told [polled] ++ events := by
  induction fuel generalizing w log pendingEvents with
  | zero => exact .inl ⟨rfl, rfl⟩
  | succ fuel ih =>
    -- After a round that gave some events, the induction hypothesis says what becomes of them.
    have hround : ∀ w' events, poll b (fuel + 1) ⟨w, []⟩ = poll b fuel ⟨w', events⟩ →
        poll (logged b) (fuel + 1) ⟨(w, log), []⟩ =
          poll (logged b) fuel ⟨(w', log ++ events), events⟩ →
        poll b (fuel + 1) ⟨w, []⟩ = none ∧ poll (logged b) (fuel + 1) ⟨(w, log), []⟩ = none ∨
          ∃ w' new events polled, poll b (fuel + 1) ⟨w, []⟩ = some (⟨w', events⟩, polled) ∧
            poll (logged b) (fuel + 1) ⟨(w, log), []⟩ = some (⟨(w', log ++ new), events⟩, polled) ∧
            [] ++ new = told [polled] ++ events := by
      intro w' events hb hlogged
      rw [hb, hlogged]
      rcases ih w' (log ++ events) events with
        hnone | ⟨w'', new, rest, polled, hend, hlog, htold⟩
      · exact .inl hnone
      · refine .inr ⟨w'', events ++ new, rest, polled, hend, ?_, htold⟩
        rw [hlog, List.append_assoc]
    cases pendingEvents with
    | cons event events =>
      exact .inr ⟨w, [], events, .ready event, rfl, by rw [List.append_nil]; rfl, List.append_nil _⟩
    | nil =>
      cases hpoll : b.poll w with
      | mk w' polled =>
        cases polled with
        | ready events =>
          exact hround w' events (poll_of_ready fuel hpoll)
            (poll_of_ready fuel (poll_logged hpoll log))
        | pending =>
          cases hinner : b.innerPoll w' with
          | mk w'' polled =>
            cases polled with
            | ready event =>
              obtain ⟨log', hlog, hcommand⟩ := innerPoll_logged hinner log
              refine hround _ _ (poll_of_inner fuel hpoll hinner) ?_
              rw [poll_of_inner fuel (poll_logged_pending hpoll log) hlog, hcommand]
            | pending =>
              refine .inr ⟨w'', [], [], .pending, poll_of_pending fuel hpoll hinner, ?_, rfl⟩
              rw [poll_of_pending fuel (poll_logged_pending hpoll log)
                (innerPoll_logged_pending hinner log), List.append_nil]

theorem told_cons (polled : Poll (ToSwarm E C)) (polls : List (Poll (ToSwarm E C))) :
    told (polled :: polls) = told [polled] ++ told polls := by
  cases polled <;> rfl

/-- A whole run with the log is the run without it, and what was pending and what was logged since
is what was told and what stays pending. -/
theorem run_logged_spec (fuel : Nat) (actions : List (WrappedAction F)) (w : W)
    (log pendingEvents : List (ToSwarm E C)) :
    run b fuel ⟨w, pendingEvents⟩ actions = none ∧
        run (logged b) fuel ⟨(w, log), pendingEvents⟩ actions = none ∨
      ∃ w' new events polls,
        run b fuel ⟨w, pendingEvents⟩ actions = some (⟨w', events⟩, polls) ∧
        run (logged b) fuel ⟨(w, log), pendingEvents⟩ actions =
          some (⟨(w', log ++ new), events⟩, polls) ∧
        pendingEvents ++ new = told polls ++ events := by
  induction actions generalizing w log pendingEvents with
  | nil =>
    exact .inr ⟨w, [], pendingEvents, [], rfl, by rw [List.append_nil]; rfl, List.append_nil _⟩
  | cons action actions ih =>
    cases action with
    | onSwarmEvent event =>
      generalize hsaid : b.onSwarmEvent (b.innerOnSwarmEvent w event) event = said
      obtain ⟨w', events⟩ := said
      have hplain : run b fuel ⟨w, pendingEvents⟩ (.onSwarmEvent event :: actions) =
          run b fuel ⟨w', pendingEvents ++ events⟩ actions := by
        simp only [run, Wrapped.onSwarmEvent, hsaid]
      have hlogged :
          run (logged b) fuel ⟨(w, log), pendingEvents⟩ (.onSwarmEvent event :: actions) =
          run (logged b) fuel ⟨(w', log ++ events), pendingEvents ++ events⟩ actions := by
        simp only [run, Wrapped.onSwarmEvent, logged, hsaid]
      rw [hplain, hlogged]
      rcases ih w' (log ++ events) (pendingEvents ++ events) with
        hnone | ⟨w'', new, rest, polls, hend, hlog, htold⟩
      · exact .inl hnone
      · refine .inr ⟨w'', events ++ new, rest, polls, hend, ?_, ?_⟩
        · rw [hlog, List.append_assoc]
        · rw [← List.append_assoc, htold]
    | poll =>
      simp only [run]
      rcases poll_logged_spec b fuel w log pendingEvents with
        ⟨hb, hl⟩ | ⟨w', new, events, polled, hb, hl, htold⟩
      · rw [hb, hl]
        exact .inl ⟨rfl, rfl⟩
      · rw [hb, hl]
        rcases ih w' (log ++ new) events with
          ⟨hb', hl'⟩ | ⟨w'', new', events', polls, hb', hl', htold'⟩
        · simp only [hb', hl']
          exact .inl ⟨rfl, rfl⟩
        · refine .inr ⟨w'', new ++ new', events', polled :: polls, ?_, ?_, ?_⟩
          · simp only [hb', Option.map_some]
          · simp only [hl', Option.map_some, List.append_assoc]
          · rw [told_cons, ← List.append_assoc, htold, List.append_assoc, htold',
              List.append_assoc]

/-- A poll that gives nothing leaves nothing to tell, and both the wrapper and the inner behaviour
have just said that they have nothing. -/
theorem poll_pending {fuel : Nat} {s s' : Wrapped W E C}
    (h : poll b fuel s = some (s', .pending)) :
    s'.pendingEvents = [] ∧ ∃ w w', b.poll w = (w', .pending) ∧
      b.innerPoll w' = (s'.wrapper, .pending) := by
  induction fuel generalizing s with
  | zero => cases h
  | succ fuel ih =>
    obtain ⟨w, pendingEvents⟩ := s
    cases pendingEvents with
    | cons event events => cases h
    | nil =>
      cases hpoll : b.poll w with
      | mk w' polled =>
        cases polled with
        | ready events => exact ih (poll_of_ready fuel hpoll ▸ h)
        | pending =>
          cases hinner : b.innerPoll w' with
          | mk w'' polled =>
            cases polled with
            | ready event => exact ih (poll_of_inner fuel hpoll hinner ▸ h)
            | pending =>
              rw [poll_of_pending fuel hpoll hinner] at h
              cases h
              exact ⟨rfl, w, w', hpoll, hinner⟩

/-- However the swarm mixes events and polls, it is told what the wrapper has to say and what the
inner behaviour commands, each once and in the order in which they arise; the rest is pending. A
poll gives nothing only when nothing is pending and both have just had nothing to say. -/
theorem swarm_told_everything_in_order (fuel : Nat) (w : W) (actions : List (WrappedAction F))
    {s : Wrapped W E C} {polls : List (Poll (ToSwarm E C))}
    (hrun : run b fuel ⟨w, []⟩ actions = some (s, polls)) :
    (∃ log, run (logged b) fuel ⟨(w, []), []⟩ actions =
        some (⟨(s.wrapper, log), s.pendingEvents⟩, polls) ∧ log = told polls ++ s.pendingEvents) ∧
      ∀ v v', poll b fuel v = some (v', .pending) → v'.pendingEvents = [] ∧
        ∃ u u', b.poll u = (u', .pending) ∧ b.innerPoll u' = (v'.wrapper, .pending) := by
  refine ⟨?_, fun v v' hpending => poll_pending b hpending⟩
  rcases run_logged_spec b fuel actions w [] [] with
    ⟨hnone, -⟩ | ⟨w', new, events, polls', hb, hl, htold⟩
  · rw [hrun] at hnone
    cases hnone
  · rw [hrun] at hb
    cases hb
    exact ⟨new, hl, htold⟩

/-- A wrapper that tells every second number it is told, around a behaviour that commands each. -/
def sampleWrapper : BehaviourWrapper (List Nat) Nat Nat Nat Nat where
  innerOnSwarmEvent w n := w ++ [n]
  innerPoll
    | [] => ([], .pending)
    | n :: w => (w, .ready (if n % 2 = 0 then .generateEvent n else .command n))
  onInnerEvent w n := (w, [.generateEvent n, .command n])

theorem swarm_told_everything_in_order_sample :
    run sampleWrapper 3 ⟨[], []⟩ [.onSwarmEvent 1, .poll, .onSwarmEvent 2, .poll] =
        some (⟨[], [.command 2]⟩, [.ready (.command 1), .ready (.generateEvent 2)]) ∧
      ∃ log, run (logged sampleWrapper) 3 ⟨([], []), []⟩
          [.onSwarmEvent 1, .poll, .onSwarmEvent 2, .poll] =
        some (⟨([], log), [.command 2]⟩, [.ready (.command 1), .ready (.generateEvent 2)]) ∧
        log = [.command 1, .generateEvent 2, .command 2] := by
  have hrun : run sampleWrapper 3 ⟨[], []⟩ [.onSwarmEvent 1, .poll, .onSwarmEvent 2, .poll] =
      some (⟨[], [.command 2]⟩, [.ready (.command 1), .ready (.generateEvent 2)]) := rfl
  exact ⟨hrun, (swarm_told_everything_in_order sampleWrapper 3 [] _ hrun).1⟩

end Wrapped

end SqdNetwork.Transport
