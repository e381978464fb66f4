import SqdNetwork.Core.Machine
import SqdNetwork.Core.Mailbox
import SqdNetwork.Transport.LogListeners

/-!
# Who gets the logs of a portal

The network task of a portal looks for listeners from time to time and passes what a finished
lookup found to a queue. Another task takes it from there and makes it the current listeners,
and whoever sends logs sends them to those. The three go on in any order, and a full queue
loses what is passed to it.
-/

namespace SqdNetwork.Transport

open SqdNetwork.Core

/-- A portal's transport and the handle of its user. -/
structure PortalTransport (P : Type) where
  behaviour : PortalBehaviour P
  logListenersTx : Mailbox (List P)
  logListeners : List P

/-- What the tasks and the user do. -/
inductive PortalTask (P : Type) where
  /-- The timer or the swarm has something for the network task. -/
  | network (action : PortalAction P)
  /-- The other task takes listeners from the queue. -/
  | adopt
  | sendLogs (buffer : List UInt8)

def PortalTask.sendsLogs {P : Type} : PortalTask P → Bool
  | .sendLogs _ => true
  | _ => false

/-- A portal beside what happened to it. -/
structure PortalRun (P : Type) where
  transport : PortalTransport P
  log : PortalLog P
  /-- The listeners that became the current ones. -/
  adopted : List (List P)
  /-- What the queue had no room for. -/
  dropped : List (List P)
  /-- For each time logs were sent, the copies of them. -/
  sent : List (List (P × List UInt8))

/-- What the lookups found, in order. -/
def PortalLog.found {P : Type} (log : PortalLog P) : List (List P) :=
  log.filterMap fun entry =>
    match entry.2 with
    | some (.logListeners listeners) => some listeners
    | _ => none

namespace PortalRun

variable {P : Type}

def start (listenersQueueSize : ℕ+) : PortalRun P :=
  ⟨⟨.new, .new listenersQueueSize, []⟩, [], [], [], []⟩

/-- Queue the listeners, if there is room. -/
def sendLossy (r : PortalRun P) (listeners : List P) : PortalRun P :=
  match r.transport.logListenersTx.trySend listeners with
  | .ok tx => { r with transport := { r.transport with logListenersTx := tx } }
  | .error _ => { r with dropped := r.dropped ++ [listeners] }

def onSwarmEvent (r : PortalRun P) : Option (PortalOutput P) → PortalRun P
  | some (.logListeners listeners) => r.sendLossy listeners
  | _ => r

/-- The network task has done something, and what it found is not passed on yet. -/
def turned (r : PortalRun P) (action : PortalAction P)
    (next : PortalBehaviour P × Option (PortalOutput P)) : PortalRun P :=
  { r with
    transport := { r.transport with behaviour := next.1 }
    log := r.log ++ [(action, next.2)] }

/-- The oldest queued listeners become the current ones. -/
def adopt (r : PortalRun P) : PortalRun P :=
  match r.transport.logListenersTx.queue with
  | [] => r
  | listeners :: _ =>
    { r with
      transport :=
        { r.transport with
          logListenersTx := r.transport.logListenersTx.receive
          logListeners := listeners }
      adopted := r.adopted ++ [listeners] }

/-- Send logs to each of the current listeners. -/
def sendLogs (r : PortalRun P) (buffer : List UInt8) : PortalRun P :=
  { r with sent := r.sent ++ [r.transport.logListeners.map fun listener => (listener, buffer)] }

/-- One turn of the network task. -/
def network [DecidableEq P] (r : PortalRun P) (action : PortalAction P) : PortalRun P :=
  let next := r.transport.behaviour.step action
  (r.turned action next).onSwarmEvent next.2

def step [DecidableEq P] (r : PortalRun P) : PortalTask P → PortalRun P
  | .network action => r.network action
  | .adopt => r.adopt
  | .sendLogs buffer => r.sendLogs buffer

/-- A query gets an id that no report seen before bears. -/
def FreshQuery [DecidableEq P] (r : PortalRun P) : PortalTask P → Prop
  | .network action => ∀ id, (r.transport.behaviour.step action).2 = some (.getProviders id) →
      ∀ record, r.log.Seen record → record.id ≠ id
  | _ => True

/-- The listeners that were found are passed on in order, each once, unless they are dropped, and
each is a set of providers that reports named. -/
structure Passes (r : PortalRun P) : Prop where
  collects : Collects r.transport.behaviour r.log
  inOrder : (r.adopted ++ r.transport.logListenersTx.queue).Sublist r.log.found
  counted : (r.adopted ++ r.transport.logListenersTx.queue ++ r.dropped).Perm r.log.found
  current : r.transport.logListeners = r.adopted.getLastD []
  providers : ∀ listeners ∈ r.log.found, listeners.Nodup ∧
    ∀ p ∈ listeners, ∃ id, r.log.Reported id p
  copies : ∀ batch ∈ r.sent, batch.map Prod.fst = [] ∨ batch.map Prod.fst ∈ r.adopted

theorem found_snoc (log : PortalLog P) (action : PortalAction P) (out : Option (PortalOutput P)) :
    PortalLog.found (log ++ [(action, out)]) = log.found ++ PortalLog.found [(action, out)] :=
  List.filterMap_append

theorem getLastD_mem (adopted : List (List P)) :
    adopted.getLastD [] = [] ∨ adopted.getLastD [] ∈ adopted := by
  rcases List.eq_nil_or_concat' adopted with rfl | ⟨front, last, rfl⟩
  · exact .inl rfl
  · rw [List.getLastD_concat]
    exact .inr (List.mem_append_right front (List.mem_singleton_self last))

namespace Passes

variable {r : PortalRun P}

theorem adopt (h : r.Passes) : r.adopt.Passes := by
  unfold PortalRun.adopt
  split
  · exact h
  · next listeners rest hqueue =>
    have hreceive := Mailbox.queue_receive hqueue
    have hmoved : r.adopted ++ [listeners] ++ r.transport.logListenersTx.receive.queue =
        r.adopted ++ r.transport.logListenersTx.queue := by
      rw [hreceive, hqueue, List.append_assoc, List.singleton_append]
    refine ⟨h.collects, hmoved ▸ h.inOrder, hmoved ▸ h.counted, ?_, h.providers, ?_⟩
    · exact (List.getLastD_concat ..).symm
    · exact fun batch hbatch => (h.copies batch hbatch).imp_right (List.mem_append_left _)

theorem sendLogs (h : r.Passes) (buffer : List UInt8) : (r.sendLogs buffer).Passes := by
  refine ⟨h.collects, h.inOrder, h.counted, h.current, h.providers, ?_⟩
  intro batch hbatch
  rcases List.mem_append.mp hbatch with hbatch | hbatch
  · exact h.copies batch hbatch
  · rw [List.mem_singleton.mp hbatch, List.map_map]
    have hids : r.transport.logListeners.map (Prod.fst ∘ fun listener => (listener, buffer)) =
        r.transport.logListeners := List.map_id _
    rw [hids, h.current]
    exact getLastD_mem r.adopted

/-- What reports named stays so. -/
theorem providers_snoc (h : r.Passes) (action : PortalAction P) (out : Option (PortalOutput P)) :
    ∀ listeners ∈ r.log.found, listeners.Nodup ∧
      ∀ p ∈ listeners, ∃ id, PortalLog.Reported (r.log ++ [(action, out)]) id p := by
  intro listeners hlisteners
  obtain ⟨hnodup, hnamed⟩ := h.providers listeners hlisteners
  refine ⟨hnodup, fun p hp => ?_⟩
  obtain ⟨id, hreported⟩ := hnamed p hp
  exact ⟨id, reported_snoc.mpr (.inl hreported)⟩

/-- A turn that finds no listeners. -/
theorem quiet (h : r.Passes) {action : PortalAction P} {b : PortalBehaviour P}
    {out : Option (PortalOutput P)} (hnone : PortalLog.found [(action, out)] = [])
    (hcollects : Collects b (r.log ++ [(action, out)])) :
    (r.turned action (b, out)).Passes := by
  have hfound : PortalLog.found (r.log ++ [(action, out)]) = r.log.found := by
    rw [found_snoc, hnone, List.append_nil]
  exact ⟨hcollects, hfound.symm ▸ h.inOrder, hfound.symm ▸ h.counted, h.current,
    hfound.symm ▸ h.providers_snoc action out, h.copies⟩

/-- A turn that finds listeners, which are queued or dropped. -/
theorem finds (h : r.Passes) {action : PortalAction P} {b : PortalBehaviour P}
    {listeners : List P}
    (hcollects : Collects b (r.log ++ [(action, some (.logListeners listeners))]))
    (hlisteners : listeners.Nodup ∧ ∀ p ∈ listeners, ∃ id,
      PortalLog.Reported (r.log ++ [(action, some (.logListeners listeners))]) id p) :
    ((r.turned action (b, some (.logListeners listeners))).sendLossy listeners).Passes := by
  have hfound : PortalLog.found (r.log ++ [(action, some (PortalOutput.logListeners listeners))]) =
      r.log.found ++ [listeners] := found_snoc _ _ _
  have hproviders : ∀ other ∈ r.log.found ++ [listeners], other.Nodup ∧ ∀ p ∈ other, ∃ id,
      PortalLog.Reported (r.log ++ [(action, some (.logListeners listeners))]) id p := by
    intro other hother
    rcases List.mem_append.mp hother with hother | hother
    · exact h.providers_snoc _ _ other hother
    · rw [List.mem_singleton.mp hother]
      exact hlisteners
  unfold PortalRun.sendLossy turned
  dsimp only
  cases hsend : r.transport.logListenersTx.trySend listeners with
  | ok tx =>
    have hqueue := (Mailbox.trySend_eq_ok.mp hsend).2.2.2.2
    dsimp only
    refine ⟨hcollects, ?_, ?_, h.current, hfound ▸ hproviders, h.copies⟩
    · rw [hfound, hqueue, ← List.append_assoc]
      exact h.inOrder.append (List.Sublist.refl _)
    · rw [hfound, hqueue, ← List.append_assoc, List.append_assoc _ [listeners]]
      exact (List.Perm.append_left _ List.perm_append_comm).trans
        ((List.append_assoc _ _ _ ▸ h.counted.append_right [listeners]))
  | error e =>
    dsimp only
    refine ⟨hcollects, ?_, ?_, h.current, hfound ▸ hproviders, h.copies⟩
    · rw [hfound]
      exact h.inOrder.trans (List.sublist_append_left _ _)
    · rw [hfound, ← List.append_assoc]
      exact h.counted.append_right [listeners]

variable [DecidableEq P]

theorem network (h : r.Passes) {action : PortalAction P} (hfresh : r.FreshQuery (.network action)) :
    (r.network action).Passes := by
  have hcollects := h.collects.step action hfresh
  unfold PortalRun.network
  dsimp only
  rcases step_cases r.transport.behaviour action with ⟨hstep, -⟩ | ⟨id, -, -, hstep⟩ |
    ⟨record, rfl, hquery, ⟨-, hstep⟩ | ⟨-, hstep⟩⟩
  · rw [hstep] at hcollects ⊢
    exact h.quiet rfl hcollects
  · rw [hstep] at hcollects ⊢
    exact h.quiet rfl hcollects
  · rw [hstep] at hcollects ⊢
    exact h.quiet rfl hcollects
  · obtain ⟨hnodup, hmem⟩ := h.collects.collected hquery
      (some (.logListeners (r.transport.behaviour.collected record)))
    rw [hstep] at hcollects ⊢
    exact h.finds hcollects ⟨hnodup, fun p hp => ⟨record.id, (hmem p).mp hp⟩⟩

theorem step (task : PortalTask P) (hfresh : r.FreshQuery task) (h : r.Passes) :
    (r.step task).Passes := by
  cases task with
  | network action => exact h.network hfresh
  | adopt => exact h.adopt
  | sendLogs buffer => exact h.sendLogs buffer

end Passes

theorem passes_start (size : ℕ+) : (start size : PortalRun P).Passes :=
  ⟨collects_new, List.Sublist.refl [], List.Perm.refl [], rfl,
    fun _ h => absurd h List.not_mem_nil, fun _ h => absurd h List.not_mem_nil⟩

variable [DecidableEq P]

/-- Only sending logs adds to what was sent. -/
theorem sent_step (r : PortalRun P) (task : PortalTask P) (h : task.sendsLogs = false) :
    (r.step task).sent = r.sent := by
  cases task with
  | sendLogs buffer => cases h
  | adopt =>
    simp only [step, adopt]
    split <;> rfl
  | network action =>
    simp only [step, network, onSwarmEvent]
    split
    · unfold sendLossy
      split <;> rfl
    · rfl

/-- What was sent stays sent, and every call adds one batch. -/
theorem sent_run (tasks : List (PortalTask P)) (r : PortalRun P) :
    r.sent <+: (tasks.foldl step r).sent ∧
      (tasks.foldl step r).sent.length = r.sent.length + tasks.countP PortalTask.sendsLogs := by
  induction tasks generalizing r with
  | nil => exact ⟨List.prefix_rfl, rfl⟩
  | cons task tasks ih =>
    obtain ⟨hpre, hlength⟩ := ih (r.step task)
    rw [List.foldl_cons, hlength]
    cases hsends : task.sendsLogs with
    | false =>
      rw [r.sent_step task hsends] at hpre ⊢
      rw [List.countP_cons_of_neg (by simp [hsends])]
      exact ⟨hpre, rfl⟩
    | true =>
      cases task with
      | sendLogs buffer =>
        have hadds : (r.step (.sendLogs buffer)).sent = r.sent ++
          [r.transport.logListeners.map fun listener => (listener, buffer)] := rfl
        rw [hadds] at hpre ⊢
        rw [List.countP_cons_of_pos rfl, List.length_append, List.length_singleton]
        exact ⟨(List.prefix_append _ _).trans hpre, by omega⟩
      | network action | adopt => cases hsends

/-- However the tasks of a portal and its user take turns, the listeners that logs are sent to
were found by one lookup each: those that became the current ones and those still queued are, in
order, among what the lookups found, and together with the dropped ones they are all of it. Every
call sends one batch, with a copy for each of the listeners that became the current ones last. No
peer gets two copies of the same logs, and only peers that a report on a lookup named get any. -/
theorem logs_go_to_providers_found (listenersQueueSize : ℕ+) (tasks : List (PortalTask P))
    (hfresh : EveryStep step FreshQuery (start listenersQueueSize) tasks) :
    let r := tasks.foldl step (start listenersQueueSize : PortalRun P)
    (r.adopted ++ r.transport.logListenersTx.queue).Sublist r.log.found ∧
      (r.adopted ++ r.transport.logListenersTx.queue ++ r.dropped).Perm r.log.found ∧
      r.transport.logListeners = r.adopted.getLastD [] ∧
      r.sent.length = tasks.countP PortalTask.sendsLogs ∧
      (∀ before buffer after, tasks = before ++ .sendLogs buffer :: after →
        r.sent[before.countP PortalTask.sendsLogs]? =
          some (((before.foldl step (start listenersQueueSize)).adopted.getLastD []).map
            fun listener => (listener, buffer))) ∧
      ∀ batch ∈ r.sent, (batch.map Prod.fst).Nodup ∧
        (batch ≠ [] → batch.map Prod.fst ∈ r.adopted) ∧
        ∀ copy ∈ batch, ∃ id, r.log.Reported id copy.1 := by
  have hstart := passes_start (P := P) listenersQueueSize
  have hpasses : ∀ {tasks}, EveryStep step FreshQuery (start listenersQueueSize) tasks →
      (tasks.foldl step (start listenersQueueSize : PortalRun P)).Passes := fun hfresh =>
    (throughout_of_everyStep (fun _ task hfresh h => h.step task hfresh) hfresh hstart).last
  have h := hpasses hfresh
  refine ⟨h.inOrder, h.counted, h.current, (sent_run tasks _).2.trans (Nat.zero_add _),
    fun before buffer after htasks => ?_, fun batch hbatch => ?_⟩
  · subst htasks
    have hcurrent := (hpasses hfresh.of_append).current
    have hlength := (sent_run before (start listenersQueueSize)).2.trans (Nat.zero_add _)
    have hlater := (sent_run after ((before.foldl step (start listenersQueueSize)).step
      (.sendLogs buffer))).1
    rw [← List.foldl_cons, ← List.foldl_append] at hlater
    obtain ⟨rest, hrest⟩ := hlater
    rw [← hrest, ← hcurrent, ← hlength]
    change (_ ++ [_] ++ rest)[_]? = _
    rw [List.append_assoc, List.getElem?_append_right (Nat.le_refl _), Nat.sub_self]
    rfl
  rcases h.copies batch hbatch with hnone | hadopted
  · obtain rfl := List.map_eq_nil_iff.mp hnone
    exact ⟨List.nodup_nil, fun hne => absurd rfl hne, fun _ hcopy => absurd hcopy List.not_mem_nil⟩
  · have hfound := h.inOrder.subset (List.mem_append_left _ hadopted)
    obtain ⟨hnodup, hnamed⟩ := h.providers _ hfound
    exact ⟨hnodup, fun _ => hadopted, fun copy hcopy => hnamed _ (List.mem_map_of_mem hcopy)⟩

/-- A lookup finds a provider, which becomes the current listener before logs are sent. -/
def sampleTasks : List (PortalTask Nat) :=
  [.network (.tick 4), .network (.kademlia (.getProviders ⟨4, .ok (.foundProviders [7]), true⟩)),
    .adopt, .sendLogs [1]]

theorem logs_go_to_providers_found_sample :
    (sampleTasks.foldl step (start 20)).sent = [[(7, [1])]] ∧
      ∃ id, (sampleTasks.foldl step (start 20)).log.Reported id 7 := by
  have hfresh : EveryStep step FreshQuery (start 20) sampleTasks := by
    refine ⟨?_, fun _ hout => ?_, trivial, trivial, trivial⟩
    · intro _ _ record hseen
      simp [start, PortalLog.Seen] at hseen
    · cases hout
  have h := logs_go_to_providers_found 20 sampleTasks hfresh
  exact ⟨rfl, (h.2.2.2.2.2 _ List.mem_cons_self).2.2 _ List.mem_cons_self⟩

end PortalRun

end SqdNetwork.Transport
