import Mathlib.Data.List.Nodup
import Mathlib.Data.List.Infix
import SqdNetwork.Transport.Base

/-!
# Discovery of log listeners

A portal asks the DHT who provides its logs, one query at a time. Every progress of
a provider query comes through the base behaviour; the portal collects those of its
own query and hands the collected providers out when that query is over. Queries of
others and late reports of earlier queries leave no trace.
-/

namespace SqdNetwork.Transport

/-- What a provider query reports when it gets on. -/
inductive GetProvidersOk (P : Type) where
  | foundProviders (providers : List P)
  | finishedWithNoAdditionalRecord

inductive GetProvidersError where
  | timeout

/-- Progress of a provider query, as the base behaviour passes it on. -/
structure ProviderRecord (P : Type) where
  id : QueryId
  result : Except GetProvidersError (GetProvidersOk P)
  /-- The last step of its query. -/
  last : Bool

/-- The providers a report brings. -/
def ProviderRecord.providers {P : Type} (record : ProviderRecord P) : List P :=
  match record.result with
  | .ok (.foundProviders providers) => providers
  | _ => []

/-- Progress of any Kademlia query. -/
inductive QueryProgressed (P : Type) where
  | getProviders (record : ProviderRecord P)
  | other (id : QueryId) (last : Bool)

/-- The events of the base behaviour; those a portal ignores are one case. -/
inductive BaseBehaviourEvent (P : Type) where
  | providerRecord (record : ProviderRecord P)
  | other

/-- Progress of a provider query is passed on as it is, no matter who asked. -/
def BaseBehaviour.onQueryProgressed {P : Type} : QueryProgressed P → Option (BaseBehaviourEvent P)
  | .getProviders record => some (.providerRecord record)
  | .other _ _ => none

/-- What a portal is told: that its timer ticked, with the id a new query would get, or that a
query got on. -/
inductive PortalAction (P : Type) where
  | tick (queryId : QueryId)
  | kademlia (event : QueryProgressed P)

/-- What a portal does in turn. -/
inductive PortalOutput (P : Type) where
  | getProviders (queryId : QueryId)
  | logListeners (listeners : List P)

/-- The portal's part of the state; the set of providers is a list without duplicates. -/
structure PortalBehaviour (P : Type) where
  providerQuery : Option QueryId
  providersList : List P

namespace PortalBehaviour

variable {P : Type} [DecidableEq P]

def new : PortalBehaviour P := ⟨none, []⟩

/-- The set of providers with those of a report. -/
def collected (b : PortalBehaviour P) (record : ProviderRecord P) : List P :=
  record.providers.foldl (fun list p => list.insert p) b.providersList

/-- Collect what the own query reports, and hand it out when the query is over. -/
def onProviderRecord (b : PortalBehaviour P) (record : ProviderRecord P) :
    PortalBehaviour P × Option (PortalOutput P) :=
  match b.providerQuery with
  | none => (b, none)
  | some expectedId =>
    if expectedId ≠ record.id then (b, none)
    else
      let providersList := b.collected record
      if record.last then (⟨none, []⟩, some (.logListeners providersList))
      else ({ b with providersList := providersList }, none)

def onBaseEvent (b : PortalBehaviour P) :
    BaseBehaviourEvent P → PortalBehaviour P × Option (PortalOutput P)
  | .providerRecord record => b.onProviderRecord record
  | .other => (b, none)

/-- Ask for the providers, unless a query is under way. -/
def updatePortalLogsListeners (b : PortalBehaviour P) (queryId : QueryId) :
    PortalBehaviour P × Option (PortalOutput P) :=
  if b.providerQuery.isSome then (b, none)
  else ({ b with providerQuery := some queryId }, some (.getProviders queryId))

def step (b : PortalBehaviour P) : PortalAction P → PortalBehaviour P × Option (PortalOutput P)
  | .tick queryId => b.updatePortalLogsListeners queryId
  | .kademlia event =>
    match BaseBehaviour.onQueryProgressed event with
    | none => (b, none)
    | some ev => b.onBaseEvent ev

end PortalBehaviour

/-- What a portal was told and did, in order. -/
abbrev PortalLog (P : Type) := List (PortalAction P × Option (PortalOutput P))

section History

variable {P : Type}

/-- A report on the query was seen. -/
def PortalLog.Seen (log : PortalLog P) (record : ProviderRecord P) : Prop :=
  ∃ out, (.kademlia (.getProviders record), out) ∈ log

/-- A report on the query named the provider. -/
def PortalLog.Reported (log : PortalLog P) (id : QueryId) (p : P) : Prop :=
  ∃ record, log.Seen record ∧ record.id = id ∧ p ∈ record.providers

/-- The portal started the query and has not seen its end. -/
def PortalLog.Outstanding (log : PortalLog P) (id : QueryId) : Prop :=
  ∃ before after, log = before ++ (.tick id, some (.getProviders id)) :: after ∧
    ∀ record, PortalLog.Seen after record → record.id = id → record.last = false

/-- The states of a portal with what happened up to them. A query gets an id that no report seen
before bears. -/
inductive PortalHistory [DecidableEq P] : PortalBehaviour P → PortalLog P → Prop where
  | new : PortalHistory .new []
  | step {b : PortalBehaviour P} {log : PortalLog P} (action : PortalAction P) :
      PortalHistory b log →
      (∀ id, (b.step action).2 = some (.getProviders id) →
        ∀ record, log.Seen record → record.id ≠ id) →
      PortalHistory (b.step action).1 (log ++ [(action, (b.step action).2)])

variable {log : PortalLog P} {id : QueryId}

theorem seen_snoc {action : PortalAction P} {out : Option (PortalOutput P)}
    {record : ProviderRecord P} :
    PortalLog.Seen (log ++ [(action, out)]) record ↔
      log.Seen record ∨ action = .kademlia (.getProviders record) := by
  simp only [PortalLog.Seen, List.mem_append, List.mem_singleton, Prod.mk.injEq, exists_or]
  refine or_congr_right ⟨?_, fun h => ⟨out, h.symm, rfl⟩⟩
  rintro ⟨_, h, -⟩
  exact h.symm

theorem reported_snoc {action : PortalAction P} {out : Option (PortalOutput P)} {p : P} :
    PortalLog.Reported (log ++ [(action, out)]) id p ↔ log.Reported id p ∨
      ∃ record, action = .kademlia (.getProviders record) ∧ record.id = id ∧
        p ∈ record.providers := by
  simp only [PortalLog.Reported, seen_snoc, or_and_right, exists_or]

/-- A query is outstanding after one more entry if that started it, or if it was and this is not
its end. -/
theorem outstanding_snoc {action : PortalAction P} {out : Option (PortalOutput P)} :
    PortalLog.Outstanding (log ++ [(action, out)]) id ↔
      (action = .tick id ∧ out = some (.getProviders id)) ∨
      log.Outstanding id ∧ ∀ record, action = .kademlia (.getProviders record) →
        record.id = id → record.last = false := by
  constructor
  · rintro ⟨before, after, hlog, hopen⟩
    rcases List.eq_nil_or_concat after with rfl | ⟨rest, entry, rfl⟩
    · left
      obtain ⟨-, hentry⟩ := List.append_inj' hlog rfl
      simpa using hentry
    · right
      rw [List.concat_eq_append, ← List.cons_append, ← List.append_assoc] at hlog
      obtain ⟨rfl, hentry⟩ := List.append_inj' hlog rfl
      rw [List.singleton_inj] at hentry
      subst hentry
      refine ⟨⟨before, rest, rfl, fun record hseen => ?_⟩, fun record haction => ?_⟩
      · exact hopen record (by rw [List.concat_eq_append, seen_snoc]; exact Or.inl hseen)
      · exact hopen record (by rw [List.concat_eq_append, seen_snoc]; exact Or.inr haction)
  · rintro (⟨rfl, rfl⟩ | ⟨⟨before, after, rfl, hopen⟩, hlast⟩)
    · exact ⟨log, [], rfl, fun record hseen => absurd hseen (by simp [PortalLog.Seen])⟩
    · refine ⟨before, after ++ [(action, out)], by simp, fun record hseen hid => ?_⟩
      rcases seen_snoc.mp hseen with hseen | haction
      · exact hopen record hseen hid
      · exact hlast record haction hid

end History

section Invariant

variable {P : Type} [DecidableEq P] {b : PortalBehaviour P} {log : PortalLog P}

/-- A set stays one when elements are added, and holds them besides the old ones. -/
theorem foldl_insert (ps list : List P) (h : list.Nodup) :
    (ps.foldl (fun list p => list.insert p) list).Nodup ∧
      ∀ p, p ∈ ps.foldl (fun list p => list.insert p) list ↔ p ∈ list ∨ p ∈ ps := by
  induction ps generalizing list with
  | nil => exact ⟨h, fun p => by simp⟩
  | cons q ps ih =>
    obtain ⟨hnodup, hmem⟩ := ih (list.insert q) h.insert
    refine ⟨hnodup, fun p => ?_⟩
    rw [List.foldl_cons, hmem, List.mem_insert_iff, List.mem_cons, or_comm (a := p = q), or_assoc]

/-- What a step can do: nothing, start a query when none is under way, collect providers of the
query under way, or end it. -/
theorem step_cases (b : PortalBehaviour P) (action : PortalAction P) :
    (b.step action = (b, none) ∧ ∀ record, action = .kademlia (.getProviders record) →
      b.providerQuery ≠ some record.id) ∨
    (∃ id, action = .tick id ∧ b.providerQuery = none ∧
      b.step action = ({ b with providerQuery := some id }, some (.getProviders id))) ∨
    ∃ record, action = .kademlia (.getProviders record) ∧ b.providerQuery = some record.id ∧
      (record.last = false ∧
          b.step action = ({ b with providersList := b.collected record }, none) ∨
        record.last = true ∧
          b.step action = (⟨none, []⟩, some (.logListeners (b.collected record)))) := by
  cases action with
  | tick id =>
    rw [PortalBehaviour.step, PortalBehaviour.updatePortalLogsListeners]
    split
    · exact Or.inl ⟨rfl, fun record h => by cases h⟩
    · next hnone => exact Or.inr (Or.inl ⟨id, rfl, by simpa using hnone, rfl⟩)
  | kademlia event =>
    cases event with
    | other id last => exact Or.inl ⟨rfl, fun record h => by cases h⟩
    | getProviders record =>
      have hstep : b.step (.kademlia (.getProviders record)) = b.onProviderRecord record := rfl
      rw [hstep, PortalBehaviour.onProviderRecord]
      cases hquery : b.providerQuery with
      | none => exact Or.inl ⟨rfl, fun _ _ h => by cases h⟩
      | some expectedId =>
        dsimp only
        by_cases hid : expectedId = record.id
        · subst hid
          rw [if_neg (not_not_intro rfl)]
          refine Or.inr (Or.inr ⟨record, rfl, rfl, ?_⟩)
          cases hlast : record.last with
          | false => exact Or.inl ⟨rfl, if_neg Bool.false_ne_true⟩
          | true => exact Or.inr ⟨rfl, if_pos rfl⟩
        · rw [if_pos hid]
          refine Or.inl ⟨rfl, ?_⟩
          rintro _ ⟨⟩ h
          exact hid (Option.some.inj h)

/-- The state against what happened: the query under way is the one outstanding, and the
providers are those its reports named. -/
structure Collects (b : PortalBehaviour P) (log : PortalLog P) : Prop where
  outstanding : ∀ id, log.Outstanding id ↔ b.providerQuery = some id
  empty : b.providerQuery = none → b.providersList = []
  nodup : b.providersList.Nodup
  reported : ∀ id, b.providerQuery = some id → ∀ p, p ∈ b.providersList ↔ log.Reported id p

omit [DecidableEq P] in
theorem collects_new : Collects (.new : PortalBehaviour P) [] where
  outstanding := by
    intro id
    refine iff_of_false ?_ (by simp [PortalBehaviour.new])
    rintro ⟨before, after, hlog, -⟩
    exact absurd hlog (by simp)
  empty := fun _ => rfl
  nodup := List.nodup_nil
  reported := fun id h => by cases h

/-- The providers of a query after one more report on it. -/
theorem Collects.collected (h : Collects b log) {record : ProviderRecord P}
    (hquery : b.providerQuery = some record.id) (out : Option (PortalOutput P)) :
    (b.collected record).Nodup ∧
      ∀ p, p ∈ b.collected record ↔
        PortalLog.Reported (log ++ [(.kademlia (.getProviders record), out)]) record.id p := by
  obtain ⟨hnodup, hmem⟩ := foldl_insert record.providers b.providersList h.nodup
  refine ⟨hnodup, fun p => ?_⟩
  rw [PortalBehaviour.collected, hmem, h.reported record.id hquery, reported_snoc]
  refine or_congr_right ⟨fun hp => ⟨record, rfl, rfl, hp⟩, ?_⟩
  rintro ⟨_, ⟨⟩, -, hp⟩
  exact hp

/-- A step keeps the state and the log together. -/
theorem Collects.step (h : Collects b log) (action : PortalAction P)
    (hfresh : ∀ id, (b.step action).2 = some (.getProviders id) →
      ∀ record, log.Seen record → record.id ≠ id) :
    Collects (b.step action).1 (log ++ [(action, (b.step action).2)]) := by
  rcases step_cases b action with ⟨hstep, hforeign⟩ | ⟨id, rfl, hnone, hstep⟩ |
      ⟨record, rfl, hquery, ⟨hlast, hstep⟩ | ⟨hlast, hstep⟩⟩
  · -- nothing happens, and the report, if it is one, is on another query
    rw [hstep]
    refine ⟨fun id => ?_, h.empty, h.nodup, fun id hid p => ?_⟩
    · rw [outstanding_snoc, ← h.outstanding id]
      constructor
      · rintro (⟨-, ⟨⟩⟩ | ⟨hopen, -⟩)
        exact hopen
      · refine fun hopen => Or.inr ⟨hopen, fun record haction hid => ?_⟩
        exact absurd (hid ▸ (h.outstanding id).mp hopen) (hforeign record haction)
    · rw [h.reported id hid, reported_snoc]
      refine ⟨Or.inl, ?_⟩
      rintro (hp | ⟨record, haction, rfl, -⟩)
      · exact hp
      · exact absurd hid (hforeign record haction)
  · -- a new query: no report on it was seen, and none is collected yet
    rw [hstep] at hfresh ⊢
    refine ⟨fun other => ?_, (by rintro ⟨⟩), h.nodup, ?_⟩
    · rw [outstanding_snoc, h.outstanding other, hnone]
      simp
    · rintro _ ⟨⟩ p
      rw [h.empty hnone, reported_snoc]
      refine iff_of_false List.not_mem_nil ?_
      rintro (⟨record, hseen, hid, -⟩ | ⟨record, ⟨⟩, -⟩)
      exact hfresh id rfl record hseen hid
  · rw [hstep]
    obtain ⟨hnodup, hmem⟩ := h.collected hquery none
    refine ⟨fun id => ?_, fun hnone => ?_, hnodup, fun id hid p => ?_⟩
    · rw [outstanding_snoc, ← h.outstanding id]
      constructor
      · rintro (⟨⟨⟩, -⟩ | ⟨hopen, -⟩)
        exact hopen
      · refine fun hopen => Or.inr ⟨hopen, ?_⟩
        rintro _ ⟨⟩ -
        exact hlast
    · exact absurd (hquery.symm.trans hnone) (by simp)
    · obtain rfl := Option.some.inj (hquery.symm.trans hid)
      exact hmem p
  · rw [hstep]
    refine ⟨fun id => ?_, fun _ => rfl, List.nodup_nil, (by rintro id ⟨⟩)⟩
    rw [outstanding_snoc, h.outstanding id]
    refine iff_of_false ?_ (by simp)
    rintro (⟨⟨⟩, -⟩ | ⟨hopen, hrest⟩)
    have hid := Option.some.inj (hquery.symm.trans hopen)
    exact absurd (hrest record rfl hid) (by simp [hlast])

/-- In every history the state and the log are together. -/
theorem PortalHistory.collects (h : PortalHistory b log) : Collects b log := by
  induction h with
  | new => exact collects_new
  | step action _ hfresh ih => exact ih.step action hfresh

/-- Every entry of a log is a step from the state before it. -/
theorem PortalHistory.split (h : PortalHistory b log) {before after : PortalLog P}
    {action : PortalAction P} {out : Option (PortalOutput P)}
    (hlog : log = before ++ (action, out) :: after) :
    ∃ prior, PortalHistory prior before ∧ (prior.step action).2 = out := by
  induction h generalizing after with
  | new => exact absurd hlog (by simp)
  | @step prior earlier next hprior hfresh ih =>
    rcases List.eq_nil_or_concat after with rfl | ⟨rest, entry, rfl⟩
    · obtain ⟨rfl, hentry⟩ := List.append_inj' hlog rfl
      rw [List.singleton_inj, Prod.mk.injEq] at hentry
      obtain ⟨rfl, rfl⟩ := hentry
      exact ⟨prior, hprior, rfl⟩
    · rw [List.concat_eq_append, ← List.cons_append, ← List.append_assoc] at hlog
      exact ih (List.append_inj' hlog rfl).1

end Invariant

/-- In every history of a portal at most one query is outstanding, it is the one the portal waits
for, and no providers are kept when there is none. The listeners it hands out come with the end
of the outstanding query, without duplicates, and are the providers that reports on that query
named. -/
theorem log_listeners_of_one_query (P : Type) [DecidableEq P] (b : PortalBehaviour P)
    (log : PortalLog P) (h : PortalHistory b log) :
    (∀ id, log.Outstanding id ↔ b.providerQuery = some id) ∧
    (∀ i j, log.Outstanding i → log.Outstanding j → i = j) ∧
    (b.providerQuery = none → b.providersList = []) ∧
    ∀ before action listeners after,
      log = before ++ (action, some (.logListeners listeners)) :: after →
      ∃ record, action = .kademlia (.getProviders record) ∧ record.last = true ∧
        PortalLog.Outstanding before record.id ∧ listeners.Nodup ∧
        ∀ p, p ∈ listeners ↔ PortalLog.Reported
          (before ++ [(action, some (.logListeners listeners))]) record.id p := by
  have hcollects := h.collects
  refine ⟨hcollects.outstanding, fun i j hi hj => ?_, hcollects.empty, ?_⟩
  · rw [hcollects.outstanding] at hi hj
    exact Option.some.inj (hi.symm.trans hj)
  · intro before action listeners after hlog
    obtain ⟨prior, hprior, hout⟩ := h.split hlog
    have hbefore := hprior.collects
    rcases step_cases prior action with ⟨hstep, -⟩ | ⟨id, -, -, hstep⟩ |
        ⟨record, rfl, hquery, ⟨-, hstep⟩ | ⟨hlast, hstep⟩⟩
    · exact absurd hout (by simp [hstep])
    · exact absurd hout (by simp [hstep])
    · exact absurd hout (by simp [hstep])
    · rw [hstep, Option.some.injEq, PortalOutput.logListeners.injEq] at hout
      subst hout
      obtain ⟨hnodup, hmem⟩ := hbefore.collected hquery (some (.logListeners
        (prior.collected record)))
      exact ⟨record, rfl, hlast, (hbefore.outstanding record.id).mpr hquery, hnodup, hmem⟩

/-- The end of a query that found one provider more. -/
def sampleLast : PortalAction Nat :=
  .kademlia (.getProviders ⟨4, .ok (.foundProviders [2, 7]), true⟩)

/-- A query is started and reports twice, with a report on another one in between. -/
theorem sampleHistory : ∃ (b : PortalBehaviour Nat) (before : PortalLog Nat),
    PortalHistory b (before ++ [(sampleLast, some (.logListeners [7, 2, 1]))]) := by
  have hstarted := PortalHistory.new.step (P := Nat) (.tick 4) fun _ _ record hseen => by
    simp [PortalLog.Seen] at hseen
  have hfound := hstarted.step
    (.kademlia (.getProviders ⟨4, .ok (.foundProviders [1, 2]), false⟩)) fun _ hout => by cases hout
  have hforeign := hfound.step
    (.kademlia (.getProviders ⟨3, .ok (.foundProviders [9]), true⟩)) fun _ hout => by cases hout
  exact ⟨_, _, hforeign.step sampleLast fun _ hout => by cases hout⟩

theorem log_listeners_of_one_query_sample :
    ∃ (b : PortalBehaviour Nat) (before : PortalLog Nat) (record : ProviderRecord Nat),
      PortalHistory b (before ++ [(sampleLast, some (.logListeners [7, 2, 1]))]) ∧
      record.last = true ∧ PortalLog.Outstanding before record.id ∧
      PortalLog.Reported (before ++ [(sampleLast, some (.logListeners [7, 2, 1]))])
        record.id 1 := by
  obtain ⟨b, before, h⟩ := sampleHistory
  obtain ⟨-, -, -, hlisteners⟩ := log_listeners_of_one_query Nat b _ h
  obtain ⟨record, -, hlast, hopen, -, hmem⟩ := hlisteners before sampleLast [7, 2, 1] [] rfl
  exact ⟨b, before, record, h, hlast, hopen, (hmem 1).mp (by decide)⟩

end SqdNetwork.Transport
