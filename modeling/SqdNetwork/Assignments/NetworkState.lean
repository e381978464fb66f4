import Mathlib.Logic.Basic

/-!
# The published network state

The state names where the assignments are, in the shape of one generation of consumers or of
both, and says which of them it is for. A consumer reads those, or the ones it asks for.
-/

namespace SqdNetwork.Assignments

/-- Where the combined assignment is. -/
structure NetworkAssignment where
  url : Option String
  fbUrl : Option String
  fbUrlV1 : Option String
  id : String
  effectiveFrom : UInt64
  deriving DecidableEq

/-- Where a split assignment is. -/
structure NetworkAssignmentV2 where
  id : String
  fbUrl : String
  version : String
  effectiveFrom : Option UInt64
  deriving DecidableEq

/-- Where the schemas are. -/
structure SchemaBundle where
  hash : String
  url : String
  deriving DecidableEq

/-- Which assignments a consumer should read. -/
inductive AssignmentType where
  | legacy
  | split
  deriving DecidableEq

structure NetworkState where
  network : String
  assignmentType : AssignmentType
  assignment : Option NetworkAssignment
  workerAssignment : Option NetworkAssignmentV2
  portalAssignment : Option NetworkAssignmentV2
  schemaBundle : Option SchemaBundle
  deriving DecidableEq

/-- The assignments of one generation. -/
inductive ResolvedAssignments where
  | legacy (assignment : NetworkAssignment)
  | split (worker portal : NetworkAssignmentV2) (schemaBundle : SchemaBundle)
  deriving DecidableEq

/-- The assignments asked for are not published. -/
structure InvalidNetworkState where
  assignmentType : AssignmentType
  missing : String
  deriving DecidableEq

/-- Take the assignments that are asked for, or else those the state is for. -/
def NetworkState.resolve (state : NetworkState) (assignmentType : Option AssignmentType) :
    Except InvalidNetworkState ResolvedAssignments :=
  let assignmentType := assignmentType.getD state.assignmentType
  let missing := fun name => Except.error ⟨assignmentType, name⟩
  match assignmentType with
  | .legacy =>
    match state.assignment with
    | some assignment => .ok (.legacy assignment)
    | none => missing "assignment"
  | .split =>
    match state.workerAssignment, state.portalAssignment, state.schemaBundle with
    | some worker, some portal, some schemaBundle => .ok (.split worker portal schemaBundle)
    | none, _, _ => missing "worker_assignment"
    | _, none, _ => missing "portal_assignment"
    | _, _, _ => missing "schema_bundle"

namespace NetworkState

/-- The state has all that the type names. -/
def Publishes (state : NetworkState) : AssignmentType → Prop
  | .legacy => state.assignment.isSome
  | .split =>
    state.workerAssignment.isSome ∧ state.portalAssignment.isSome ∧ state.schemaBundle.isSome

/-- A consumer gets assignments exactly if all of those it asks for are published, whatever else
is: while both generations are published, each gets its own. -/
theorem resolve_isOk_iff (state : NetworkState) (choice : Option AssignmentType) :
    (∃ resolved, state.resolve choice = .ok resolved) ↔
      state.Publishes (choice.getD state.assignmentType) := by
  unfold resolve
  cases choice.getD state.assignmentType with
  | legacy => cases h : state.assignment <;> simp [Publishes, h]
  | split =>
    cases hworker : state.workerAssignment <;> cases hportal : state.portalAssignment <;>
      cases hbundle : state.schemaBundle <;> simp [Publishes, hworker, hportal, hbundle]

/-- An error is about what was asked for and names a part of it that is not published. -/
theorem resolve_eq_error {state : NetworkState} {choice : Option AssignmentType}
    {e : InvalidNetworkState} (h : state.resolve choice = .error e) :
    e.assignmentType = choice.getD state.assignmentType ∧
      (e.assignmentType = .legacy ∧ e.missing = "assignment" ∧ state.assignment = none ∨
        e.assignmentType = .split ∧
          (e.missing = "worker_assignment" ∧ state.workerAssignment = none ∨
            e.missing = "portal_assignment" ∧ state.portalAssignment = none ∨
            e.missing = "schema_bundle" ∧ state.schemaBundle = none)) := by
  unfold resolve at h
  cases hasked : choice.getD state.assignmentType with
  | legacy =>
    simp only [hasked] at h
    split at h
    · cases h
    · next hnone =>
      cases h
      exact ⟨rfl, .inl ⟨rfl, rfl, hnone⟩⟩
  | split =>
    simp only [hasked] at h
    cases hworker : state.workerAssignment with
    | none =>
      rw [hworker] at h
      cases h
      exact ⟨rfl, .inr ⟨rfl, .inl ⟨rfl, rfl⟩⟩⟩
    | some worker =>
      cases hportal : state.portalAssignment with
      | none =>
        rw [hworker, hportal] at h
        cases h
        exact ⟨rfl, .inr ⟨rfl, .inr (.inl ⟨rfl, rfl⟩)⟩⟩
      | some portal =>
        cases hbundle : state.schemaBundle with
        | none =>
          rw [hworker, hportal, hbundle] at h
          cases h
          exact ⟨rfl, .inr ⟨rfl, .inr (.inr ⟨rfl, rfl⟩)⟩⟩
        | some bundle =>
          rw [hworker, hportal, hbundle] at h
          cases h

end NetworkState

end SqdNetwork.Assignments
