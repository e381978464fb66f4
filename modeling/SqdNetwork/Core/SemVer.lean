import Mathlib.Algebra.Order.Ring.Nat
import Mathlib.Data.Prod.Lex
import Mathlib.Order.Compare

/-!
# Semantic versions and requirements

Versions, their precedence and the evaluation of requirements, following the
documentation of semantic versioning and of its usual library. Build metadata
counts neither for precedence nor for requirements and is left out.
-/

namespace SqdNetwork.Core.SemVer

/-- One dot-separated part of a pre-release tag. -/
inductive Identifier where
  | numeric (n : Nat)
  | alphanumeric (s : String)
  deriving DecidableEq, Repr

/-- Numbers compare by value and come before texts, which compare by their characters. -/
instance : Ord Identifier where
  compare
    | .numeric a, .numeric b => compare a b
    | .numeric _, .alphanumeric _ => .lt
    | .alphanumeric _, .numeric _ => .gt
    | .alphanumeric a, .alphanumeric b => compare a b

instance : Std.LawfulEqOrd Identifier where
  compare_self := by
    intro a
    cases a with
    | numeric n => exact @Std.ReflCmp.compare_self Nat compare _ n
    | alphanumeric s => exact @Std.ReflCmp.compare_self String compare _ s
  eq_of_compare := by
    intro a b h
    cases a with
    | numeric m =>
      cases b with
      | numeric n => exact congrArg _ (@Std.LawfulEqCmp.eq_of_compare Nat compare _ m n h)
      | alphanumeric t => cases h
    | alphanumeric s =>
      cases b with
      | numeric n => cases h
      | alphanumeric t => exact congrArg _ (@Std.LawfulEqCmp.eq_of_compare String compare _ s t h)

instance : Std.OrientedOrd Identifier where
  eq_swap := by
    intro a b
    cases a with
    | numeric m =>
      cases b with
      | numeric n => exact @Std.OrientedCmp.eq_swap Nat compare _ m n
      | alphanumeric t => rfl
    | alphanumeric s =>
      cases b with
      | numeric n => rfl
      | alphanumeric t => exact @Std.OrientedCmp.eq_swap String compare _ s t

/-- A pre-release tag; a release has none. -/
structure Prerelease where
  identifiers : List Identifier
  deriving DecidableEq, Repr

namespace Prerelease

/-- No tag. -/
def empty : Prerelease := ⟨[]⟩

def isEmpty (pre : Prerelease) : Bool := pre.identifiers.isEmpty

/-- A release comes after its pre-releases; tags compare identifier by identifier, a longer tag
after one it continues. -/
instance : Ord Prerelease where
  compare
    | ⟨[]⟩, ⟨[]⟩ => .eq
    | ⟨[]⟩, ⟨_ :: _⟩ => .gt
    | ⟨_ :: _⟩, ⟨[]⟩ => .lt
    | ⟨a :: as⟩, ⟨b :: bs⟩ => compare (a :: as) (b :: bs)

theorem isEmpty_iff {pre : Prerelease} : pre.isEmpty = true ↔ pre = empty := by
  obtain ⟨ids⟩ := pre
  cases ids <;> simp [isEmpty, empty]

@[simp] theorem isEmpty_empty : empty.isEmpty = true := rfl

instance : Std.LawfulEqOrd Prerelease where
  compare_self := by
    rintro ⟨ids⟩
    cases ids with
    | nil => rfl
    | cons a as => exact @Std.ReflCmp.compare_self (List Identifier) compare _ (a :: as)
  eq_of_compare := by
    rintro ⟨ids⟩ ⟨ids'⟩ h
    cases ids with
    | nil =>
      cases ids' with
      | nil => rfl
      | cons b bs => cases h
    | cons a as =>
      cases ids' with
      | nil => cases h
      | cons b bs =>
        exact congrArg _ (@Std.LawfulEqCmp.eq_of_compare (List Identifier) compare _ _ _ h)

instance : Std.OrientedOrd Prerelease where
  eq_swap := by
    rintro ⟨ids⟩ ⟨ids'⟩
    cases ids with
    | nil => cases ids' <;> rfl
    | cons a as =>
      cases ids' with
      | nil => rfl
      | cons b bs =>
        exact @Std.OrientedCmp.eq_swap (List Identifier) compare _ (a :: as) (b :: bs)

/-- A tag comes before no tag. -/
theorem compare_empty {pre : Prerelease} (h : pre ≠ empty) : compare pre empty = .lt := by
  obtain ⟨ids⟩ := pre
  cases ids with
  | nil => exact absurd rfl h
  | cons a as => rfl

end Prerelease

/-- A full version. -/
structure Version where
  major : Nat
  minor : Nat
  patch : Nat
  pre : Prerelease
  deriving DecidableEq, Repr

namespace Version

/-- The numbers of a version, in order of weight. -/
def triple (v : Version) : Nat ×ₗ Nat ×ₗ Nat := toLex (v.major, toLex (v.minor, v.patch))

/-- Semantic precedence: first the numbers, then the tags. -/
def AtMost (a b : Version) : Prop :=
  a.triple < b.triple ∨ a.triple = b.triple ∧ compare a.pre b.pre ≠ .gt

/-- The same numbers without a tag. -/
def withoutPre (v : Version) : Version := { v with pre := .empty }

theorem triple_eq_iff {a b : Version} :
    a.triple = b.triple ↔ a.major = b.major ∧ a.minor = b.minor ∧ a.patch = b.patch := by
  simp [triple]

theorem triple_lt_iff {a b : Version} :
    a.triple < b.triple ↔ a.major < b.major ∨ a.major = b.major ∧
      (a.minor < b.minor ∨ a.minor = b.minor ∧ a.patch < b.patch) := by
  simp [triple, Prod.Lex.toLex_lt_toLex]

@[simp] theorem withoutPre_triple (v : Version) : v.withoutPre.triple = v.triple := rfl

@[simp] theorem withoutPre_major (v : Version) : v.withoutPre.major = v.major := rfl

@[simp] theorem withoutPre_minor (v : Version) : v.withoutPre.minor = v.minor := rfl

@[simp] theorem withoutPre_patch (v : Version) : v.withoutPre.patch = v.patch := rfl

@[simp] theorem withoutPre_pre (v : Version) : v.withoutPre.pre = .empty := rfl

end Version

/-- The operators of a requirement. -/
inductive Op where
  | exact
  | greater
  | greaterEq
  | less
  | lessEq
  | tilde
  | caret
  | wildcard
  deriving DecidableEq, Repr

/-- One bound of a requirement; the lower numbers may be left out. -/
structure Comparator where
  op : Op
  major : Nat
  minor : Option Nat
  patch : Option Nat
  pre : Prerelease
  deriving DecidableEq, Repr

namespace Comparator

/-- Every number that is given agrees, and the tag. -/
def matchesExact (cmp : Comparator) (ver : Version) : Bool :=
  ver.major = cmp.major ∧ cmp.minor.all (ver.minor = ·) ∧ cmp.patch.all (ver.patch = ·) ∧
    ver.pre = cmp.pre

/-- The first given number that differs decides, then the tag; a bound whose lower numbers are
left out has nothing beyond it that shares its given ones. -/
def matchesBeyond (order : Ordering) (cmp : Comparator) (ver : Version) : Bool :=
  if ver.major ≠ cmp.major then compare ver.major cmp.major = order
  else match cmp.minor with
    | none => false
    | some minor =>
      if ver.minor ≠ minor then compare ver.minor minor = order
      else match cmp.patch with
        | none => false
        | some patch =>
          if ver.patch ≠ patch then compare ver.patch patch = order
          else compare ver.pre cmp.pre = order

def matchesGreater : Comparator → Version → Bool := matchesBeyond .gt

def matchesLess : Comparator → Version → Bool := matchesBeyond .lt

/-- The given numbers agree, except for a patch that may be greater. -/
def matchesTilde (cmp : Comparator) (ver : Version) : Bool :=
  if ver.major ≠ cmp.major then false
  else if cmp.minor.any (ver.minor ≠ ·) then false
  else match cmp.patch with
    | some patch =>
      if ver.patch ≠ patch then patch < ver.patch else compare cmp.pre ver.pre ≠ .gt
    | none => compare cmp.pre ver.pre ≠ .gt

/-- The first number that is not zero agrees, and the lower ones are not below the bound's. -/
def matchesCaret (cmp : Comparator) (ver : Version) : Bool :=
  if ver.major ≠ cmp.major then false
  else match cmp.minor with
    | none => true
    | some minor =>
      match cmp.patch with
      | none => if 0 < cmp.major then minor ≤ ver.minor else ver.minor = minor
      | some patch =>
        if 0 < cmp.major then
          if ver.minor ≠ minor then minor < ver.minor
          else if ver.patch ≠ patch then patch < ver.patch
          else compare cmp.pre ver.pre ≠ .gt
        else if 0 < minor then
          if ver.minor ≠ minor then false
          else if ver.patch ≠ patch then patch < ver.patch
          else compare cmp.pre ver.pre ≠ .gt
        else if ver.minor ≠ minor ∨ ver.patch ≠ patch then false
        else compare cmp.pre ver.pre ≠ .gt

/-- A bound on its own, tags taken as the least significant part. -/
def matchesImpl (cmp : Comparator) (ver : Version) : Bool :=
  match cmp.op with
  | .exact | .wildcard => cmp.matchesExact ver
  | .greater => cmp.matchesGreater ver
  | .greaterEq => cmp.matchesExact ver || cmp.matchesGreater ver
  | .less => cmp.matchesLess ver
  | .lessEq => cmp.matchesExact ver || cmp.matchesLess ver
  | .tilde => cmp.matchesTilde ver
  | .caret => cmp.matchesCaret ver

/-- A bound speaks about pre-releases of a version when it names one of them itself. -/
def preIsCompatible (cmp : Comparator) (ver : Version) : Bool :=
  cmp.major = ver.major ∧ cmp.minor = some ver.minor ∧ cmp.patch = some ver.patch ∧
    cmp.pre.isEmpty = false

/-- The same bound without a tag. -/
def withoutPre (cmp : Comparator) : Comparator := { cmp with pre := .empty }

/-- The bound that spells out a version. -/
def ofVersion (op : Op) (v : Version) : Comparator :=
  ⟨op, v.major, some v.minor, some v.patch, v.pre⟩

end Comparator

/-- A bound as a requirement of its own. -/
def Comparator.matches (cmp : Comparator) (ver : Version) : Bool :=
  cmp.matchesImpl ver && (ver.pre.isEmpty || cmp.preIsCompatible ver)

/-- A requirement: all of its bounds. -/
structure VersionReq where
  comparators : List Comparator
  deriving DecidableEq, Repr

/-- All bounds hold; a pre-release must also be spoken about by one of them. -/
def VersionReq.matches (req : VersionReq) (ver : Version) : Bool :=
  req.comparators.all (·.matchesImpl ver) &&
    (ver.pre.isEmpty || req.comparators.any (·.preIsCompatible ver))

section Bounds

variable {a ver : Version}

/-- What a tag has to be to come after another or to equal it. -/
theorem compare_ne_gt_iff {a b : Prerelease} :
    compare a b ≠ .gt ↔ b = a ∨ compare b a = .gt := by
  rw [Std.OrientedCmp.gt_iff_lt]
  cases hcmp : compare a b with
  | lt => simp
  | eq => simp [Std.LawfulEqCmp.eq_of_compare hcmp]
  | gt =>
    have hne : b ≠ a := by
      rintro rfl
      rw [@Std.ReflCmp.compare_self Prerelease compare] at hcmp
      cases hcmp
    simp [hne]

/-- What lies beyond a spelled out bound: the first number that differs decides, then the tag. -/
theorem matchesBeyond_iff {op : Op} {order : Ordering} (horder : order ≠ .eq) :
    (Comparator.ofVersion op a).matchesBeyond order ver = true ↔
      compare ver.major a.major = order ∨ ver.major = a.major ∧
        (compare ver.minor a.minor = order ∨ ver.minor = a.minor ∧
          (compare ver.patch a.patch = order ∨ ver.patch = a.patch ∧
            compare ver.pre a.pre = order)) := by
  have hself : Ordering.eq ≠ order := horder.symm
  unfold Comparator.matchesBeyond Comparator.ofVersion
  dsimp only
  by_cases hmajor : ver.major = a.major
  · rw [if_neg (not_not_intro hmajor)]
    by_cases hminor : ver.minor = a.minor
    · rw [if_neg (not_not_intro hminor)]
      by_cases hpatch : ver.patch = a.patch
      · simp [hmajor, hminor, hpatch, hself]
      · simp [hmajor, hminor, hpatch, hself]
    · simp [hmajor, hminor, hself]
  · simp [hmajor]

theorem matchesExact_iff {op : Op} : (Comparator.ofVersion op a).matchesExact ver = true ↔
    a.triple = ver.triple ∧ ver.pre = a.pre := by
  rw [eq_comm (a := a.triple), Version.triple_eq_iff]
  simp [Comparator.matchesExact, Comparator.ofVersion, and_assoc]

theorem matchesGreater_iff {op : Op} : (Comparator.ofVersion op a).matchesGreater ver = true ↔
    a.triple < ver.triple ∨ a.triple = ver.triple ∧ compare ver.pre a.pre = .gt := by
  rw [Comparator.matchesGreater, matchesBeyond_iff (by simp), eq_comm (a := a.triple),
    Version.triple_lt_iff, eq_comm (a := a.major), eq_comm (a := a.minor), Version.triple_eq_iff]
  simp only [Nat.compare_eq_gt]
  tauto

theorem matchesLess_iff {op : Op} : (Comparator.ofVersion op a).matchesLess ver = true ↔
    ver.triple < a.triple ∨ ver.triple = a.triple ∧ compare ver.pre a.pre = .lt := by
  rw [Comparator.matchesLess, matchesBeyond_iff (by simp), Version.triple_lt_iff,
    Version.triple_eq_iff]
  simp only [Nat.compare_eq_lt]
  tauto

/-- A spelled out lower bound is precedence. -/
theorem matchesImpl_greaterEq :
    (Comparator.ofVersion .greaterEq a).matchesImpl ver = true ↔ a.AtMost ver := by
  change (Comparator.matchesExact _ ver || Comparator.matchesGreater _ ver) = true ↔ _
  rw [Bool.or_eq_true, matchesExact_iff, matchesGreater_iff, Version.AtMost, compare_ne_gt_iff]
  tauto

/-- A spelled out upper bound without a tag is one on the numbers for releases. -/
theorem matchesImpl_less_release (hver : ver.pre = .empty) (ha : a.pre = .empty) :
    (Comparator.ofVersion .less a).matchesImpl ver = true ↔ ver.triple < a.triple := by
  change Comparator.matchesLess _ ver = true ↔ _
  rw [matchesLess_iff, hver, ha]
  simp

end Bounds

end SqdNetwork.Core.SemVer
