import SqdNetwork.Core.SemVer

/-!
# Which worker versions a requirement accepts

Heartbeats carry the worker's version. Semantic versioning only lets a bound speak
about pre-releases of the version it names; the rule here compares all others
without tags, bound by bound. For a window between two spelled out versions that
is precedence below and the plain numbers above; a bound that leaves numbers out
treats the pre-releases of its first version otherwise than its spelled out form.
-/

namespace SqdNetwork.Messages

open SqdNetwork.Core.SemVer

/-- The three numbers are spelled out and are the version's. -/
def SameNumbers (comp : Comparator) (version : Version) : Prop :=
  comp.major = version.major ∧ comp.minor = some version.minor ∧ comp.patch = some version.patch

instance (comp : Comparator) (version : Version) : Decidable (SameNumbers comp version) :=
  inferInstanceAs (Decidable (_ ∧ _))

/-- One round of the loop over the bounds: whether it goes on to the next. -/
def comparatorMatches (version : Version) (comp : Comparator) : Bool :=
  if comp.matches version then true
  -- the numbers agree, so it is the tags that do not
  else if SameNumbers comp version then false
  else comp.withoutPre.matches version.withoutPre

/-- Whether a version meets a requirement, pre-releases included. -/
def versionMatches (version : Version) (req : VersionReq) : Bool :=
  if req.matches version then true else req.comparators.all (comparatorMatches version)

/-- A heartbeat, as far as versions are concerned. -/
structure Heartbeat where
  version : String

/-- A version that does not parse meets no requirement. -/
def Heartbeat.versionMatches (parse : String → Option Version) (heartbeat : Heartbeat)
    (req : VersionReq) : Bool :=
  match parse heartbeat.version with
  | none => false
  | some version => Messages.versionMatches version req

section Bounds

variable {a b v : Version}

theorem preIsCompatible_iff {comp : Comparator} :
    comp.preIsCompatible v = true ↔ SameNumbers comp v ∧ comp.pre ≠ .empty := by
  have hpre : comp.pre.isEmpty = false ↔ comp.pre ≠ .empty := by
    rw [← Bool.not_eq_true, Prerelease.isEmpty_iff]
  simp [Comparator.preIsCompatible, SameNumbers, hpre, and_assoc]

theorem matches_iff {comp : Comparator} : comp.matches v = true ↔
    comp.matchesImpl v = true ∧
      (v.pre = .empty ∨ SameNumbers comp v ∧ comp.pre ≠ .empty) := by
  rw [Comparator.matches, Bool.and_eq_true, Bool.or_eq_true, Prerelease.isEmpty_iff,
    preIsCompatible_iff]

theorem sameNumbers_ofVersion {op : Op} :
    SameNumbers (Comparator.ofVersion op a) v ↔ a.triple = v.triple := by
  rw [Version.triple_eq_iff]
  simp [SameNumbers, Comparator.ofVersion]

/-- A round with a spelled out lower bound goes on exactly at that version and beyond it. -/
theorem comparatorMatches_greaterEq :
    comparatorMatches v (.ofVersion .greaterEq a) = true ↔ a.AtMost v := by
  unfold comparatorMatches
  by_cases hsame : a.triple = v.triple
  · -- a tag that is not below no tag is one itself
    have htag : a.AtMost v → v.pre = .empty ∨ a.pre ≠ .empty := by
      intro hle
      by_contra! hnot
      rcases hle with hlt | ⟨-, hpre⟩
      · exact absurd hsame (ne_of_lt hlt)
      · rw [hnot.2] at hpre
        exact hpre (Std.OrientedCmp.gt_iff_lt.mpr (Prerelease.compare_empty hnot.1))
    rw [if_pos (sameNumbers_ofVersion.mpr hsame)]
    have hmatches : (Comparator.ofVersion .greaterEq a).matches v = true ↔ a.AtMost v := by
      rw [matches_iff, matchesImpl_greaterEq, sameNumbers_ofVersion]
      exact ⟨fun h => h.1, fun h => ⟨h, (htag h).imp id fun hpre => ⟨hsame, hpre⟩⟩⟩
    rw [← hmatches]
    cases (Comparator.ofVersion .greaterEq a).matches v <;> simp
  · rw [if_neg fun h => hsame (sameNumbers_ofVersion.mp h)]
    -- between different numbers tags do not count
    have hstrip : (Comparator.ofVersion .greaterEq a).withoutPre.matches v.withoutPre = true ↔
        a.AtMost v := by
      change (Comparator.ofVersion .greaterEq a.withoutPre).matches v.withoutPre = true ↔ _
      rw [matches_iff, matchesImpl_greaterEq, Version.AtMost, Version.AtMost]
      simp [hsame]
    have hmatches : (Comparator.ofVersion .greaterEq a).matches v = true → a.AtMost v := by
      intro h
      exact matchesImpl_greaterEq.mp (matches_iff.mp h).1
    split
    · next h => exact iff_of_true rfl (hmatches h)
    · exact hstrip

/-- A round with a spelled out upper bound without a tag goes on exactly below its numbers. -/
theorem comparatorMatches_less (hb : b.pre = .empty) :
    comparatorMatches v (.ofVersion .less b) = true ↔ v.triple < b.triple := by
  unfold comparatorMatches
  have hmatches : (Comparator.ofVersion .less b).matches v = true → v.triple < b.triple := by
    intro h
    obtain ⟨himpl, hpre | ⟨-, htag⟩⟩ := matches_iff.mp h
    · exact (matchesImpl_less_release hpre hb).mp himpl
    · exact absurd hb htag
  have hstrip : (Comparator.ofVersion .less b).withoutPre.matches v.withoutPre = true ↔
      v.triple < b.triple := by
    change (Comparator.ofVersion .less b.withoutPre).matches v.withoutPre = true ↔ _
    rw [matches_iff, matchesImpl_less_release rfl rfl]
    simp
  split
  · next h => exact iff_of_true rfl (hmatches h)
  · split
    · next hsame =>
      have heq := sameNumbers_ofVersion.mp hsame
      exact iff_of_false Bool.false_ne_true (heq ▸ lt_irrefl _)
    · exact hstrip

end Bounds

/-- The requirement written `>=a, <b`. -/
def window (a b : Version) : VersionReq := ⟨[.ofVersion .greaterEq a, .ofVersion .less b]⟩

/-- A window from a version to one without a tag and with greater numbers accepts exactly the
versions that do not precede the first and whose numbers are below the second's. -/
theorem version_window_iff (a b v : Version) (hb : b.pre = .empty) (hab : a.triple < b.triple) :
    versionMatches v (window a b) = true ↔ a.AtMost v ∧ v.triple < b.triple := by
  have hreq : (window a b).matches v = true → a.AtMost v ∧ v.triple < b.triple := by
    intro h
    simp only [VersionReq.matches, window, List.all_cons, List.all_nil, Bool.and_eq_true,
      List.any_cons, List.any_nil, Bool.or_eq_true] at h
    obtain ⟨⟨hlow, hhigh, -⟩, htag⟩ := h
    refine ⟨matchesImpl_greaterEq.mp hlow, ?_⟩
    rcases htag with hrelease | htag | htag | hnone
    · exact (matchesImpl_less_release (Prerelease.isEmpty_iff.mp hrelease) hb).mp hhigh
    · -- a pre-release of the first version lies below the second with it
      have hsame := sameNumbers_ofVersion.mp (preIsCompatible_iff.mp htag).1
      exact hsame ▸ hab
    · exact absurd hb (preIsCompatible_iff.mp htag).2
    · cases hnone
  have hloop : (window a b).comparators.all (comparatorMatches v) = true ↔
      a.AtMost v ∧ v.triple < b.triple := by
    simp [window, comparatorMatches_greaterEq, comparatorMatches_less hb]
  unfold versionMatches
  split
  · next h => exact iff_of_true rfl (hreq h)
  · exact hloop

/-- The tag `rc` with a number. -/
def sampleTag (n : Nat) : Prerelease := ⟨[.alphanumeric "rc", .numeric n]⟩

theorem version_window_iff_sample :
    versionMatches ⟨1, 0, 2, sampleTag 1⟩ (window ⟨1, 0, 1, sampleTag 3⟩ ⟨2, 0, 0, .empty⟩) = true ∧
    ¬versionMatches ⟨2, 0, 0, sampleTag 1⟩ (window ⟨1, 0, 1, sampleTag 3⟩ ⟨2, 0, 0, .empty⟩) =
      true := by
  have hab : (⟨1, 0, 1, sampleTag 3⟩ : Version).triple < (⟨2, 0, 0, .empty⟩ : Version).triple :=
    Version.triple_lt_iff.mpr (by decide)
  rw [version_window_iff _ _ _ rfl hab, version_window_iff _ _ _ rfl hab]
  refine ⟨⟨Or.inl (Version.triple_lt_iff.mpr (by decide)),
    Version.triple_lt_iff.mpr (by decide)⟩, ?_⟩
  rintro ⟨-, hlt⟩
  exact absurd (Version.triple_lt_iff.mp hlt) (by decide)

/-- The requirement written `>=` with the numbers that are given. -/
def atLeast (major : Nat) (minor patch : Option Nat) : VersionReq :=
  ⟨[⟨.greaterEq, major, minor, patch, .empty⟩]⟩

section Partial

variable {v : Version}

/-- A single bound without a tag compares the numbers, but refuses a pre-release whose numbers it
spells out. -/
theorem versionMatches_untagged {comp : Comparator} (hcomp : comp.pre = .empty) :
    versionMatches v ⟨[comp]⟩ = true ↔
      comp.matchesImpl v.withoutPre = true ∧ (v.pre = .empty ∨ ¬SameNumbers comp v) := by
  have hstrip : comp.withoutPre = comp := by
    rw [Comparator.withoutPre, ← hcomp]
  have hmatches : comp.matches v = true ↔ comp.matchesImpl v = true ∧ v.pre = .empty := by
    rw [matches_iff]
    simp [hcomp]
  have hreq : (VersionReq.mk [comp]).matches v = comp.matches v := by
    simp [VersionReq.matches, Comparator.matches]
  have hbare : comp.matches v.withoutPre = true ↔ comp.matchesImpl v.withoutPre = true := by
    rw [matches_iff]
    simp
  have hloop : versionMatches v ⟨[comp]⟩ = true ↔ comp.matches v = true ∨
      ¬SameNumbers comp v ∧ comp.matchesImpl v.withoutPre = true := by
    rw [versionMatches, hreq, ← hbare]
    by_cases h : comp.matches v = true
    · simp [h]
    · by_cases hsame : SameNumbers comp v <;> simp [h, comparatorMatches, hsame, hstrip]
  rw [hloop, hmatches]
  by_cases hv : v.pre = .empty
  · have hself : v.withoutPre = v := by rw [Version.withoutPre, ← hv]
    rw [hself]
    simp only [hv, and_true, true_or]
    exact or_iff_left_of_imp fun h => h.2
  · simp only [hv, and_false, false_or]
    exact and_comm

/-- A bound with a zero patch spelled out compares the two numbers before it. -/
theorem matchesImpl_zero_patch (a b : Nat) :
    Comparator.matchesImpl ⟨.greaterEq, a, some b, some 0, .empty⟩ v.withoutPre = true ↔
      a < v.major ∨ a = v.major ∧ b ≤ v.minor := by
  change (Comparator.ofVersion .greaterEq ⟨a, b, 0, .empty⟩).matchesImpl _ = true ↔ _
  rw [matchesImpl_greaterEq, Version.AtMost, Version.withoutPre_triple, Version.triple_lt_iff,
    Version.triple_eq_iff, Version.withoutPre_pre]
  simp only [Std.ReflCmp.compare_self, ne_eq, reduceCtorEq, not_false_eq_true, and_true]
  omega

/-- So does a bound that leaves the patch out. -/
theorem matchesImpl_no_patch (a b : Nat) :
    Comparator.matchesImpl ⟨.greaterEq, a, some b, none, .empty⟩ v.withoutPre = true ↔
      a < v.major ∨ a = v.major ∧ b ≤ v.minor := by
  simp only [Comparator.matchesImpl, Comparator.matchesExact, Comparator.matchesGreater,
    Comparator.matchesBeyond, Version.withoutPre_major, Version.withoutPre_minor,
    Version.withoutPre_pre, Option.all_some, Option.all_none, decide_eq_true_eq, and_true,
    Bool.or_eq_true]
  by_cases hmajor : v.major = a
  · by_cases hminor : v.minor = b
    · simp [hmajor, hminor]
    · have hlt : b < v.minor ↔ b ≤ v.minor := by omega
      simp [hmajor, hminor, Nat.compare_eq_gt, hlt]
  · simp only [hmajor, ne_eq, not_false_eq_true, if_true, false_and, false_or, decide_eq_true_eq,
      Nat.compare_eq_gt]
    omega

/-- A bound with only its first number compares that. -/
theorem matchesImpl_no_minor (a : Nat) :
    Comparator.matchesImpl ⟨.greaterEq, a, none, none, .empty⟩ v.withoutPre = true ↔
      a ≤ v.major := by
  simp only [Comparator.matchesImpl, Comparator.matchesExact, Comparator.matchesGreater,
    Comparator.matchesBeyond, Version.withoutPre_major, Version.withoutPre_pre, Option.all_none,
    decide_eq_true_eq, and_true, Bool.or_eq_true]
  by_cases hmajor : v.major = a
  · simp [hmajor]
  · simp only [hmajor, ne_eq, not_false_eq_true, if_true, false_or, decide_eq_true_eq,
      Nat.compare_eq_gt]
    omega

/-- A bound that leaves numbers out and its spelled out form part at the pre-releases that the
second names, if they accept the release. -/
theorem versionMatches_agree {comp full : Comparator} (hcomp : comp.pre = .empty)
    (hfull : full.pre = .empty) (hpart : ¬SameNumbers comp v)
    (hsame : comp.matchesImpl v.withoutPre = true ↔ full.matchesImpl v.withoutPre = true)
    (hown : SameNumbers full v → full.matchesImpl v.withoutPre = true) :
    versionMatches v ⟨[comp]⟩ = versionMatches v ⟨[full]⟩ ↔
      ¬(v.pre ≠ .empty ∧ SameNumbers full v) := by
  rw [Bool.eq_iff_iff, versionMatches_untagged hcomp, versionMatches_untagged hfull, hsame]
  by_cases hv : v.pre = .empty
  · simp [hv]
  · by_cases hnames : SameNumbers full v
    · simp [hv, hpart, hnames, hown hnames]
    · simp [hv, hpart, hnames]

end Partial

/-- Partial lower bounds accept what their zero-filled forms accept, except for the pre-releases
of the zero-filled version. -/
theorem partial_bounds_agree_iff (v : Version) (a b : Nat) :
    (versionMatches v (atLeast a none none) =
        versionMatches v (atLeast a (some 0) (some 0)) ∧
      versionMatches v (atLeast a (some b) none) =
        versionMatches v (atLeast a (some b) (some 0))) ↔
    ¬(v.pre ≠ .empty ∧ v.major = a ∧ v.patch = 0 ∧ (v.minor = 0 ∨ v.minor = b)) := by
  have hmajor : versionMatches v (atLeast a none none) =
      versionMatches v (atLeast a (some 0) (some 0)) ↔
        ¬(v.pre ≠ .empty ∧ SameNumbers ⟨.greaterEq, a, some 0, some 0, .empty⟩ v) := by
    apply versionMatches_agree rfl rfl
    · rintro ⟨-, ⟨⟩, -⟩
    · rw [matchesImpl_no_minor, matchesImpl_zero_patch]
      omega
    · rintro ⟨hmajor, -, -⟩
      exact (matchesImpl_zero_patch a 0).mpr (Or.inr ⟨hmajor, Nat.zero_le _⟩)
  have hminor : versionMatches v (atLeast a (some b) none) =
      versionMatches v (atLeast a (some b) (some 0)) ↔
        ¬(v.pre ≠ .empty ∧ SameNumbers ⟨.greaterEq, a, some b, some 0, .empty⟩ v) := by
    apply versionMatches_agree rfl rfl
    · rintro ⟨-, -, ⟨⟩⟩
    · rw [matchesImpl_no_patch, matchesImpl_zero_patch]
    · rintro ⟨hmajor, hminor, -⟩
      exact (matchesImpl_zero_patch a b).mpr
        (Or.inr ⟨hmajor, Nat.le_of_eq (Option.some.inj hminor)⟩)
  rw [hmajor, hminor]
  simp only [SameNumbers, Option.some.injEq]
  rw [eq_comm (a := a), eq_comm (a := 0), eq_comm (a := 0), eq_comm (a := b), ← not_or,
    ← and_or_left, ← and_or_left, ← or_and_right, and_comm (b := v.patch = 0)]

/-- The first pre-release of a version meets the bound that leaves its zeros out, but not the
spelled out one. -/
theorem partial_bounds_disagree :
    versionMatches ⟨1, 0, 0, sampleTag 1⟩ (atLeast 1 none none) = true ∧
    versionMatches ⟨1, 0, 0, sampleTag 1⟩ (atLeast 1 (some 0) (some 0)) = false := by
  decide

end SqdNetwork.Messages
