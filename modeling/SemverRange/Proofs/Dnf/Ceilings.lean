import SemverRange.Proofs.Dnf.Release

/-!
# What lies below a ceiling

The ceilings of ranges are releases, and below a release stand the versions with a smaller triple
and its own prereleases, whatever these are.  So a ceiling that is the next major, minor or patch
release cuts off exactly the versions whose first one, two or three numbers are too great, but for
the prereleases of the ceiling itself.

Between the floor and the ceiling of a pattern there are the releases which agree with its numbers,
and no others.

## Main definitions

* `Version.FirstRelease v u` — the release `u` is the first one that is not below `v`.
* `Target.IsPartial` — a pattern that has a floor and a ceiling.

## Main results

* `Version.before_release_iff` — **which versions are below a release.**
* `Version.firstRelease_stripPrerelease` — the first release that is not below a version.
* `Target.IsPartial.between_iff` — which releases are between the ends of a pattern.
* `Version.ceilings_exact` — what lies below each kind of ceiling.
-/

namespace SemverRange

namespace Version

/-- **Below a release** are the versions with a smaller triple and the prereleases of its own. -/
theorem before_release_iff {u : Version} (hu : u.isPrerelease = false) (r : Version) :
    r.before u = true ↔
      r.lexTriple < u.lexTriple ∨ r.isPrerelease = true ∧ r.triple = u.triple := by
  rw [before_iff, ← not_le, release_le_rank_iff hu, triple_eq_iff, ← lexTriple_eq_iff]
  rcases lt_trichotomy r.lexTriple u.lexTriple with hlt | heq | hgt
  · simp [hlt, hlt.not_gt, hlt.ne']
  · simp [heq]
  · simp [hgt, hgt.not_gt, hgt.ne']

section Next

variable (v r : Version)

theorem before_nextMajor_iff : r.before v.nextMajor = true ↔
    r.major ≤ v.major ∨ r.isPrerelease = true ∧ r.triple = v.nextMajor.triple := by
  have hless : r.lexTriple < v.nextMajor.lexTriple ↔ r.major ≤ v.major := by
    rw [lexTriple_lt_iff]
    simp only [nextMajor, release]
    omega
  rw [before_release_iff rfl, hless]

theorem before_nextMinor_iff : r.before v.nextMinor = true ↔
    toLex (r.major, r.minor) ≤ toLex (v.major, v.minor) ∨
      r.isPrerelease = true ∧ r.triple = v.nextMinor.triple := by
  have hless : r.lexTriple < v.nextMinor.lexTriple ↔
      toLex (r.major, r.minor) ≤ toLex (v.major, v.minor) := by
    rw [lexTriple_lt_iff, Prod.Lex.toLex_le_toLex]
    simp only [nextMinor, release]
    omega
  rw [before_release_iff rfl, hless]

theorem before_nextPatch_iff : r.before v.nextPatch = true ↔
    r.lexTriple ≤ v.lexTriple ∨ r.isPrerelease = true ∧ r.triple = v.nextPatch.triple := by
  have hless : r.lexTriple < v.nextPatch.lexTriple ↔ r.lexTriple ≤ v.lexTriple := by
    rw [lexTriple_lt_iff, lexTriple_le_iff]
    simp only [nextPatch, release]
    omega
  rw [before_release_iff rfl, hless]

/-- A version is below all its ceilings, and these are in order. -/
theorem before_next : v.before v.nextPatch = true ∧ v.nextPatch.before v.nextMinor = true ∧
    v.nextMinor.before v.nextMajor = true := by
  refine ⟨?_, ?_, ?_⟩
  · rw [before_nextPatch_iff]
    exact .inl le_rfl
  · rw [before_nextMinor_iff]
    exact .inl le_rfl
  · rw [before_nextMajor_iff]
    exact .inl le_rfl

end Next

/-- The release `u` is the first one that is not below `v`. -/
structure FirstRelease (v u : Version) : Prop where
  /-- It is a release. -/
  release : u.isPrerelease = false
  /-- It is not below the version. -/
  ge : Relation.ge.holds u v = true
  /-- No other release between them is any smaller. -/
  least : ∀ r : Version, r.isPrerelease = false → Relation.ge.holds r v = true →
    Relation.le.holds u r = true

/-- **Without its prerelease part a version is the first release that is not below it.** -/
theorem firstRelease_stripPrerelease (v : Version) : FirstRelease v v.stripPrerelease := by
  have hu : v.stripPrerelease.isPrerelease = false := isPrerelease_stripPrerelease v
  have htriple : v.stripPrerelease.lexTriple = v.lexTriple := rfl
  refine ⟨hu, ?_, fun r hr hle => ?_⟩
  · refine (Op.holds_relation_iff .ge _ _).2 ((rank_le_release_iff hu v).2 ?_)
    exact htriple.ge
  · -- a release that is not below the version has no smaller triple
    have hge : v.lexTriple ≤ r.lexTriple :=
      (rank_le_release_iff hr v).1 ((Op.holds_relation_iff .ge r v).1 hle)
    refine (Op.holds_relation_iff .le _ _).2 ((rank_le_release_iff hr _).2 ?_)
    rwa [htriple]

end Version

/-! ### The ends of patterns -/

/-- A pattern with one or two numbers, none of which is negative. -/
inductive Target.IsPartial : Target → Prop
  | major (m : ℕ) : IsPartial (.major m)
  | minor (m n : ℕ) : IsPartial (.minor m n)

namespace Target.IsPartial

variable {t : Target}

theorem proper (ht : t.IsPartial) : t.Proper := by
  cases ht with
  | major m => exact .major m
  | minor m n => exact .minor m n

/-- A pattern has two ends, and its region lies between them. -/
theorem exists_ends (ht : t.IsPartial) : ∃ lower upper, t.floor = .ok lower ∧
    t.ceiling = .ok upper ∧ t.bareRegion = Set.Ico lower.rank upper.rank := by
  cases ht with
  | major m => exact ⟨_, _, floor_major m, ceiling_major m, rfl⟩
  | minor m n => exact ⟨_, _, floor_minor m n, ceiling_minor m n, rfl⟩

/-- **Between the ends of a pattern are the releases that agree with its numbers.** -/
theorem between_iff (ht : t.IsPartial) : ∃ lower upper, t.floor = .ok lower ∧
    t.ceiling = .ok upper ∧ ∀ r : Version, r.isPrerelease = false →
      (Relation.ge.holds r lower = true ∧ Relation.lt.holds r upper = true ↔
        t.BareContains r) := by
  obtain ⟨lower, upper, hlower, hupper, hregion⟩ := ht.exists_ends
  refine ⟨lower, upper, hlower, hupper, fun r hr => ?_⟩
  rw [← mem_bareRegion_iff hr ht.proper, hregion, Set.mem_Ico]
  exact and_congr (Op.holds_relation_iff .ge r lower) (Op.holds_relation_iff .lt r upper)

end Target.IsPartial

/-- **The ceilings are exact.**  Below the next major, minor or patch release are the versions of
which the first one, two or three numbers are not greater, and the prereleases of that release
itself.  The three come behind the version in reverse order.  Without its prerelease part a version
is the first release that is not below it, and between the ends of a pattern are exactly the
releases that agree with its numbers. -/
theorem Version.ceilings_exact :
    (∀ v r : Version,
      (Relation.lt.holds r v.nextMajor = true ↔
        r.major ≤ v.major ∨ r.isPrerelease = true ∧ r.triple = (v.major + 1, 0, 0)) ∧
      (Relation.lt.holds r v.nextMinor = true ↔
        toLex (r.major, r.minor) ≤ toLex (v.major, v.minor) ∨
          r.isPrerelease = true ∧ r.triple = (v.major, v.minor + 1, 0)) ∧
      (Relation.lt.holds r v.nextPatch = true ↔
        r.lexTriple ≤ v.lexTriple ∨
          r.isPrerelease = true ∧ r.triple = (v.major, v.minor, v.patch + 1))) ∧
    (∀ v : Version, Relation.lt.holds v v.nextPatch = true ∧
      Relation.lt.holds v.nextPatch v.nextMinor = true ∧
      Relation.lt.holds v.nextMinor v.nextMajor = true) ∧
    (∀ v : Version, FirstRelease v v.stripPrerelease) ∧
    ∀ t : Target, t.IsPartial → ∃ lower upper, t.floor = .ok lower ∧ t.ceiling = .ok upper ∧
      ∀ r : Version, r.isPrerelease = false →
        (Relation.ge.holds r lower = true ∧ Relation.lt.holds r upper = true ↔
          t.BareContains r) := by
  refine ⟨fun v r => ⟨?_, ?_, ?_⟩, before_next, firstRelease_stripPrerelease,
    fun t ht => ht.between_iff⟩
  · exact before_nextMajor_iff v r
  · exact before_nextMinor_iff v r
  · exact before_nextPatch_iff v r

/-- The prerelease `2.0.0-rc` is below the next major release after `1.4.0-beta`, of which the
first release is `1.4.0`; and `1.4.7` is between the ends of `1.4`. -/
theorem Version.ceilings_exact_beta :
    Relation.lt.holds ⟨2, 0, 0, [.alpha "rc"], []⟩
      (nextMajor ⟨1, 4, 0, [.alpha "beta"], []⟩) = true ∧
    FirstRelease ⟨1, 4, 0, [.alpha "beta"], []⟩ ⟨1, 4, 0, [], []⟩ ∧
    (Target.minor 1 4).IsPartial ∧ (release 1 4 7).isPrerelease = false ∧
    ∃ lower upper, (Target.minor 1 4).floor = .ok lower ∧ (Target.minor 1 4).ceiling = .ok upper ∧
      Relation.ge.holds (release 1 4 7) lower = true ∧
      Relation.lt.holds (release 1 4 7) upper = true := by
  obtain ⟨hnext, -, hfirst, hends⟩ := ceilings_exact
  have hpartial : (Target.minor 1 4).IsPartial := .minor 1 4
  obtain ⟨lower, upper, hlower, hupper, hbetween⟩ := hends _ hpartial
  have hcontains : (Target.minor 1 4).BareContains (release 1 4 7) := ⟨rfl, rfl⟩
  obtain ⟨hge, hlt⟩ := (hbetween (release 1 4 7) rfl).2 hcontains
  exact ⟨(hnext ⟨1, 4, 0, [.alpha "beta"], []⟩ ⟨2, 0, 0, [.alpha "rc"], []⟩).1.2
      (.inr ⟨rfl, rfl⟩),
    hfirst ⟨1, 4, 0, [.alpha "beta"], []⟩, hpartial, rfl, lower, upper, hlower, hupper, hge, hlt⟩

end SemverRange
