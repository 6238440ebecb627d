import SemverRange.Proofs.Dnf.Bounds

/-!
# Which releases satisfy a formula

For releases the bounds of a formula can be read off number by number.  A bare pattern fixes
the numbers that it has, a tilde fixes two numbers, a caret fixes all up to the first that is
not zero, and what remains free is bounded below lexicographically.  Nothing in this reading
mentions a comparator, a floor or a ceiling.

## Main definitions

* `Target.BareContains`, `Target.TildeContains`, `Target.CaretContains`,
  `Target.ComparedContains` — what a target says of the numbers of a release, by itself and
  after each kind of operator.
* `Target.LowerContains`, `Target.UpperContains` — what it says as the end of a range.
* `Range.Contains` — a range holds a release.

## Main results

* `Range.mem_region_iff` — for releases the two readings of a range agree.
* `Formula.satisfies_release_iff` — a release satisfies a formula if and only if one of its
  ranges holds it.
-/

namespace SemverRange

/-- The triple of the version as integers, ordered lexicographically. -/
def Version.intTriple (v : Version) : ℤ ×ₗ ℤ ×ₗ ℤ :=
  toLex ((v.major : ℤ), toLex ((v.minor : ℤ), (v.patch : ℤ)))

namespace Target

/-- The numbers that are there agree, and a version by itself is a release. -/
def BareContains (v : Version) : Target → Prop
  | version w => w.isPrerelease = false ∧ v.triple = w.triple
  | any => True
  | major m => v.major = m
  | minor m n => v.major = m ∧ v.minor = n
  | blank => False

/-- The first two numbers agree, and the third is not below. -/
def TildeContains (v : Version) : Target → Prop
  | version w => v.major = w.major ∧ v.minor = w.minor ∧ w.patch ≤ v.patch
  | any => False
  | major m => v.major = m
  | minor m n => v.major = m ∧ v.minor = n
  | blank => False

/-- All numbers up to the first that is not zero agree, and those after it are not below. -/
def CaretContains (v : Version) : Target → Prop
  | version w =>
    if 0 < w.major then
      v.major = w.major ∧ toLex (w.minor, w.patch) ≤ toLex (v.minor, v.patch)
    else if 0 < w.minor then v.major = 0 ∧ v.minor = w.minor ∧ w.patch ≤ v.patch
    else v.triple = (0, 0, w.patch)
  | any => True
  | major m => v.major = m
  | minor m n => if m = 0 then v.major = 0 ∧ v.minor = n else v.major = m ∧ n ≤ v.minor
  | blank => False

/-- The numbers of a pattern with zeros after them. -/
def floorTriple : Target → ℤ ×ₗ ℤ ×ₗ ℤ
  | version w => w.intTriple
  | any | blank => toLex (0, toLex (0, 0))
  | major m => toLex (m, toLex (0, 0))
  | minor m n => toLex (m, toLex (n, 0))

/-- A version is compared by precedence and a pattern by its floor, except that above a
pattern means that the numbers which it has are exceeded. -/
def ComparedContains (o : Op) (v : Version) : Target → Prop
  | version w => o.Holds v.rank w.rank
  | any => if o = .gt then False else o.Holds v.intTriple any.floorTriple
  | major m => if o = .gt then m < v.major else o.Holds v.intTriple (major m).floorTriple
  | minor m n =>
    if o = .gt then toLex (m, n) < toLex ((v.major : ℤ), (v.minor : ℤ))
    else o.Holds v.intTriple (minor m n).floorTriple
  | blank => False

/-- The release is not below the target. -/
def LowerContains (v : Version) : Target → Prop
  | version w => w.lexTriple ≤ v.lexTriple
  | any => True
  | major m => m ≤ v.major
  | minor m n => toLex (m, n) ≤ toLex ((v.major : ℤ), (v.minor : ℤ))
  | blank => False

/-- The release is not above the target, where a pattern has all that agrees with it below
it, and a prerelease has the release of its triple above it. -/
def UpperContains (v : Version) : Target → Prop
  | version w => if w.isPrerelease then v.lexTriple < w.lexTriple else v.lexTriple ≤ w.lexTriple
  | any => True
  | major m => v.major ≤ m
  | minor m n => toLex ((v.major : ℤ), (v.minor : ℤ)) ≤ toLex (m, n)
  | blank => False

end Target

/-- The clause holds of the release. -/
def Clause.Contains (v : Version) : Clause → Prop
  | .bare t => t.BareContains v
  | .shorthand (some .tilde) t => t.TildeContains v
  | .shorthand (some .caret) t => t.CaretContains v
  | .compare (some o) t => t.ComparedContains o v
  | _ => False

/-- All clauses hold of the release, or it lies between the ends. -/
def Range.Contains (v : Version) : Range → Prop
  | .all cs => ∀ c ∈ cs, c.Contains v
  | .between l u => l.LowerContains v ∧ u.UpperContains v
  | .blank => False

/-! ### The readings agree -/

/-- Operators say the same of pairs that are ordered alike. -/
theorem Op.holds_congr {α β : Type} [LinearOrder α] [LinearOrder β] {a b : α} {x y : β} (o : Op)
    (hle : a ≤ b ↔ x ≤ y) (hge : b ≤ a ↔ y ≤ x) : o.Holds a b ↔ o.Holds x y := by
  cases o with
  | eq => rw [Holds, Holds, le_antisymm_iff, le_antisymm_iff, hle, hge]
  | lt => rw [Holds, Holds, ← not_le, ← not_le, hge]
  | le => exact hle
  | gt => rw [Holds, Holds, gt_iff_lt, gt_iff_lt, ← not_le, ← not_le, hle]
  | ge => exact hge

section Release

open Set Target Version

variable {v : Version} (hv : v.isPrerelease = false) {t : Target}
include hv

theorem releaseRank_le_iff (a b c : ℕ) : releaseRank a b c ≤ v.rank ↔
    a < v.major ∨ a = v.major ∧ (b < v.minor ∨ b = v.minor ∧ c ≤ v.patch) := by
  rw [releaseRank, rank_le_release_iff hv, lexTriple_le_iff]
  rfl

theorem lt_releaseRank_iff (a b c : ℕ) : v.rank < releaseRank a b c ↔
    v.major < a ∨ v.major = a ∧ (v.minor < b ∨ v.minor = b ∧ v.patch < c) := by
  rw [releaseRank, release_lt_rank_iff hv, lexTriple_lt_iff]
  rfl

theorem Target.mem_bareRegion_iff (ht : t.Proper) : v.rank ∈ t.bareRegion ↔ t.BareContains v := by
  cases ht with
  | version w =>
    rw [bareRegion, mem_singleton_iff, release_eq_rank_iff hv, BareContains, lexTriple_eq_iff,
      triple_eq_iff, and_comm]
  | any =>
    simp only [bareRegion, BareContains, mem_Ici, releaseRank_le_iff hv, iff_true]
    omega
  | major m =>
    simp only [bareRegion, BareContains, mem_Ico, releaseRank_le_iff hv, lt_releaseRank_iff hv,
      Int.toNat_natCast]
    omega
  | minor m n =>
    simp only [bareRegion, BareContains, mem_Ico, releaseRank_le_iff hv, lt_releaseRank_iff hv,
      Int.toNat_natCast]
    omega

theorem Target.mem_tildeRegion_iff (ht : t.Proper) :
    v.rank ∈ t.tildeRegion ↔ t.TildeContains v := by
  cases ht with
  | version w =>
    simp only [tildeRegion, TildeContains, mem_Ico, rank_le_release_iff hv, lexTriple_le_iff,
      lt_releaseRank_iff hv]
    omega
  | any => exact Iff.rfl
  | major m => exact mem_bareRegion_iff hv (.major m)
  | minor m n => exact mem_bareRegion_iff hv (.minor m n)

theorem Target.mem_caretRegion_iff (ht : t.Proper) :
    v.rank ∈ t.caretRegion ↔ t.CaretContains v := by
  cases ht with
  | version w =>
    simp only [caretRegion, CaretContains, mem_Ico, rank_le_release_iff hv, lexTriple_le_iff,
      Prod.Lex.toLex_le_toLex, triple, Prod.mk.injEq]
    -- the first number of `w` that is not zero decides about the ceiling
    by_cases h1 : w.major = 0
    · by_cases h2 : w.minor = 0
      · simp only [h1, h2, and_self, if_true, lt_self_iff_false, if_false, lt_releaseRank_iff hv]
        omega
      · simp only [h1, h2, and_false, if_true, lt_self_iff_false, if_false, Nat.pos_of_ne_zero h2,
          lt_releaseRank_iff hv]
        omega
    · simp only [h1, false_and, if_false, Nat.pos_of_ne_zero h1, if_true, lt_releaseRank_iff hv]
      omega
  | any => exact mem_bareRegion_iff hv .any
  | major m => exact mem_bareRegion_iff hv (.major m)
  | minor m n =>
    simp only [caretRegion, CaretContains, mem_Ico, Int.toNat_natCast, releaseRank_le_iff hv]
    by_cases h : (m : ℤ) = 0
    · simp only [h, if_true, lt_releaseRank_iff hv]
      omega
    · simp only [h, if_false, lt_releaseRank_iff hv]
      omega

/-- A release stands to another release as their triples stand to each other. -/
theorem holds_releaseRank_iff (o : Op) (a b c : ℕ) : o.Holds v.rank (releaseRank a b c) ↔
    o.Holds v.intTriple (toLex ((a : ℤ), toLex ((b : ℤ), (c : ℤ)))) := by
  apply o.holds_congr
  · rw [releaseRank, rank_le_release_iff (isPrerelease_release a b c), lexTriple_le_iff, intTriple]
    simp only [Version.release, Prod.Lex.toLex_le_toLex]
    omega
  · rw [releaseRank_le_iff hv, intTriple]
    simp only [Prod.Lex.toLex_le_toLex]
    omega

theorem Target.mem_comparedRegion_iff (ht : t.Proper) (o : Op) :
    v.rank ∈ t.comparedRegion o ↔ t.ComparedContains o v := by
  by_cases ho : o = .gt
  · subst ho
    cases ht with
    | version w => exact Iff.rfl
    | any =>
      simp only [comparedRegion, ComparedContains, if_true, mem_Iio, lt_releaseRank_iff hv,
        iff_false]
      omega
    | major m =>
      simp only [comparedRegion, ComparedContains, if_true, mem_Ici, releaseRank_le_iff hv,
        Int.toNat_natCast]
      omega
    | minor m n =>
      simp only [comparedRegion, ComparedContains, if_true, mem_Ici, releaseRank_le_iff hv,
        Int.toNat_natCast, Prod.Lex.toLex_lt_toLex]
      omega
  · cases ht with
    | version w => exact Iff.rfl
    | any =>
      rw [comparedRegion, ComparedContains, if_neg ho, if_neg ho]
      exact holds_releaseRank_iff hv o 0 0 0
    | major m =>
      rw [comparedRegion, ComparedContains, if_neg ho, if_neg ho]
      exact holds_releaseRank_iff hv o m 0 0
    | minor m n =>
      rw [comparedRegion, ComparedContains, if_neg ho, if_neg ho]
      exact holds_releaseRank_iff hv o m n 0

theorem Target.mem_lowerRegion_iff (ht : t.Proper) :
    v.rank ∈ t.lowerRegion ↔ t.LowerContains v := by
  cases ht with
  | version w => exact rank_le_release_iff hv w
  | any => exact Iff.rfl
  | major m =>
    simp only [lowerRegion, LowerContains, mem_Ici, releaseRank_le_iff hv, Int.toNat_natCast]
    omega
  | minor m n =>
    simp only [lowerRegion, LowerContains, mem_Ici, releaseRank_le_iff hv, Int.toNat_natCast,
      Prod.Lex.toLex_le_toLex]
    omega

theorem Target.mem_upperRegion_iff (ht : t.Proper) :
    v.rank ∈ t.upperRegion ↔ t.UpperContains v := by
  cases ht with
  | version w =>
    rw [upperRegion, UpperContains, mem_Iic, release_le_rank_iff hv]
    cases w.isPrerelease with
    | false => simp [le_iff_lt_or_eq]
    | true => simp
  | any => exact Iff.rfl
  | major m =>
    simp only [upperRegion, UpperContains, mem_Iio, lt_releaseRank_iff hv, Int.toNat_natCast]
    omega
  | minor m n =>
    simp only [upperRegion, UpperContains, mem_Iio, lt_releaseRank_iff hv, Int.toNat_natCast,
      Prod.Lex.toLex_le_toLex]
    omega

theorem Clause.mem_region_iff {c : Clause} (hc : c.Proper) :
    v.rank ∈ c.region ↔ c.Contains v := by
  cases hc with
  | bare ht => exact mem_bareRegion_iff hv ht
  | shorthand s ht =>
    cases s with
    | tilde => exact mem_tildeRegion_iff hv ht
    | caret => exact mem_caretRegion_iff hv ht
  | compare o ht => exact mem_comparedRegion_iff hv ht o

/-- The region of a range has a release in it if and only if the range holds the release. -/
theorem Range.mem_region_iff {r : Range} (hr : r.Proper) : v.rank ∈ r.region ↔ r.Contains v := by
  cases hr with
  | all hcs => exact forall₂_congr fun c hc => Clause.mem_region_iff hv (hcs c hc)
  | @between l u hl hu =>
    rw [Contains, ← mem_lowerRegion_iff hv hl, ← mem_upperRegion_iff hv hu]
    by_cases hany : l = .any ∧ u = .any
    · -- from `0.0.0` on there are all releases
      obtain ⟨rfl, rfl⟩ := hany
      exact iff_of_true ((mem_bareRegion_iff hv .any).2 trivial) ⟨mem_univ _, mem_univ _⟩
    · rw [region]
      · exact Iff.rfl
      · exact fun h1 h2 => hany ⟨h1, h2⟩

/-- **A release satisfies a formula if and only if some range of the formula holds it**, which
is decided by its three numbers and by those of the targets. -/
theorem Formula.satisfies_release_iff {f : Formula} (hf : f.Proper) :
    ∃ b, f.satisfies v = .ok b ∧ (b = true ↔ ∃ r ∈ f.ranges, r.Contains v) := by
  obtain ⟨b, hb, h⟩ := satisfies_eq_ok hf v
  refine ⟨b, hb, h.trans (exists_congr fun r => and_congr_right fun hr => ?_)⟩
  rw [← Range.mem_region_iff hv (hf r hr)]
  simp [hv]

end Release

/-- The formula `0.2 - 1.4.0-rc || ~1.4.0-beta`, of which the first range ends just below the
release `1.4.0` and the second begins just below it. -/
def Formula.aroundRelease : Formula :=
  ⟨[.between (.minor 0 2) (.version ⟨1, 4, 0, [.alpha "rc"], []⟩),
    .all [.shorthand (some .tilde) (.version ⟨1, 4, 0, [.alpha "beta"], []⟩)]]⟩

theorem Formula.satisfies_release_iff_aroundRelease :
    Version.isPrerelease ⟨1, 4, 0, [], ["7"]⟩ = false ∧ aroundRelease.Proper ∧
    ∃ b, aroundRelease.satisfies ⟨1, 4, 0, [], ["7"]⟩ = .ok b ∧
      (b = true ↔ ∃ r ∈ aroundRelease.ranges, r.Contains ⟨1, 4, 0, [], ["7"]⟩) := by
  have hf : aroundRelease.Proper := by
    simp only [aroundRelease, Proper, List.forall_mem_cons]
    refine ⟨.between (.minor 0 2) (.version _), .all ?_, by simp⟩
    simp only [List.forall_mem_cons]
    exact ⟨.shorthand _ (.version _), by simp⟩
  exact ⟨rfl, hf, satisfies_release_iff rfl hf⟩

end SemverRange
