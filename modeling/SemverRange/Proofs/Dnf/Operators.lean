import SemverRange.Proofs.Dnf.Combination
import SemverRange.Proofs.Dnf.Release

/-!
# How the operators fit together

A target by itself, the comparison operators before it and the dash between two targets expand
into bounds in different ways, with patterns and stars each treated in its own manner.  Still their
regions fit together without a gap and without an overlap: what is below a target, what agrees with
it and what is above it are the three parts of everything from `0.0.0` on.  For a star the first
and the last part are empty.

Only below `0.0.0`, where there are prereleases of `0.0.0` and nothing else, the parts of a star
overlap.

## Main results

* `Target.comparedRegion_ge`, `Target.mem_bareRegion_iff_notMem`, `Target.notMem_gt_of_mem_lt` —
  the parts that a target leaves.
* `Range.mem_region_between_iff` — a range between two targets in terms of comparisons with them.
* `Formula.operators_fit` — **which of the operators a release satisfies**.
-/

namespace SemverRange

open Set

/-! ### The parts that a target leaves -/

theorem releaseRank_lt_major (m : ℕ) : releaseRank m 0 0 < releaseRank (m + 1) 0 0 := by
  have hv : (Version.release m 0 0).isPrerelease = false := rfl
  exact (lt_releaseRank_iff hv _ _ _).2 (.inl (Nat.lt_succ_self m))

theorem releaseRank_lt_minor (m n : ℕ) : releaseRank m n 0 < releaseRank m (n + 1) 0 := by
  have hv : (Version.release m n 0).isPrerelease = false := rfl
  exact (lt_releaseRank_iff hv _ _ _).2 (.inr ⟨rfl, .inl (Nat.lt_succ_self n)⟩)

namespace Target

variable {t : Target} (ht : t.Proper)
include ht

/-- Not below the target is all that is not below it. -/
theorem comparedRegion_ge : t.comparedRegion .ge = (t.comparedRegion .lt)ᶜ := by
  ext x
  cases ht <;> simp [comparedRegion, Op.Holds]

/-- By itself a target stands for what is neither below nor above it. -/
theorem mem_bareRegion_iff_notMem (x : Precedence) :
    x ∈ t.bareRegion ↔ x ∉ t.comparedRegion .lt ∧ x ∉ t.comparedRegion .gt := by
  cases ht with
  | version w => simp [bareRegion, comparedRegion, Op.Holds, le_antisymm_iff, and_comm]
  | any => simp [bareRegion, comparedRegion, Op.Holds]
  | major m => simp [bareRegion, comparedRegion, Op.Holds]
  | minor m n => simp [bareRegion, comparedRegion, Op.Holds]

variable {x : Precedence} (hx : releaseRank 0 0 0 ≤ x)
include hx

/-- Nothing is below a target and above it. -/
theorem notMem_gt_of_mem_lt (h : x ∈ t.comparedRegion .lt) : x ∉ t.comparedRegion .gt := by
  cases ht with
  | version w =>
    have hlt : x < w.rank := h
    exact fun hgt => lt_asymm hlt hgt
  | any => exact fun _ => absurd hx (not_le_of_gt h)
  | major m =>
    have hlt : x < releaseRank m 0 0 := h
    exact fun hge => absurd (hlt.trans (releaseRank_lt_major m)) (not_lt_of_ge hge)
  | minor m n =>
    have hlt : x < releaseRank m n 0 := h
    exact fun hge => absurd (hlt.trans (releaseRank_lt_minor m n)) (not_lt_of_ge hge)

/-- As the lower end of a range a target leaves what is not below it. -/
theorem mem_lowerRegion_iff_notMem : x ∈ t.lowerRegion ↔ x ∉ t.comparedRegion .lt := by
  cases ht with
  | any => exact iff_of_true trivial (not_lt_of_ge hx)
  | _ => simp [lowerRegion, comparedRegion, Op.Holds]

/-- As the upper end of a range a target leaves what is not above it. -/
theorem mem_upperRegion_iff_notMem : x ∈ t.upperRegion ↔ x ∉ t.comparedRegion .gt := by
  cases ht with
  | any => exact iff_of_true trivial (not_lt_of_ge hx)
  | _ => simp [upperRegion, comparedRegion, Op.Holds]

end Target

/-- Between two targets is what is not below the one and not above the other. -/
theorem Range.mem_region_between_iff {a b : Target} (ha : a.Proper) (hb : b.Proper)
    {x : Precedence} (hx : releaseRank 0 0 0 ≤ x) :
    x ∈ (Range.between a b).region ↔ x ∉ a.comparedRegion .lt ∧ x ∉ b.comparedRegion .gt := by
  rw [← Target.mem_lowerRegion_iff_notMem ha hx, ← Target.mem_upperRegion_iff_notMem hb hx]
  by_cases hany : a = .any ∧ b = .any
  · obtain ⟨rfl, rfl⟩ := hany
    exact iff_of_true hx ⟨trivial, trivial⟩
  · rw [region]
    · exact Iff.rfl
    · exact fun h1 h2 => hany ⟨h1, h2⟩

/-! ### Formulas of one range -/

/-- The formula that is this clause alone. -/
def Clause.toFormula (c : Clause) : Formula := ⟨[.all [c]]⟩

section Release

variable {v : Version} (hv : v.isPrerelease = false)
include hv

theorem le_rank_of_release : releaseRank 0 0 0 ≤ v.rank := by
  rw [releaseRank_le_iff hv]
  omega

/-- A release satisfies a formula of one range if it lies in the region of the range. -/
theorem Range.satisfies_release {r : Range} (hr : r.Proper) :
    ∃ b, Formula.satisfies ⟨[r]⟩ v = .ok b ∧ (b = true ↔ v.rank ∈ r.region) := by
  obtain ⟨b, hb, h⟩ := Range.satisfies_alone hr v
  exact ⟨b, hb, by simpa [Admits, hv] using h⟩

/-- A release satisfies a clause if it lies in the region of the clause. -/
theorem Clause.satisfies_release {c : Clause} (hc : c.Proper) :
    ∃ b, c.toFormula.satisfies v = .ok b ∧ (b = true ↔ v.rank ∈ c.region) := by
  obtain ⟨b, hb, h⟩ := Range.satisfies_release hv (.all (List.forall_mem_singleton.2 hc))
  refine ⟨b, hb, h.trans ?_⟩
  simp [Range.region]

/-- **The operators fit together.**  Of the formulas `<a`, `a` and `>a` a release satisfies exactly
one.  It satisfies `>=a` if and only if it does not satisfy `<a`, and `a - b` if and only if it
satisfies `>=a` and does not satisfy `>b`. -/
theorem Formula.operators_fit {a b : Target} (ha : a.Proper) (hb : b.Proper) :
    ∃ below within above atLeast past between : Bool,
      (Clause.compare (some .lt) a).toFormula.satisfies v = .ok below ∧
      (Clause.bare a).toFormula.satisfies v = .ok within ∧
      (Clause.compare (some .gt) a).toFormula.satisfies v = .ok above ∧
      (Clause.compare (some .ge) a).toFormula.satisfies v = .ok atLeast ∧
      (Clause.compare (some .gt) b).toFormula.satisfies v = .ok past ∧
      Formula.satisfies ⟨[.between a b]⟩ v = .ok between ∧
      [below, within, above].count true = 1 ∧ atLeast = !below ∧
      between = (atLeast && !past) := by
  have h0 := le_rank_of_release hv
  obtain ⟨below, hbelow, hlt⟩ := Clause.satisfies_release hv (.compare .lt ha)
  obtain ⟨within, hwithin, hbare⟩ := Clause.satisfies_release hv (.bare ha)
  obtain ⟨above, habove, hgt⟩ := Clause.satisfies_release hv (.compare .gt ha)
  obtain ⟨atLeast, hatLeast, hge⟩ := Clause.satisfies_release hv (.compare .ge ha)
  obtain ⟨past, hpast, hgtb⟩ := Clause.satisfies_release hv (.compare .gt hb)
  obtain ⟨between, hbetween, hrange⟩ := Range.satisfies_release hv (.between ha hb)
  -- each answer in terms of what lies below `a`, above `a` and above `b`
  have hwithin' : within = (!below && !above) := by
    rw [Bool.eq_iff_iff, hbare, Clause.region, Target.mem_bareRegion_iff_notMem ha,
      Bool.and_eq_true, Bool.not_eq_true', Bool.not_eq_true', ← Bool.not_eq_true, hlt,
      ← Bool.not_eq_true, hgt]
    exact Iff.rfl
  have hone : below = true → above = false := by
    rw [← Bool.not_eq_true, hlt, hgt]
    exact Target.notMem_gt_of_mem_lt ha h0
  have hatLeast' : atLeast = !below := by
    rw [Bool.eq_iff_iff, hge, Bool.not_eq_true', ← Bool.not_eq_true, hlt, Clause.region,
      Target.comparedRegion_ge ha]
    exact Iff.rfl
  have hbetween' : between = (atLeast && !past) := by
    rw [hatLeast', Bool.eq_iff_iff, hrange, Range.mem_region_between_iff ha hb h0,
      Bool.and_eq_true, Bool.not_eq_true', Bool.not_eq_true', ← Bool.not_eq_true, hlt,
      ← Bool.not_eq_true, hgtb]
    exact Iff.rfl
  refine ⟨below, within, above, atLeast, past, between, hbelow, hwithin, habove, hatLeast, hpast,
    hbetween, ?_, hatLeast', hbetween'⟩
  rw [hwithin']
  cases below with
  | false => cases above <;> rfl
  | true => rw [hone rfl]; rfl

end Release

/-- The targets `1.2.3-rc` and `1.x`, and the release `1.2.3`, which is above the one and agrees
with the other. -/
theorem Formula.operators_fit_rcToOne :
    Version.isPrerelease ⟨1, 2, 3, [], []⟩ = false ∧
    (Target.version ⟨1, 2, 3, [.alpha "rc"], []⟩).Proper ∧ (Target.major 1).Proper ∧
    ∃ below within above atLeast past between : Bool,
      (Clause.compare (some .lt) (.version ⟨1, 2, 3, [.alpha "rc"], []⟩)).toFormula.satisfies
        ⟨1, 2, 3, [], []⟩ = .ok below ∧
      (Clause.bare (.version ⟨1, 2, 3, [.alpha "rc"], []⟩)).toFormula.satisfies
        ⟨1, 2, 3, [], []⟩ = .ok within ∧
      (Clause.compare (some .gt) (.version ⟨1, 2, 3, [.alpha "rc"], []⟩)).toFormula.satisfies
        ⟨1, 2, 3, [], []⟩ = .ok above ∧
      (Clause.compare (some .ge) (.version ⟨1, 2, 3, [.alpha "rc"], []⟩)).toFormula.satisfies
        ⟨1, 2, 3, [], []⟩ = .ok atLeast ∧
      (Clause.compare (some .gt) (.major 1)).toFormula.satisfies ⟨1, 2, 3, [], []⟩ = .ok past ∧
      Formula.satisfies ⟨[.between (.version ⟨1, 2, 3, [.alpha "rc"], []⟩) (.major 1)]⟩
        ⟨1, 2, 3, [], []⟩ = .ok between ∧
      [below, within, above].count true = 1 ∧ atLeast = !below ∧
      between = (atLeast && !past) :=
  ⟨rfl, .version _, .major 1, operators_fit rfl (.version _) (.major 1)⟩

end SemverRange
