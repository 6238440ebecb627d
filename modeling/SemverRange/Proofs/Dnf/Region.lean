import Mathlib.Order.Interval.Set.Basic
import SemverRange.Dnf.Basic
import SemverRange.Proofs.Version.Precedence

/-!
# The region that a formula stands for

A clause bounds the precedence of a version from below, from above, or both.  Its *region*
is what lies between: a set of ranks, an interval with a floor and a ceiling that are read
off the clause itself.  The region of a range is what its clauses have in common.  All this
is said without comparators; that normalization comes to the same is shown elsewhere.

## Main definitions

* `Formula.Proper` — no part is blank and no number of a pattern is negative.
* `Op.Holds` — what an operator says of two elements of a linear order.
* `Clause.region`, `Range.region` — floors and ceilings as a set of ranks.
* `Range.targets`, `Range.prereleases` — the targets that a range is written with, and the
  prereleases among them.
* `Range.Names` — the range is written with a prerelease of the triple of a version.
-/

namespace SemverRange

/-! ### Formulas without gaps -/

/-- The target is not blank and has no negative number. -/
inductive Target.Proper : Target → Prop
  | version (v : Version) : Proper (.version v)
  | any : Proper .any
  | major (m : ℕ) : Proper (.major m)
  | minor (m n : ℕ) : Proper (.minor m n)

/-- The clause has all its parts, and its target is proper. -/
inductive Clause.Proper : Clause → Prop
  | bare {t : Target} : t.Proper → Proper (.bare t)
  | shorthand (s : Shorthand) {t : Target} : t.Proper → Proper (.shorthand (some s) t)
  | compare (o : Op) {t : Target} : t.Proper → Proper (.compare (some o) t)

/-- The clauses or the ends of the range are proper. -/
inductive Range.Proper : Range → Prop
  | all {cs : List Clause} : (∀ c ∈ cs, c.Proper) → Proper (.all cs)
  | between {l u : Target} : l.Proper → u.Proper → Proper (.between l u)

/-- All ranges of the formula are proper. -/
def Formula.Proper (f : Formula) : Prop := ∀ r ∈ f.ranges, r.Proper

/-! ### Regions -/

open Set

/-- What the operator says of two elements of a linear order. -/
def Op.Holds {α : Type} [LinearOrder α] : Op → α → α → Prop
  | .eq, a, b => a = b
  | .lt, a, b => a < b
  | .le, a, b => a ≤ b
  | .gt, a, b => a > b
  | .ge, a, b => a ≥ b

/-- Where the release `a.b.c` stands. -/
def releaseRank (a b c : ℕ) : Precedence := (Version.release a b c).rank

namespace Target

/-- A version by itself is that version; a pattern runs from its floor to the first release
past it. -/
def bareRegion : Target → Set Precedence
  | version w => {w.rank}
  | any => Ici (releaseRank 0 0 0)
  | major m => Ico (releaseRank m.toNat 0 0) (releaseRank (m.toNat + 1) 0 0)
  | minor m n => Ico (releaseRank m.toNat n.toNat 0) (releaseRank m.toNat (n.toNat + 1) 0)
  | blank => ∅

/-- After a tilde a version runs up to the next minor number.  A tilde changes nothing about
a pattern, except that it makes nothing of a star. -/
def tildeRegion : Target → Set Precedence
  | version w => Ico w.rank (releaseRank w.major (w.minor + 1) 0)
  | any => ∅
  | t => t.bareRegion

/-- After a caret the first number that is not zero stays as it is. -/
def caretRegion : Target → Set Precedence
  | version w => Ico w.rank
      (if w.major = 0 ∧ w.minor = 0 then releaseRank 0 0 (w.patch + 1)
      else if w.major = 0 then releaseRank 0 (w.minor + 1) 0
      else releaseRank (w.major + 1) 0 0)
  | minor m n => Ico (releaseRank m.toNat n.toNat 0)
      (if m = 0 then releaseRank 0 (n.toNat + 1) 0 else releaseRank (m.toNat + 1) 0 0)
  | t => t.bareRegion

/-- A comparison with a pattern is one with its floor, except that above a pattern means
past all of it; what would lie past a star is below `0.0.0`. -/
def comparedRegion (o : Op) : Target → Set Precedence
  | version w => {x | o.Holds x w.rank}
  | any => if o = .gt then Iio (releaseRank 0 0 0) else {x | o.Holds x (releaseRank 0 0 0)}
  | major m =>
    if o = .gt then Ici (releaseRank (m.toNat + 1) 0 0)
    else {x | o.Holds x (releaseRank m.toNat 0 0)}
  | minor m n =>
    if o = .gt then Ici (releaseRank m.toNat (n.toNat + 1) 0)
    else {x | o.Holds x (releaseRank m.toNat n.toNat 0)}
  | blank => ∅

/-- What the target leaves as the lower end of a range. -/
def lowerRegion : Target → Set Precedence
  | version w => Ici w.rank
  | any => univ
  | major m => Ici (releaseRank m.toNat 0 0)
  | minor m n => Ici (releaseRank m.toNat n.toNat 0)
  | blank => ∅

/-- What the target leaves as the upper end of a range. -/
def upperRegion : Target → Set Precedence
  | version w => Iic w.rank
  | any => univ
  | major m => Iio (releaseRank (m.toNat + 1) 0 0)
  | minor m n => Iio (releaseRank m.toNat (n.toNat + 1) 0)
  | blank => ∅

end Target

/-- The floor and the ceiling of a clause, as the set between them. -/
def Clause.region : Clause → Set Precedence
  | .bare t => t.bareRegion
  | .shorthand (some .tilde) t => t.tildeRegion
  | .shorthand (some .caret) t => t.caretRegion
  | .compare (some o) t => t.comparedRegion o
  | _ => ∅

/-- What the clauses or the ends of a range leave.  Two stars leave everything from `0.0.0`
on. -/
def Range.region : Range → Set Precedence
  | .all cs => {x | ∀ c ∈ cs, x ∈ c.region}
  | .between .any .any => Ici (releaseRank 0 0 0)
  | .between l u => l.lowerRegion ∩ u.upperRegion
  | .blank => ∅

/-! ### What a range is written with -/

/-- The target of the clause. -/
def Clause.target : Clause → Target
  | .bare t | .shorthand _ t | .compare _ t => t
  | .blank => .blank

/-- The targets that the range is written with, in order. -/
def Range.targets : Range → List Target
  | .all cs => cs.map Clause.target
  | .between l u => [l, u]
  | .blank => []

/-- The version, without its build metadata, if the target is a prerelease. -/
def Target.prereleases : Target → List Version
  | .version w => [w.stripBuild].filter Version.isPrerelease
  | _ => []

/-- The prereleases that the range is written with, without their build metadata. -/
def Range.prereleases (r : Range) : List Version := r.targets.flatMap Target.prereleases

/-- The range is written with a prerelease of the triple of `v`. -/
def Range.Names (r : Range) (v : Version) : Prop :=
  ∃ w, .version w ∈ r.targets ∧ w.isPrerelease = true ∧ w.triple = v.triple

theorem Range.names_iff (r : Range) (v : Version) :
    r.Names v ↔ ∃ w ∈ r.prereleases, w.triple = v.triple := by
  constructor
  · rintro ⟨w, hw, hpre, htriple⟩
    refine ⟨w.stripBuild, List.mem_flatMap.2 ⟨_, hw, ?_⟩, htriple⟩
    simp [Target.prereleases, hpre]
  · rintro ⟨w, hw, htriple⟩
    obtain ⟨t, ht, hwt⟩ := List.mem_flatMap.1 hw
    cases t with
    | version u =>
      obtain ⟨hwu, hpre⟩ := List.mem_filter.1 hwt
      rw [List.mem_singleton] at hwu
      subst hwu
      exact ⟨u, ht, hpre, htriple⟩
    | _ => cases hwt

end SemverRange
