import SemverRange.Formula.Basic
import SemverRange.Version.Order

/-!
# Equality of formulas

Two formulas are the same when they have the same shape and their versions are
the same by precedence, which leaves build metadata out.

## Main definitions

* `Target.same`, `Clause.same`, `Range.same`, `Formula.same`.
-/

namespace SemverRange

/-- The lists have the same length and related elements. -/
def sameAll {α : Type} (same : α → α → Bool) : List α → List α → Bool
  | [], [] => true
  | a :: as, b :: bs => same a b && sameAll same as bs
  | _, _ => false

/-- Versions are compared by precedence, patterns by their numbers. -/
def Target.same : Target → Target → Bool
  | .version v, .version w => v.same w
  | s, t => s = t

/-- The same kind of clause, the same operator and the same target. -/
def Clause.same : Clause → Clause → Bool
  | .bare s, .bare t => s.same t
  | .shorthand a s, .shorthand b t => a = b && s.same t
  | .compare a s, .compare b t => a = b && s.same t
  | .blank, .blank => true
  | _, _ => false

/-- The same kind of range with the same clauses or ends. -/
def Range.same : Range → Range → Bool
  | .all cs, .all ds => sameAll Clause.same cs ds
  | .between l u, .between l' u' => l.same l' && u.same u'
  | .blank, .blank => true
  | _, _ => false

/-- The same ranges in the same order. -/
def Formula.same (f g : Formula) : Bool := sameAll Range.same f.ranges g.ranges

theorem sameAll_refl {α : Type} {same : α → α → Bool} (h : ∀ a, same a a = true) (as : List α) :
    sameAll same as as = true := by
  induction as with
  | nil => rfl
  | cons a as ih => simp [sameAll, h, ih]

@[simp]
theorem Target.same_refl (t : Target) : t.same t = true := by
  cases t <;> simp [Target.same]

@[simp]
theorem Clause.same_refl (c : Clause) : c.same c = true := by
  cases c <;> simp [Clause.same]

@[simp]
theorem Range.same_refl (r : Range) : r.same r = true := by
  cases r with
  | all cs => exact sameAll_refl Clause.same_refl cs
  | between l u => simp [Range.same]
  | blank => rfl

@[simp]
theorem Formula.same_refl (f : Formula) : f.same f = true := sameAll_refl Range.same_refl f.ranges

end SemverRange
