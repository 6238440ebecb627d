import SemverRange.Fault
import SemverRange.Formula.Basic
import SemverRange.Formula.Same

/-!
# Bounds in disjunctive normal form

A formula without its abbreviations is a disjunction of conjunctions of
comparators, and a comparator bounds the precedence of a version.  A version
satisfies it when it meets all bounds of one conjunction; a prerelease has
moreover to be asked for, by a bound of the same conjunction that is a prerelease
of the same triple.

## Main definitions

* `Comparator`, `Conjunction`, `Dnf`.
* `Comparator.check` — a version meets a bound.
* `Dnf.satisfies` — a version meets all bounds of one conjunction.
* `Dnf.toFormula` — the bounds as a formula again.
* `Dnf.same` — equality, with versions compared by precedence.
-/

namespace SemverRange

/-- A bound on the precedence of a version.  Its operator can be blank. -/
structure Comparator where
  /-- How a version has to stand to the bound. -/
  op : Option Op
  /-- The bound. -/
  version : Version
  deriving DecidableEq, Repr

/-- Bounds that have to be met together. -/
abbrev Conjunction := List Comparator

/-- A disjunction of conjunctions. -/
abbrev Dnf := List Conjunction

/-- The relation that the operator stands for. -/
def Op.relation : Op → Relation
  | .eq => .eq
  | .lt => .lt
  | .le => .le
  | .gt => .gt
  | .ge => .ge

/-- The version meets the bound. -/
def Comparator.check (c : Comparator) (v : Version) : Except Fault Bool :=
  match c.op with
  | some o => pure (o.relation.holds v c.version)
  | none => throw .blankNode

/-- Some element passes the test, which is made from left to right until one does. -/
def anyM {α : Type} (test : α → Except Fault Bool) : List α → Except Fault Bool
  | [] => pure false
  | a :: as => do if ← test a then pure true else anyM test as

/-- All elements pass the test, which is made from left to right until one does not. -/
def allM {α : Type} (test : α → Except Fault Bool) : List α → Except Fault Bool
  | [] => pure true
  | a :: as => do if ← test a then allM test as else pure false

namespace Conjunction

/-- The version meets all the bounds. -/
def check (cs : Conjunction) (v : Version) : Except Fault Bool := allM (·.check v) cs

/-- Some bound is a prerelease of the triple of `v`. -/
def asksFor (cs : Conjunction) (v : Version) : Bool :=
  cs.any fun c => c.version.isPrerelease && c.version.triple = v.triple

/-- The version meets all the bounds, and if it is a prerelease it is asked for. -/
def admits (cs : Conjunction) (v : Version) : Except Fault Bool :=
  if v.isPrerelease && !asksFor cs v then pure false else check cs v

end Conjunction

namespace Dnf

/-- The version, of which build metadata does not count, is admitted by one of the
conjunctions. -/
def satisfies (d : Dnf) (v : Version) : Except Fault Bool :=
  anyM (Conjunction.admits · v.stripBuild) d

/-- The bounds as a formula of comparisons with versions. -/
def toFormula (d : Dnf) : Formula :=
  ⟨d.map fun cs => .all (cs.map fun c => .compare c.op (.version c.version))⟩

end Dnf

/-- The same operator, and versions of the same precedence. -/
def Comparator.same (c d : Comparator) : Bool := c.op = d.op && c.version.same d.version

/-- The same bounds in the same order. -/
def Dnf.same (d e : Dnf) : Bool := sameAll (sameAll Comparator.same) d e

end SemverRange
