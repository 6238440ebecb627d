import SemverRange.Dnf.Basic
import SemverRange.Formula.Printer

/-!
# The bounds that a formula stands for

Each range of a formula becomes one conjunction.  Abbreviations are expanded into
bounds: a pattern lies between its *floor*, the lowest version that agrees with
it, and its *ceiling*, the first release past it.

    ^1.2.3        >=1.2.3 <2.0.0
    ^0.2.3        >=0.2.3 <0.3.0
    ~1.2          >=1.2.0 <1.3.0
    1.x           >=1.0.0 <2.0.0
    1.2.3 - 2.x   >=1.2.3 <3.0.0
    >1.2          >=1.3.0

No bound has build metadata.

## Main definitions

* `Target.floor`, `Target.ceiling` — the ends of a pattern.
* `Target.exact`, `Target.comparedBy`, `Target.tilde`, `Target.caret` — the bounds
  of a target by itself and after each kind of operator.
* `Range.bounds`, `Formula.normalize` — the bounds of a range and of a formula.
* `Dnf.print` — bounds in the notation of formulas.
-/

namespace SemverRange

/-- A bound from below that is included. -/
def Comparator.atLeast (v : Version) : Comparator := ⟨some .ge, v⟩

/-- A bound from above that is excluded. -/
def Comparator.below (v : Version) : Comparator := ⟨some .lt, v⟩

/-- A bound from above that is included. -/
def Comparator.atMost (v : Version) : Comparator := ⟨some .le, v⟩

namespace Target

/-- The release with the given triple, if no number is negative. -/
def release? (major minor patch : Int) : Except Fault Version :=
  (Version.ofParts? major minor patch [] []).mapError .ofVersion

/-- The lowest version that agrees with the target: the version itself, or the numbers
of the pattern with zeros after them. -/
def floor : Target → Except Fault Version
  | version v => pure v.stripBuild
  | any => pure .zero
  | major m => release? m 0 0
  | minor m n => release? m n 0
  | blank => throw .blankNode

/-- The first release past a pattern.  There is none past `*`, and a version is no
pattern. -/
def ceiling : Target → Except Fault Version
  | major m => release? (m + 1) 0 0
  | minor m n => release? m (n + 1) 0
  | version _ | any | blank => throw .blankNode

/-- The bounds of a target without an operator. -/
def exact : Target → Except Fault Conjunction
  | version v => pure [⟨some .eq, v.stripBuild⟩]
  | any => pure [.atLeast .zero]
  | t => do
    let lower ← t.floor
    let upper ← t.ceiling
    pure [.atLeast lower, .below upper]

/-- The bound of a target after a comparison operator.  A pattern stands for its floor,
except that above a pattern means past all of it, and above `*` there is nothing. -/
def comparedBy (o : Option Op) : Target → Except Fault Comparator
  | version v => pure ⟨o, v.stripBuild⟩
  | t =>
    if o = some .gt then
      match t with
      | any => pure (.below .zero)
      | t => do
        let upper ← t.ceiling
        pure (.atLeast upper)
    else do
      let lower ← t.floor
      pure ⟨o, lower⟩

/-- The bounds of a target after a tilde.  After `~*` they exclude each other. -/
def tilde (t : Target) : Except Fault Conjunction := do
  let lower ← t.floor
  match t with
  | any => pure [.atLeast lower, .below .zero]
  | major _ => do
    let upper ← t.ceiling
    pure [.atLeast lower, .below upper]
  | _ => pure [.atLeast lower, .below lower.nextMinor]

/-- The bounds of a target after a caret: the first number that is not zero may not
change. -/
def caret (t : Target) : Except Fault Conjunction := do
  let lower ← t.floor
  match t with
  | version v =>
    let upper :=
      if v.major = 0 ∧ v.minor = 0 then lower.nextPatch
      else if v.major = 0 then lower.nextMinor
      else lower.nextMajor
    pure [.atLeast lower, .below upper]
  | any => pure [.atLeast lower]
  | minor m _ =>
    pure [.atLeast lower, .below (if m = 0 then lower.nextMinor else lower.nextMajor)]
  | _ => pure [.atLeast lower, .below lower.nextMajor]

/-- The bound that a target sets as the lower end of a range; `*` sets none. -/
def lowerEnd : Target → Except Fault Conjunction
  | any => pure []
  | t => do
    let lower ← t.floor
    pure [.atLeast lower]

/-- The bound that a target sets as the upper end of a range; `*` sets none, and
neither does a blank. -/
def upperEnd : Target → Except Fault Conjunction
  | version v => pure [.atMost v.stripBuild]
  | any | blank => pure []
  | t => do
    let upper ← t.ceiling
    pure [.below upper]

end Target

/-- The bounds of a clause. -/
def Clause.bounds : Clause → Except Fault Conjunction
  | .compare o t => do
    let c ← t.comparedBy o
    pure [c]
  | .shorthand (some .tilde) t => t.tilde
  | .shorthand (some .caret) t => t.caret
  | .bare t => t.exact
  | .shorthand none _ | .blank => throw .blankNode

/-- The bounds of a range.  Between two stars lie all versions from `0.0.0` on. -/
def Range.bounds : Range → Except Fault Conjunction
  | .all cs => do
    let bs ← cs.mapM Clause.bounds
    pure bs.flatten
  | .between l u => do
    let lower ← l.lowerEnd
    let upper ← u.upperEnd
    let bs := lower ++ upper
    pure (if bs.isEmpty then [.atLeast .zero] else bs)
  | .blank => throw .blankNode

/-- The bounds that a formula stands for, one conjunction a range. -/
def Formula.normalize (f : Formula) : Except Fault Dnf := f.ranges.mapM Range.bounds

/-- The bounds in the notation of formulas. -/
def Dnf.print (d : Dnf) : Except Fault String := d.toFormula.print

end SemverRange
