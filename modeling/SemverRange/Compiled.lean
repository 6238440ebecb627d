import SemverRange.Dnf.OfFormula
import SemverRange.Formula.Parser

/-!
# Compiled formulas

A text is read and its bounds are computed once; any number of versions can be
tried on the result.

## Main definitions

* `Compiled`, `compile` — a text with its formula and its bounds.
* `Formula.satisfies`, `satisfies` — a version satisfies a formula, both given as
  values or both given as texts.
-/

namespace SemverRange

/-- A text with what it stands for. -/
structure Compiled where
  /-- The text. -/
  text : String
  /-- The formula it stands for. -/
  formula : Formula
  /-- The bounds the formula stands for. -/
  dnf : Dnf
  deriving DecidableEq, Repr

/-- The formula and the bounds that a text stands for. -/
def compile (text : String) : Except Fault Compiled := do
  let formula ← Formula.parse text
  let dnf ← formula.normalize
  pure { text, formula, dnf }

/-- The version that a text stands for satisfies the compiled formula. -/
def Compiled.satisfiedByText (c : Compiled) (version : String) : Except Fault Bool := do
  let v ← Version.parse version
  c.dnf.satisfies v

/-- The version satisfies the formula. -/
def Formula.satisfies (f : Formula) (v : Version) : Except Fault Bool := do
  let d ← f.normalize
  d.satisfies v

/-- The version that one text stands for satisfies the formula that the other stands
for. -/
def satisfies (formula version : String) : Except Fault Bool := do
  let f ← Formula.parse formula
  let v ← Version.parse version
  f.satisfies v

end SemverRange
