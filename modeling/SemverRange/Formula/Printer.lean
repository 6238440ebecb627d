import SemverRange.Fault
import SemverRange.Formula.Basic

/-!
# Writing formulas and versions

A formula is written with single spaces between the clauses of a range, ` - `
between the ends of a range and ` || ` between ranges.  A pattern is written with
all its three parts, except `*`; a version after `=` is written without it, which
means the same.

## Main definitions

* `Version.render`, `Target.render`, `Clause.render`, `Range.render`,
  `Formula.render` — the written forms as lists of characters.
* `Version.print`, `Formula.print` — the same as texts; `Version.printFilled` and
  `Formula.printFilled` refuse a blank.
-/

namespace SemverRange

/-- The written form of a natural number. -/
def renderNat (n : Nat) : Except Fault (List Char) :=
  (Numeral.write n).mapError .ofNumeral

/-- The written form of an integer. -/
def renderInt (n : Int) : Except Fault (List Char) :=
  (Numeral.writeInt n).mapError .ofNumeral

/-- The written form of a prerelease identifier. -/
def Identifier.render : Identifier → Except Fault (List Char)
  | .num n => renderInt n
  | .alpha s => pure s.toList

namespace Version

/-- The prerelease part with its dash, if there is one. -/
def renderPrerelease : List Identifier → Except Fault (List Char)
  | [] => pure []
  | is => do
    let pieces ← is.mapM Identifier.render
    pure ('-' :: ['.'].intercalate pieces)

/-- The build metadata with its plus sign, if there is any. -/
def renderBuild : List String → List Char
  | [] => []
  | bs => '+' :: ['.'].intercalate (bs.map String.toList)

/-- The written form of a version. -/
def render (v : Version) : Except Fault (List Char) := do
  let major ← renderNat v.major
  let minor ← renderNat v.minor
  let patch ← renderNat v.patch
  let pre ← renderPrerelease v.prerelease
  pure (major ++ '.' :: minor ++ '.' :: patch ++ pre ++ renderBuild v.build)

/-- The written form of a version. -/
def print (v : Version) : Except Fault String := String.ofList <$> v.render

end Version

/-- The written form of a target. -/
def Target.render : Target → Except Fault (List Char)
  | .version v => v.render
  | .any => pure ['*']
  | .major m => do
    let m ← renderInt m
    pure (m ++ ['.', 'x', '.', 'x'])
  | .minor m n => do
    let m ← renderInt m
    let n ← renderInt n
    pure (m ++ '.' :: n ++ ['.', 'x'])
  | .blank => throw .blankNode

/-- The sign before a target; a blank operator has none. -/
def renderSign (sign : Option (List Char)) : Except Fault (List Char) :=
  sign.elim (throw .blankSign) pure

/-- The written form of a clause. -/
def Clause.render : Clause → Except Fault (List Char)
  | .bare t => t.render
  | .compare (some .eq) (.version v) => v.render
  | .compare o t => do
    let sign ← renderSign (o.map Op.sign)
    let t ← t.render
    pure (sign ++ t)
  | .shorthand s t => do
    let sign ← renderSign (s.map Shorthand.sign)
    let t ← t.render
    pure (sign ++ t)
  | .blank => throw .blankNode

/-- The written form of a range. -/
def Range.render : Range → Except Fault (List Char)
  | .all cs => do
    let pieces ← cs.mapM Clause.render
    pure ([' '].intercalate pieces)
  | .between l u => do
    let l ← l.render
    let u ← u.render
    pure (l ++ [' ', '-', ' '] ++ u)
  | .blank => throw .blankNode

/-- The written form of a formula. -/
def Formula.render (f : Formula) : Except Fault (List Char) := do
  let pieces ← f.ranges.mapM Range.render
  pure ([' ', '|', '|', ' '].intercalate pieces)

/-- The written form of a formula. -/
def Formula.print (f : Formula) : Except Fault String := String.ofList <$> f.render

/-- The written form of a version, which may not be left blank. -/
def Version.printFilled (v : Option Version) : Except Fault String :=
  v.elim (throw (.blankWhole .version)) Version.print

/-- The written form of a formula, which may not be left blank as a whole. -/
def Formula.printFilled (f : Option Formula) : Except Fault String :=
  f.elim (throw (.blankWhole .formula)) Formula.print

end SemverRange
