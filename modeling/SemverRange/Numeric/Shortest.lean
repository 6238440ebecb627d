import SemverRange.Numeric.Binary64

/-!
# The shortest decimal of a floating-point number

A floating-point number is written with the fewest digits that read back as the
same number; of several decimals with that many digits, the nearest one.  Numbers
from `10^-4` up to, but not including, `10^16` are written with a point, and with
`.0` if they are integers; all others are written with an exponent, which has a
sign and at least two digits.

## Main definitions

* `Binary64.shortest` — the fewest digits, with the exponent of the last one.
* `Binary64.print` — the written form.
-/

namespace SemverRange

namespace Binary64

/-- The power of ten at or below `num / den`, which is positive. -/
def decimalExponent (num den : Nat) : Int :=
  let e : Int := ((Nat.toDigits 10 num).length : Int) - (Nat.toDigits 10 den).length
  let (n, d) :=
    if e < 0 then (num * Nat.pow 10 (-e).toNat, den) else (num, den * Nat.pow 10 e.toNat)
  if n < d then e - 1 else e

/-- A decimal `digits·10^exponent` that reads back as `x`, one of the two that enclose
`num / den` among those with the given exponent.  Of two the nearer one is taken. -/
def onGrid? (x : Binary64) (num den : Nat) (exponent : Int) : Option (Nat × Int) :=
  let (n, d) :=
    if exponent < 0 then (num * Nat.pow 10 (-exponent).toNat, den)
    else (num, den * Nat.pow 10 exponent.toNat)
  let lower := n / d
  let rest := n % d
  let lowerFits := decide (ofDecimal false lower exponent = x)
  let upperFits := decide (ofDecimal false (lower + 1) exponent = x)
  match lowerFits, upperFits with
  | true, true =>
    let up := if 2 * rest = d then lower % 2 = 1 else d < 2 * rest
    some (if up then lower + 1 else lower, exponent)
  | true, false => some (lower, exponent)
  | false, true => some (lower + 1, exponent)
  | false, false => none

/-- The shortest decimal `digits·10^exponent` that reads back as the number `m·2^q`, which
is not zero.  Seventeen digits always do. -/
def shortest (m : Nat) (q : Int) : Nat × Int :=
  let num := if q < 0 then m else m * Nat.pow 2 q.toNat
  let den := if q < 0 then Nat.pow 2 (-q).toNat else 1
  let top := decimalExponent num den
  let found := (List.range 17).findSome? fun (i : Nat) =>
    onGrid? (finite false m q) num den (top - i)
  found.getD (0, 0)

/-- The digits without the zeros at their end, each of which raises the exponent. -/
def trimZeros : List Char → Int → List Char × Int
  | ds, e =>
    let kept := (ds.reverse.dropWhile (· = '0')).reverse
    (kept, e + (ds.length - kept.length : Nat))

/-- The exponent with its sign and at least two digits. -/
def printExponent (e : Int) : List Char :=
  let ds := Nat.toDigits 10 e.natAbs
  (if e < 0 then '-' else '+') :: (if ds.length < 2 then '0' :: ds else ds)

/-- The digits `ds`, of which the last stands for `10^e`, with a point or an exponent. -/
def layOut (ds : List Char) (e : Int) : List Char :=
  let first := e + ds.length - 1
  if -4 ≤ first ∧ first < 16 then
    if 0 ≤ e then ds ++ List.replicate e.toNat '0' ++ ['.', '0']
    else if 0 ≤ first then
      let whole := (first + 1).toNat
      ds.take whole ++ '.' :: ds.drop whole
    else '0' :: '.' :: List.replicate (-first - 1).toNat '0' ++ ds
  else
    match ds with
    | [d] => d :: 'e' :: printExponent first
    | d :: ds => d :: '.' :: ds ++ 'e' :: printExponent first
    | [] => []

/-- The written form of a number. -/
def print : Binary64 → String
  | finite negative m q =>
    let body :=
      if m = 0 then ['0', '.', '0']
      else
        let (digits, e) := shortest m q
        let (ds, e) := trimZeros (Nat.toDigits 10 digits) e
        layOut ds e
    String.ofList (if negative then '-' :: body else body)
  | infinite negative => if negative then "-inf" else "inf"
  | nan => "nan"

end Binary64

end SemverRange
