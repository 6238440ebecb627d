/-!
# Binary floating-point numbers

The numbers of a settings document that are written with a point or an exponent
are binary floating-point numbers of 64 bits, of which only the values matter
here, not the bits: a finite number is `±m·2^q`, and every other real is rounded to
the nearest of them, a tie going to the even `m`.

## Main definitions

* `Binary64` — the values, with both infinities and the value that is no number.
* `Binary64.ofRatio`, `Binary64.ofDecimal` — the number nearest to a quotient and to
  a decimal.
* `Binary64.toInt?` — the integer that a number is equal to.
* `Binary64.floor?` — the whole part of a number that is not negative.
* `Binary64.add`, `Binary64.mul` — rounded sum and product.
-/

namespace SemverRange

/-- A binary floating-point number.  A finite one is `m·2^q` with a sign, where `m` has
at most 53 bits, and fewer than 53 only if `q` is the least exponent. -/
inductive Binary64
  | finite (negative : Bool) (m : Nat) (q : Int)
  | infinite (negative : Bool)
  | nan
  deriving DecidableEq, Repr

namespace Binary64

/-- The least exponent of a finite number. -/
def leastExponent : Int := -1074

/-- The greatest exponent of a finite number. -/
def greatestExponent : Int := 971

/-- Zero, with a sign. -/
def zero (negative : Bool) : Binary64 := finite negative 0 leastExponent

/-- `num / den` as a quotient of natural numbers times `2^-q`. -/
def scaled (num den : Nat) (q : Int) : Nat × Nat :=
  if q < 0 then (num * Nat.pow 2 (-q).toNat, den) else (num, den * Nat.pow 2 q.toNat)

/-- The natural number nearest to `num / den`, a tie going to the even one. -/
def divideToEven (num den : Nat) : Nat :=
  let d := num / den
  let r := num % den
  if 2 * r < den then d else if den < 2 * r then d + 1 else if d % 2 = 0 then d else d + 1

/-- The exponent with which `num / den` has 53 bits, or the least one. -/
def exponentOf (num den : Nat) : Int :=
  let q : Int := (Nat.log2 num : Int) - (Nat.log2 den : Int) - 52
  let (n, d) := scaled num den q
  max leastExponent (if n < d * Nat.pow 2 52 then q - 1 else q)

/-- The number nearest to `num / den`. -/
def ofRatio (negative : Bool) (num den : Nat) : Binary64 :=
  if num = 0 then zero negative
  else
    let q := exponentOf num den
    let (n, d) := scaled num den q
    let m := divideToEven n d
    let (m, q) := if m = Nat.pow 2 53 then (Nat.pow 2 52, q + 1) else (m, q)
    if greatestExponent < q then infinite negative else finite negative m q

/-- The number nearest to `m·2^q`. -/
def ofDyadic (negative : Bool) (m : Nat) (q : Int) : Binary64 :=
  if q < 0 then ofRatio negative m (Nat.pow 2 (-q).toNat)
  else ofRatio negative (m * Nat.pow 2 q.toNat) 1

/-- The number nearest to `digits·10^exponent`.  What is far out of range is decided
without the power of ten: `2^k` lies between `10^(3·k/10)` and `10^(31·k/100)`. -/
def ofDecimal (negative : Bool) (digits : Nat) (exponent : Int) : Binary64 :=
  let bits : Int := Nat.log2 digits
  if digits = 0 ∨ exponent + (bits + 1) * 31 / 100 + 1 < -330 then zero negative
  else if 310 < exponent + bits * 3 / 10 then infinite negative
  else if exponent < 0 then ofRatio negative digits (Nat.pow 10 (-exponent).toNat)
  else ofRatio negative (digits * Nat.pow 10 exponent.toNat) 1

/-- The number nearest to an integer. -/
def ofInt (n : Int) : Binary64 := ofRatio (n < 0) n.natAbs 1

/-- The integer that the number is equal to. -/
def toInt? : Binary64 → Option Int
  | finite negative m q =>
    let n : Option Nat :=
      if 0 ≤ q then some (m * Nat.pow 2 q.toNat)
      else if m % Nat.pow 2 (-q).toNat = 0 then some (m / Nat.pow 2 (-q).toNat)
      else none
    n.map fun n => if negative then -(n : Int) else n
  | _ => none

/-- The number is less than one; what is no number is not. -/
def isLessThanOne : Binary64 → Bool
  | finite negative m q => negative || (if 0 ≤ q then m = 0 else m < Nat.pow 2 (-q).toNat)
  | infinite negative => negative
  | nan => false

/-- The number is less than zero. -/
def isNegative : Binary64 → Bool
  | finite negative m _ => negative && m ≠ 0
  | infinite negative => negative
  | nan => false

/-- The greatest natural number that is not greater than the number, which is not less
than zero; there is none below infinity, nor one for what is no number. -/
def floor? : Binary64 → Option Nat
  | finite _ m q =>
    some (if 0 ≤ q then m * Nat.pow 2 q.toNat else m / Nat.pow 2 (-q).toNat)
  | _ => none

/-- The number with the other sign. -/
def neg : Binary64 → Binary64
  | finite negative m q => finite (!negative) m q
  | infinite negative => infinite (!negative)
  | nan => nan

/-- The numerator with its sign. -/
def signed (negative : Bool) (m : Nat) : Int := if negative then -(m : Int) else m

/-- The product, rounded. -/
def mul : Binary64 → Binary64 → Binary64
  | finite s m q, finite s' m' q' => ofDyadic (s ^^ s') (m * m') (q + q')
  | finite s m _, infinite s' => if m = 0 then nan else infinite (s ^^ s')
  | infinite s, finite s' m _ => if m = 0 then nan else infinite (s ^^ s')
  | infinite s, infinite s' => infinite (s ^^ s')
  | _, _ => nan

/-- The sum, rounded.  A sum that is zero is positive unless both terms are negative. -/
def add : Binary64 → Binary64 → Binary64
  | finite s m q, finite s' m' q' =>
    let least := min q q'
    let n := signed s (m * Nat.pow 2 (q - least).toNat) +
      signed s' (m' * Nat.pow 2 (q' - least).toNat)
    ofDyadic (n < 0 ∨ n = 0 ∧ s ∧ s') n.natAbs least
  | finite _ _ _, infinite s => infinite s
  | infinite s, finite _ _ _ => infinite s
  | infinite s, infinite s' => if s = s' then infinite s else nan
  | _, _ => nan

end Binary64

end SemverRange
