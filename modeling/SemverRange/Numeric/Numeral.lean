/-!
# Decimal numerals of bounded length

Numbers are unbounded, but their numerals are not: a numeral of more than
`Numeral.limit` digits is neither read nor written.  Leading zeros count when a
numeral is read; a minus sign never counts.

## Main definitions

* `Numeral.read` — the number that a run of digits stands for.
* `Numeral.write`, `Numeral.writeInt` — the numeral of a natural number and of an
  integer.
* `Numeral.Fault` — a numeral is too long.
-/

namespace SemverRange

namespace Numeral

/-- The greatest number of digits that is read or written. -/
def limit : Nat := 4300

/-- A numeral is too long. -/
inductive Fault
  /-- A text of so many digits is not read. -/
  | tooLongToRead (digits : Nat)
  /-- A number whose numeral would be too long is not written. -/
  | tooLongToWrite
  deriving DecidableEq, Repr

/-- The wording of the fault. -/
def Fault.message : Fault → String
  | .tooLongToRead n =>
    "Exceeds the limit (4300 digits) for integer string conversion: value has " ++ toString n ++
      " digits; use sys.set_int_max_str_digits() to increase the limit"
  | .tooLongToWrite =>
    "Exceeds the limit (4300 digits) for integer string conversion; " ++
      "use sys.set_int_max_str_digits() to increase the limit"

/-- The number that a run of decimal digits stands for. -/
def read (ds : List Char) : Except Fault Nat :=
  if ds.length ≤ limit then .ok (Nat.ofDigitChars 10 ds 0) else .error (.tooLongToRead ds.length)

/-- The decimal numeral of `n`, without leading zeros. -/
def write (n : Nat) : Except Fault (List Char) :=
  let ds := Nat.toDigits 10 n
  if ds.length ≤ limit then .ok ds else .error .tooLongToWrite

/-- The decimal numeral of `n`, with a minus sign if it is negative. -/
def writeInt : Int → Except Fault (List Char)
  | .ofNat n => write n
  | .negSucc n => ('-' :: ·) <$> write (n + 1)

theorem read_eq_ok {ds : List Char} (h : ds.length ≤ limit) :
    read ds = .ok (Nat.ofDigitChars 10 ds 0) := by
  simp [read, h]

end Numeral

end SemverRange
