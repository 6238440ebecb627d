import SemverRange.Numeric.ScriptDigit
import SemverRange.Settings.Document
import SemverRange.Settings.Yaml.Fault
import SemverRange.Settings.Yaml.Tag
import SemverRange.Text.LowerCase

/-!
# Values of YAML scalars

What the text of a scalar stands for, given the kind of value that it is asked to be.  A
scalar that got its kind from its form always has a value of that kind, as long as the
numbers in it make sense; one that is tagged can fail to.  Numbers can be written with
the digits of any script; a message shows the text as it was written.

## Main definitions

* `Yaml.intValue`, `Yaml.floatValue`, `Yaml.boolValue`, `Yaml.timestampValue`,
  `Yaml.binaryValue` — the values of each kind.
* `Yaml.scalarValue` — the value of a text of a given kind.
-/

namespace SemverRange

namespace Yaml

/-! ### Signs and marks -/

/-- The text starts with a minus sign. -/
def isNegative (text : List Nat) : Bool := text.head? = some '-'.toNat

/-- The text without a sign at its head. -/
def withoutSign : List Nat → List Nat
  | n :: ns => if n = '+'.toNat || n = '-'.toNat then ns else n :: ns
  | [] => []

/-- The text without the marks that group digits. -/
def ungroup (text : List Nat) : List Nat := text.filter (· ≠ '_'.toNat)

/-- The parts between colons. -/
def colonParts (text : List Nat) : List (List Nat) := text.splitOn ':'.toNat

/-- White space that may stand around a number. -/
def isAroundNumber (c : Char) : Bool := (0x09 ≤ c.toNat && c.toNat ≤ 0x0D) || c = ' '

/-- The characters of a text in which a number is looked for, without the white space at
the two ends. -/
def numberChars (text : List Nat) : List Char :=
  let cs := (text.map numberChar).dropWhile isAroundNumber
  (cs.reverse.dropWhile isAroundNumber).reverse

/-! ### Integers -/

/-- The letter that can announce a base after a zero. -/
def isBaseMark (base : Nat) (c : Char) : Bool :=
  match base with
  | 2 => c = 'b' || c = 'B'
  | 8 => c = 'o' || c = 'O'
  | 16 => c = 'x' || c = 'X'
  | _ => false

/-- The text after the announcement of the base, if there is one. -/
def skipBaseMark (base : Nat) : List Char → List Char
  | '0' :: c :: cs => if isBaseMark base c then cs else '0' :: c :: cs
  | cs => cs

/-- The integer to the base that a text stands for: digits, perhaps with a sign, with the
base announced, and between white space.  Decimal numerals have a bounded length. -/
def readInteger (base : Nat) (text : List Nat) : Except Fault Int :=
  let cs := numberChars text
  let body := skipBaseMark base (unsigned cs)
  let ds := body.takeWhile fun c => (digit? base c).isSome
  if base = 10 ∧ Numeral.limit < ds.length then
    throw (.ofNumeral (.tooLongToRead ds.length))
  else if ds.isEmpty ∨ ds.length < body.length then throw (.notInteger base text)
  else
    let n : Nat := ds.foldl (fun n c => n * base + (digit? base c).getD 0) 0
    pure (if head cs = '-' then -(n : Int) else n)

/-- The value of digits to the base 60, the last first. -/
def sexagesimal : List Int → Int
  | [] => 0
  | d :: ds => d + 60 * sexagesimal ds

/-- The integer of a text without its sign. -/
def intBody (text : List Nat) : Except Fault Int :=
  match charsOf text with
  | [] => throw .emptyNumber
  | ['0'] => pure 0
  | '0' :: 'b' :: _ => readInteger 2 (text.drop 2)
  | '0' :: 'x' :: _ => readInteger 16 (text.drop 2)
  | '0' :: _ => readInteger 8 text
  | _ =>
    match colonParts text with
    | [_] => readInteger 10 text
    | parts => do
      let ds ← parts.mapM (readInteger 10)
      pure (sexagesimal ds.reverse)

/-- The integer that a text stands for. -/
def intValue (text : List Nat) : Except Fault Document := do
  let text := ungroup text
  let n ← intBody (withoutSign text)
  pure (.int (if isNegative text then -n else n))

/-! ### Floating-point numbers -/

/-- The exponent at the end of a decimal. -/
def exponent? : List Char → Option Int
  | [] => some 0
  | e :: cs =>
    let ds := unsigned cs
    if (e = 'e' || e = 'E') && allOf Char.isDigit ds then
      let n : Int := (Nat.ofDigitChars 10 ds 0 : Nat)
      some (if head cs = '-' then -n else n)
    else none

/-- The floating-point number that a decimal without a sign stands for. -/
def decimal? (negative : Bool) (cs : List Char) : Option Binary64 :=
  let whole := cs.takeWhile Char.isDigit
  let after := cs.dropWhile Char.isDigit
  let (fraction, rest) :=
    match after with
    | '.' :: rest => (rest.takeWhile Char.isDigit, rest.dropWhile Char.isDigit)
    | _ => ([], after)
  let digits := whole ++ fraction
  if digits.isEmpty then none
  else (exponent? rest).map fun e =>
    .ofDecimal negative (Nat.ofDigitChars 10 digits 0) (e - fraction.length)

/-- The floating-point number that a text in lower case stands for: a decimal or one of
three words, perhaps with a sign, and between white space. -/
def readFloat (text : List Nat) : Except Fault Binary64 :=
  let cs := numberChars text
  let negative := head cs = '-'
  let body := unsigned cs
  let word := String.ofList body
  if word = "inf" ∨ word = "infinity" then pure (.infinite negative)
  else if word = "nan" then pure .nan
  else
    match decimal? negative body with
    | some x => pure x
    | none => throw (.notNumber text)

/-- The sum of digits to the base 60, the last first, each times its power of the base.
The power has to be a floating-point number itself, even where the digit is zero. -/
def sexagesimalFloat (sum : Binary64) (power : Int) : List Binary64 → Except Fault Binary64
  | [] => pure sum
  | d :: ds =>
    match Binary64.ofInt power with
    | .infinite _ => throw .powerTooGreat
    | factor => sexagesimalFloat (sum.add (d.mul factor)) (power * 60) ds

/-- The floating-point number of a text in lower case without its sign. -/
def floatBody (text : List Nat) : Except Fault Binary64 :=
  if String.ofList (charsOf text) = ".inf" then pure (.infinite false)
  else
    match colonParts text with
    | [_] => readFloat text
    | parts => do
      let ds ← parts.mapM readFloat
      sexagesimalFloat (.zero false) 1 ds.reverse

/-- The floating-point number that a text stands for, which was found at a place.  The
word for what is no number has no place. -/
def floatValue (place : Nat) (text : List Nat) : Except Fault Document := do
  let text := lowered (ungroup text)
  if text.isEmpty then throw .emptyNumber
  else if String.ofList (charsOf (withoutSign text)) = ".nan" then pure (.nan none)
  else
    let x ← floatBody (withoutSign text)
    pure (.ofBinary64 place (if isNegative text then x.neg else x))

/-! ### Truth values -/

/-- The truth value that a word stands for. -/
def boolValue (text : List Nat) : Except Fault Document :=
  let points := lowered text
  let word := String.ofList (charsOf points)
  if ["yes", "true", "on"].contains word then pure (.bool true)
  else if ["no", "false", "off"].contains word then pure (.bool false)
  else throw (.notBool points)

/-! ### Dates -/

/-- The digits of a fraction of a second as microseconds; further digits do not count. -/
def microseconds (ds : List Char) : Nat :=
  let six := ds.take 6
  Nat.ofDigitChars 10 (six ++ List.replicate (6 - six.length) '0') 0

/-- The date, or the moment, that a text stands for. -/
def timestampValue (text : List Nat) : Except Fault Document :=
  match dateText (withoutLastBreak (charsOf text)) with
  | none => throw .notDate
  | some d =>
    let date : Date := ⟨d.year, d.month, d.day⟩
    match d.clock with
    | none => do
      date.check.mapError .ofMoment
      pure (.date date)
    | some (hour, minute, second, fraction, offset) => do
      let moment : Moment :=
        { date, hour, minute, second, microsecond := microseconds fraction, offset }
      moment.check.mapError .ofMoment
      pure (.moment moment)

/-! ### Octets -/

/-- The six bits that a character stands for. -/
def sextet? (c : Char) : Option Nat :=
  if 'A' ≤ c ∧ c ≤ 'Z' then some (c.toNat - 'A'.toNat)
  else if 'a' ≤ c ∧ c ≤ 'z' then some (c.toNat - 'a'.toNat + 26)
  else if c.isDigit then some (c.toNat - '0'.toNat + 52)
  else if c = '+' then some 62
  else if c = '/' then some 63
  else none

/-- The octets of groups of four characters.  `place` is the place in the group, `bits`
are the bits left over from the character before, and `pads` counts the marks that fill
up the last group, with which the octets end.  Any other character does not count. -/
def base64 (place bits pads : Nat) : List Char → Except Fault (List Nat)
  | [] => if place = 0 then pure [] else throw .malformed
  | c :: cs =>
    if c = '=' then
      if 2 ≤ place then
        if 4 ≤ place + pads + 1 then pure [] else base64 place bits (pads + 1) cs
      else base64 place bits pads cs
    else
      match sextet? c with
      | none => base64 place bits pads cs
      | some n =>
        match place with
        | 0 => base64 1 n 0 cs
        | 1 => ((bits * 4 + n / 16) :: ·) <$> base64 2 (n % 16) 0 cs
        | 2 => ((bits * 16 + n / 4) :: ·) <$> base64 3 (n % 4) 0 cs
        | _ => ((bits * 64 + n) :: ·) <$> base64 0 0 0 cs

/-- The octets that a text stands for. -/
def binaryValue (text : List Nat) : Except Fault Document :=
  if text.all (· < 0x80) then Document.bytes <$> base64 0 0 0 (charsOf text)
  else throw .malformed

/-- The value of a text of the kind, which was found at a place; only the kinds of scalars
have any. -/
def scalarValue (place : Nat) (tag : Tag) (text : List Nat) : Except Fault Document :=
  match tag with
  | .null => pure .null
  | .bool => boolValue text
  | .int => intValue text
  | .float => floatValue place text
  | .binary => binaryValue text
  | .timestamp => timestampValue text
  | .text => pure (.text text)
  | _ => throw .malformed

end Yaml

end SemverRange
