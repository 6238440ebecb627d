import SemverRange.Numeric.Numeral
import SemverRange.Settings.Moment
import SemverRange.Text.Quoted

/-!
# What can go wrong with a YAML text

A text that does not follow the format, or means nothing by it, is malformed; that much
is told and no more.  A text that follows the format may still ask for a value that does
not exist, and then the cause is told.

## Main definitions

* `Yaml.Fault` — the causes, with their wording.
-/

namespace SemverRange

namespace Yaml

/-- What can go wrong with a YAML text. -/
inductive Fault
  /-- The text does not follow the format. -/
  | malformed
  /-- A numeral is too long. -/
  | ofNumeral (f : Numeral.Fault)
  /-- A text is asked to be an integer to the base, and is none. -/
  | notInteger (base : Nat) (text : List Nat)
  /-- A text is asked to be a number, and is none. -/
  | notNumber (text : List Nat)
  /-- A number is asked for and the text is empty. -/
  | emptyNumber
  /-- A power of sixty is too great for a floating-point number. -/
  | powerTooGreat
  /-- A text is asked to be a truth value, and is none. -/
  | notBool (text : List Nat)
  /-- A text is asked to be a date, and has not the form of one. -/
  | notDate
  /-- A mapping that stands for a text is asked to be a date. -/
  | noDateOfMapping
  /-- The numbers of a date or a time are out of range. -/
  | ofMoment (d : MomentDefect)
  /-- A character is asked for by a number that no character has. -/
  | noCharacter (code : Nat)
  /-- A mapping stands for a text that leads back to the mapping, or collections lie too
  deep in one another. -/
  | endless
  deriving DecidableEq, Repr

/-- A text between quotes, of which not more than 200 characters are shown. -/
def quotedBriefly (text : List Nat) : String := String.ofList ((quoted text).toList.take 200)

/-- The greatest number that can be asked for as a character at all. -/
def codeLimit : Nat := 0x7FFFFFFF

/-- The wording of the fault. -/
def Fault.message : Fault → String
  | malformed => ""
  | ofNumeral f => f.message
  | notInteger base text =>
    "invalid literal for int() with base " ++ toString base ++ ": " ++ quotedBriefly text
  | notNumber text => "could not convert string to float: " ++ quoted text
  | emptyNumber => "string index out of range"
  | powerTooGreat => "int too large to convert to float"
  | notBool text => quoted text
  | notDate => "'NoneType' object has no attribute 'groupdict'"
  | noDateOfMapping => "expected string or bytes-like object, got 'list'"
  | ofMoment d => d.message
  | noCharacter code =>
    if code ≤ codeLimit then "chr() arg not in range(0x110000)"
    else "Python int too large to convert to C int"
  | endless => "maximum recursion depth exceeded"

end Yaml

end SemverRange
