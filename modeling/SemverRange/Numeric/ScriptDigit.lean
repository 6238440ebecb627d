import SemverRange.Text.Blank

/-!
# Digits of all scripts

Many scripts have decimal digits of their own, which stand in a row from zero to nine.
Where a number is looked for, they count like those of ASCII.  The table follows version
14 of the Unicode character database.

## Main definitions

* `scriptZeros` — the digits for zero.
* `scriptDigit?` — the number that a code point stands for as a digit.
* `numberChar` — the character that a code point counts as where a number is looked for.
-/

namespace SemverRange

/-- The digits for zero. -/
def scriptZeros : List Nat := [
  0x30, 0x660, 0x6F0, 0x7C0, 0x966, 0x9E6, 0xA66, 0xAE6, 0xB66, 0xBE6, 0xC66, 0xCE6, 0xD66, 0xDE6,
  0xE50, 0xED0, 0xF20, 0x1040, 0x1090, 0x17E0, 0x1810, 0x1946, 0x19D0, 0x1A80, 0x1A90, 0x1B50,
  0x1BB0, 0x1C40, 0x1C50, 0xA620, 0xA8D0, 0xA900, 0xA9D0, 0xA9F0, 0xAA50, 0xABF0, 0xFF10, 0x104A0,
  0x10D30, 0x11066, 0x110F0, 0x11136, 0x111D0, 0x112F0, 0x11450, 0x114D0, 0x11650, 0x116C0, 0x11730,
  0x118E0, 0x11950, 0x11C50, 0x11D50, 0x11DA0, 0x16A60, 0x16AC0, 0x16B50, 0x1D7CE, 0x1D7D8, 0x1D7E2,
  0x1D7EC, 0x1D7F6, 0x1E140, 0x1E2F0, 0x1E950, 0x1FBF0]

/-- The number that a code point stands for as a decimal digit. -/
def scriptDigit? (n : Nat) : Option Nat :=
  (scriptZeros.find? fun z => z ≤ n && n ≤ z + 9).map (n - ·)

/-- The character that a code point counts as where a number is looked for: a digit of any
script counts as that of ASCII, white space as a space, and what else is outside ASCII as
a mark that no number has. -/
def numberChar (n : Nat) : Char :=
  if n < 0x80 then Char.ofNat n
  else if isBlank (Char.ofNat n) then ' '
  else (scriptDigit? n).elim '?' Nat.digitChar

end SemverRange
