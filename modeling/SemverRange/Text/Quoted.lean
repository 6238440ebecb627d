import SemverRange.Numeric.Digit
import SemverRange.Text.Points
import SemverRange.Text.Printable

/-!
# Quoted text

Messages show a piece of text between quotes, so that its ends and its odd
characters can be seen.

## Main definitions

* `quoteFor` — the quote to use: the apostrophe, unless the text holds one and
  holds no double quote.
* `escapePoint` — one code point as it stands between the quotes.
* `quoted` — a text of code points between quotes; `quotedChars` for characters.
-/

namespace SemverRange

/-- The quote around a text: the apostrophe, unless that would have to be
escaped and the double quote would not. -/
def quoteFor (points : List Nat) : Char :=
  if points.contains '\''.toNat && !points.contains '"'.toNat then '"' else '\''

/-- A code point as it stands between two marks `quote`.  What has no visible
form is written by its number, in the shortest of the three widths. -/
def escapePoint (quote : Char) (n : Nat) : List Char :=
  if n = '\\'.toNat then ['\\', '\\']
  else if n = quote.toNat then ['\\', quote]
  else if n = '\t'.toNat then ['\\', 't']
  else if n = '\n'.toNat then ['\\', 'n']
  else if n = '\r'.toNat then ['\\', 'r']
  else if isPrintable n then [Char.ofNat n]
  else if n ≤ 0xFF then '\\' :: 'x' :: padded 16 2 n
  else if n ≤ 0xFFFF then '\\' :: 'u' :: padded 16 4 n
  else '\\' :: 'U' :: padded 16 8 n

/-- A text of code points between quotes. -/
def quoted (points : List Nat) : String :=
  let quote := quoteFor points
  String.ofList (quote :: points.flatMap (escapePoint quote) ++ [quote])

/-- A text of characters between quotes. -/
def quotedChars (cs : List Char) : String :=
  quoted (pointsOf cs)

end SemverRange
