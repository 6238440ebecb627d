/-!
# Lines and columns

A place in a text can be told by its line and its column, both counted from one.
Only the line feed ends a line here; a text that comes from a file has had its
other line ends turned into line feeds before.

## Main definitions

* `lineAt`, `columnAt` — the line and the column of a place.
* `unifyLineEnds` — every carriage return, with or without a line feed after it,
  turned into a line feed.
-/

namespace SemverRange

/-- The line in which the character after the first `pos` ones stands. -/
def lineAt (cs : List Char) (pos : Nat) : Nat := (cs.take pos).count '\n' + 1

/-- The column in which the character after the first `pos` ones stands. -/
def columnAt (cs : List Char) (pos : Nat) : Nat :=
  ((cs.take pos).reverse.takeWhile (· ≠ '\n')).length + 1

/-- The text with every line end turned into a line feed. -/
def unifyLineEnds : List Char → List Char
  | '\r' :: '\n' :: cs => '\n' :: unifyLineEnds cs
  | '\r' :: cs => '\n' :: unifyLineEnds cs
  | c :: cs => c :: unifyLineEnds cs
  | [] => []

end SemverRange
