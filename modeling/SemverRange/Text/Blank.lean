/-!
# White space

The characters that separate the parts of a formula.  The class is wider than
ASCII: it holds the control separators U+001C to U+001F, the next-line control,
and the space separators of Unicode, of which the zero-width ones are no members.

## Main definitions

* `isBlank` — the character is white space.
* `strip` — a text without the white space at its two ends.
-/

namespace SemverRange

/-- The character is white space. -/
def isBlank (c : Char) : Bool :=
  let n := c.toNat
  (0x09 ≤ n && n ≤ 0x0D) || (0x1C ≤ n && n ≤ 0x20) || n = 0x85 || n = 0xA0 || n = 0x1680 ||
    (0x2000 ≤ n && n ≤ 0x200A) || n = 0x2028 || n = 0x2029 || n = 0x202F || n = 0x205F ||
    n = 0x3000

/-- The text without the white space at its two ends. -/
def strip (cs : List Char) : List Char :=
  ((cs.dropWhile isBlank).reverse.dropWhile isBlank).reverse

@[simp]
theorem strip_nil : strip [] = [] := rfl

end SemverRange
