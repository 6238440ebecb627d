/-!
# Texts as code points

A settings document can spell halves of surrogate pairs, which are no characters.  So
its texts are lists of code points.

## Main definitions

* `pointsOf` — the code points of a run of characters.
* `charsOf` — the characters of a text; what is no character becomes NUL.

## Main results

* `charsOf_pointsOf` — characters are not changed on the way there and back.
-/

namespace SemverRange

/-- The code points of a run of characters. -/
def pointsOf (cs : List Char) : List Nat := cs.map Char.toNat

/-- The characters of a text.  A half of a surrogate pair becomes NUL, which has no part
in any number, word or name. -/
def charsOf (points : List Nat) : List Char := points.map Char.ofNat

/-- Characters are not changed on the way there and back. -/
@[simp]
theorem charsOf_pointsOf (cs : List Char) : charsOf (pointsOf cs) = cs := by
  simp [charsOf, pointsOf, Function.comp_def]

/-- Every character is one code point. -/
@[simp]
theorem length_pointsOf (cs : List Char) : (pointsOf cs).length = cs.length := by
  simp [pointsOf]

end SemverRange
