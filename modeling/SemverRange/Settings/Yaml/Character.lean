/-!
# Characters of a YAML text

Line ends, the ends of words and lines, and the marks that stand between documents.
The end of a text counts as the NUL character, which no text may contain.

## Main definitions

* `Yaml.isAllowed` — the character can stand in a text.
* `Yaml.head` — the first character, or NUL.
* `Yaml.endsWord`, `Yaml.endsField`, `Yaml.endsLine` — the character ends a word, a word
  that may contain tabs, or a line.
* `Yaml.takeBreak` — a line end with the text after it.
* `Yaml.atMarker` — a mark between documents stands here.
-/

namespace SemverRange

namespace Yaml

/-- The character can stand in a text. -/
def isAllowed (c : Char) : Bool :=
  let n := c.toNat
  n = 0x09 || n = 0x0A || n = 0x0D || (0x20 ≤ n && n ≤ 0x7E) || n = 0x85 ||
    (0xA0 ≤ n && n ≤ 0xFFFD) || 0x10000 ≤ n

/-- The first character of a text, or NUL at its end. -/
def head (cs : List Char) : Char := cs.headD '\x00'

/-- The character ends a line. -/
def isBreak (c : Char) : Bool :=
  c = '\r' || c = '\n' || c = '\x85' || c = '\u2028' || c = '\u2029'

/-- The character ends a line, or is the end of the text. -/
def endsLine (c : Char) : Bool := c = '\x00' || isBreak c

/-- The character is a space, or ends a line. -/
def endsField (c : Char) : Bool := c = ' ' || endsLine c

/-- The character is a space or a tab, or ends a line. -/
def endsWord (c : Char) : Bool := c = '\t' || endsField c

/-- The character is a space or a tab. -/
def isGap (c : Char) : Bool := c = ' ' || c = '\t'

/-- The character can stand in a name. -/
def isNameChar (c : Char) : Bool := c.isAlphanum || c = '-' || c = '_'

/-- A line end as it counts in a text, with what follows it.  All but the two separators
of Unicode count as a line feed. -/
def takeBreak : List Char → Option (Char × List Char)
  | '\r' :: '\n' :: cs => some ('\n', cs)
  | c :: cs =>
    if c = '\r' || c = '\n' || c = '\x85' then some ('\n', cs)
    else if c = '\u2028' || c = '\u2029' then some (c, cs)
    else none
  | [] => none

/-- What follows a line end is shorter. -/
theorem length_takeBreak {cs rest : List Char} {c : Char} (h : takeBreak cs = some (c, rest)) :
    rest.length < cs.length := by
  unfold takeBreak at h
  split at h
  · cases h
    simp only [List.length_cons]
    omega
  · split at h
    · cases h
      exact Nat.lt_succ_self _
    · split at h
      · cases h
        exact Nat.lt_succ_self _
      · cases h
  · cases h

/-- Three equal marks and the end of a word: the start or the end of a document. -/
def atMarker : List Char → Bool
  | '-' :: '-' :: '-' :: cs => endsWord (head cs)
  | '.' :: '.' :: '.' :: cs => endsWord (head cs)
  | _ => false

/-- The text without the spaces at its head, the comment after them, and so on with the
lines after it; and whether a line ended before what is left. -/
def skipToToken (cs : List Char) : List Char × Bool :=
  let cs' := cs.dropWhile (· = ' ')
  let rest := if head cs' = '#' then cs'.dropWhile (!endsLine ·) else cs'
  match _h : takeBreak rest with
  | some (_, after) => ((skipToToken after).1, true)
  | none => (rest, false)
termination_by cs.length
decreasing_by
  have h1 := length_takeBreak _h
  have h2 := (List.dropWhile_suffix (l := cs) (· = ' ')).length_le
  have h3 := (List.dropWhile_suffix (l := cs.dropWhile (· = ' ')) (!endsLine ·)).length_le
  simp only [rest, cs'] at h1
  split at h1 <;> omega

end Yaml

end SemverRange
