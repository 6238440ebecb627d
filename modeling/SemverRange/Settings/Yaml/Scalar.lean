import SemverRange.Numeric.Digit
import SemverRange.Settings.Yaml.Character
import SemverRange.Settings.Yaml.Fault

/-!
# Scalars of a YAML text

A scalar is a text within the text, in one of five styles: plain, between single or
double quotes, and as a block of lines that are kept or folded.  In all but the kept
style a single line end stands for a space, and of several in a row the first does not
count.

Each function takes the text from where the scalar stands and gives the text of the
scalar with what follows it.

## Main definitions

* `Yaml.plainScalar` — a scalar without quotes.
* `Yaml.quotedScalar` — a scalar between quotes, after the first of them.
* `Yaml.blockScalar` — a block of lines, after the mark that announces it.
-/

namespace SemverRange

namespace Yaml

/-- What a line end and the empty lines after it stand for. -/
def foldBreaks (first : Char) (more : List Char) : List Char :=
  (if first ≠ '\n' then [first] else if more.isEmpty then [' '] else []) ++ more

/-! ### Plain scalars -/

/-- The character has a meaning of its own between brackets. -/
def isFlowMark (c : Char) : Bool :=
  c = ',' || c = '[' || c = ']' || c = '\x7b' || c = '\x7d'

/-- The longest run of a plain scalar without white space.  A colon ends it before white
space, and between brackets also before a mark. -/
def plainRun (inFlow : Bool) : List Char → List Char
  | [] => []
  | c :: cs =>
    if endsWord c || (c = ':' && (endsWord (head cs) || (inFlow && isFlowMark (head cs)))) ||
        (inFlow && (isFlowMark c || c = '?')) then []
    else c :: plainRun inFlow cs

/-- White space within or after a plain scalar. -/
structure PlainGap where
  /-- What it stands for if the scalar goes on. -/
  text : List Char
  /-- What follows it. -/
  rest : List Char
  /-- A line ended in it. -/
  broken : Bool
  /-- The spaces at its end, if a line ended in it. -/
  column : Nat

/-- The line ends before the next text, with what follows them, and the number of spaces
before that; or nothing but what follows, if a mark between documents follows a line
end. -/
def plainBreaks (cs : List Char) : Option (List Char × Nat) × List Char :=
  let spaces := cs.takeWhile (· = ' ')
  match _h : takeBreak (cs.dropWhile (· = ' ')) with
  | none => (some ([], spaces.length), cs.dropWhile (· = ' '))
  | some (c, rest) =>
    if atMarker rest then (none, rest)
    else
      let (found, rest) := plainBreaks rest
      (found.map fun (breaks, column) => (c :: breaks, column), rest)
termination_by cs.length
decreasing_by
  have h1 := length_takeBreak _h
  have h2 := (List.dropWhile_suffix (l := cs) (· = ' ')).length_le
  omega

/-- White space after a run of a plain scalar. -/
def plainGap (cs : List Char) : PlainGap :=
  let spaces := cs.takeWhile (· = ' ')
  let after := cs.dropWhile (· = ' ')
  match takeBreak after with
  | none => ⟨spaces, after, false, 0⟩
  | some (first, rest) =>
    if atMarker rest then ⟨[], rest, true, 0⟩
    else
      match plainBreaks rest with
      | (some (more, column), rest) => ⟨foldBreaks first more, rest, true, column⟩
      | (none, rest) => ⟨[], rest, true, 0⟩

/-- A scalar without quotes. -/
structure PlainScalar where
  text : List Char
  rest : List Char
  /-- A line ended after it. -/
  broken : Bool

/-- A scalar without quotes.  A line with fewer than `indent` spaces at its head does not
belong to it, unless it stands between brackets; neither does a comment. -/
def plainScalar (indent : Nat) (inFlow : Bool) (cs : List Char) : PlainScalar :=
  let run := plainRun inFlow cs
  let gap := plainGap (cs.drop run.length)
  let ends := gap.text.isEmpty || head gap.rest = '#' ||
    (!inFlow && gap.broken && gap.column < indent) || (plainRun inFlow gap.rest).isEmpty
  if ends then ⟨run, gap.rest, gap.broken⟩
  else if _h : gap.rest.length < cs.length then
    let more := plainScalar indent inFlow gap.rest
    ⟨run ++ gap.text ++ more.text, more.rest, more.broken⟩
  else ⟨run, gap.rest, gap.broken⟩
termination_by cs.length

/-! ### Scalars between quotes -/

/-- Empty lines within a scalar between quotes, with the white space before the next
text. -/
def flowBreaks (cs : List Char) : Except Fault (List Char × List Char) :=
  if atMarker cs then throw .malformed
  else
    match _h : takeBreak (cs.dropWhile isGap) with
    | none => pure ([], cs.dropWhile isGap)
    | some (c, rest) => do
      let (breaks, rest) ← flowBreaks rest
      pure (c :: breaks, rest)
termination_by cs.length
decreasing_by
  have h1 := length_takeBreak _h
  have h2 := (List.dropWhile_suffix (l := cs) isGap).length_le
  omega

/-- White space within a scalar between quotes. -/
def flowGap (cs : List Char) : Except Fault (List Char × List Char) :=
  let after := cs.dropWhile isGap
  match takeBreak after with
  | none => if after.isEmpty then throw .malformed else pure (cs.takeWhile isGap, after)
  | some (first, rest) => do
    let (more, rest) ← flowBreaks rest
    pure (foldBreaks first more, rest)

/-- The character that a letter after a backslash stands for. -/
def escaped? (c : Char) : Option Char :=
  let table := [('0', '\x00'), ('a', '\x07'), ('b', '\x08'), ('t', '\t'), ('\t', '\t'),
    ('n', '\n'), ('v', '\x0b'), ('f', '\x0c'), ('r', '\r'), ('e', '\x1b'), (' ', ' '),
    ('"', '"'), ('\\', '\\'), ('/', '/'), ('N', '\x85'), ('_', '\xa0'), ('L', '\u2028'),
    ('P', '\u2029')]
  table.lookup c

/-- The number of digits after a letter that announces the number of a character. -/
def escapeWidth? (c : Char) : Option Nat :=
  [('x', 2), ('u', 4), ('U', 8)].lookup c

/-- The number that exactly `width` hexadecimal digits at the head of a text stand for. -/
def hexNumber? (width : Nat) (cs : List Char) : Option Nat :=
  if cs.length < width then none
  else ofDigits? 16 (cs.take width)

/-- What follows a backslash: the code points it stands for, and the text after it. -/
def escape (cs : List Char) : Except Fault (List Nat × List Char) :=
  match takeBreak cs with
  | some (_, rest) => do
    let (breaks, rest) ← flowBreaks rest
    pure (breaks.map Char.toNat, rest)
  | none =>
    match cs with
    | [] => throw .malformed
    | c :: rest =>
      match escaped? c, escapeWidth? c with
      | some d, _ => pure ([d.toNat], rest)
      | none, some width =>
        match hexNumber? width rest with
        | none => throw .malformed
        | some code =>
          if code < 0x110000 then pure ([code], rest.drop width) else throw (.noCharacter code)
      | none, none => throw .malformed

/-- A scalar between quotes, after the first of them.  Between single quotes a quote is
written twice; between double quotes a backslash starts an escape. -/
def quotedScalar (double : Bool) (cs : List Char) : Except Fault (List Nat × List Char) :=
  match cs with
  | [] => throw .malformed
  | c :: rest =>
    if c = (if double then '"' else '\'') then
      if !double && head rest = '\'' then do
        let (points, after) ← quotedScalar double (rest.drop 1)
        pure (c.toNat :: points, after)
      else pure ([], rest)
    else if double && c = '\\' then do
      let (points, after) ← escape rest
      if _h : after.length < (c :: rest).length then
        let (more, last) ← quotedScalar double after
        pure (points ++ more, last)
      else throw .malformed
    else if endsWord c then do
      let (gap, after) ← flowGap (c :: rest)
      if _h : after.length < (c :: rest).length then
        let (more, last) ← quotedScalar double after
        pure (gap.map Char.toNat ++ more, last)
      else throw .malformed
    else do
      let (points, after) ← quotedScalar double rest
      pure (c.toNat :: points, after)
termination_by cs.length
decreasing_by
  · simp only [List.length_drop, List.length_cons]
    omega
  · exact _h
  · exact _h
  · exact Nat.lt_succ_self _

/-! ### Blocks of lines -/

/-- What happens to the line ends after the last line of a block. -/
inductive Chomping
  /-- All are dropped. -/
  | strip
  /-- The first is kept. -/
  | clip
  /-- All are kept. -/
  | keep
  deriving DecidableEq, Repr

/-- The head of a block. -/
structure BlockHeader where
  chomping : Chomping
  /-- The indentation relative to the surroundings, if it is given. -/
  increment : Option Nat

/-- The sign for a way of chomping. -/
def chomping? : Char → Option Chomping
  | '+' => some .keep
  | '-' => some .strip
  | _ => none

/-- The digit that gives the indentation, which is not zero. -/
def increment? (c : Char) : Except Fault (Option Nat) :=
  if c = '0' then throw .malformed
  else if c.isDigit then pure (some (c.toNat - '0'.toNat))
  else pure none

/-- The signs after the mark of a block, in either order. -/
def blockSigns (cs : List Char) : Except Fault (BlockHeader × List Char) :=
  match chomping? (head cs) with
  | some chomping => do
    let increment ← increment? (head (cs.drop 1))
    pure (⟨chomping, increment⟩, cs.drop (if increment.isSome then 2 else 1))
  | none => do
    let increment ← increment? (head cs)
    if increment.isNone then pure (⟨.clip, none⟩, cs)
    else
      match chomping? (head (cs.drop 1)) with
      | some chomping => pure (⟨chomping, increment⟩, cs.drop 2)
      | none => pure (⟨.clip, increment⟩, cs.drop 1)

/-- The rest of a line, which holds nothing but a comment, and the line end. -/
def ignoredLine (cs : List Char) : Except Fault (List Char) :=
  let after := cs.dropWhile (· = ' ')
  let rest := if head after = '#' then after.dropWhile (!endsLine ·) else after
  if endsLine (head rest) then pure ((takeBreak rest).elim rest Prod.snd)
  else throw .malformed

/-- Empty lines before a line of a block, with the number of spaces at the head of that
line, but not more than `indent`. -/
def blockBreaks (indent : Nat) (cs : List Char) : List Char × Nat × List Char :=
  let spaces := min indent (cs.takeWhile (· = ' ')).length
  match _h : takeBreak (cs.drop spaces) with
  | none => ([], spaces, cs.drop spaces)
  | some (c, rest) =>
    let (breaks, column, rest) := blockBreaks indent rest
    (c :: breaks, column, rest)
termination_by cs.length
decreasing_by
  have h1 := length_takeBreak _h
  rw [List.length_drop] at h1
  omega

/-- Empty lines before the first line of a block, with the greatest number of spaces in
one of them or at the head of that line, and the number of the latter. -/
def blockIndentation (cs : List Char) : List Char × Nat × Nat × List Char :=
  let spaces := (cs.takeWhile (· = ' ')).length
  match _h : takeBreak (cs.dropWhile (· = ' ')) with
  | none => ([], spaces, spaces, cs.dropWhile (· = ' '))
  | some (c, rest) =>
    let (breaks, greatest, column, rest) := blockIndentation rest
    (c :: breaks, max spaces greatest, column, rest)
termination_by cs.length
decreasing_by
  have h1 := length_takeBreak _h
  have h2 := (List.dropWhile_suffix (l := cs) (· = ' ')).length_le
  omega

/-- The lines of a block, the line end of the last, and the empty lines after it.  The
text starts `column` spaces into a line, after the empty lines `breaks`; `last` is the
line end before those.  A folded line end between two lines that start with no white
space stands for a space. -/
def blockLines (folded : Bool) (indent : Nat) (breaks : List Char) (column : Nat)
    (cs : List Char) : List Char × List Char × List Char × List Char :=
  if column ≠ indent || cs.isEmpty then ([], [], breaks, cs)
  else
    let line := cs.takeWhile (!endsLine ·)
    let after := cs.dropWhile (!endsLine ·)
    match _h : takeBreak after with
    | none => (breaks ++ line, [], [], after)
    | some (c, rest) =>
      let (breaks', column', rest') := blockBreaks indent rest
      if column' ≠ indent || rest'.isEmpty then (breaks ++ line, [c], breaks', rest')
      else if _hlt : rest'.length < cs.length then
        let isFolded := folded && c = '\n' && !isGap (head cs) && !isGap (head rest')
        let joint := if isFolded then (if breaks'.isEmpty then [' '] else []) else [c]
        let (text, last, trailing, final) := blockLines folded indent breaks' column' rest'
        (breaks ++ line ++ joint ++ text, last, trailing, final)
      else (breaks ++ line, [c], breaks', rest')
termination_by cs.length

/-- A block of lines, after the mark that announces it; `indent` is the least number of
spaces that its lines can start with. -/
def blockScalar (folded : Bool) (indent : Nat) (cs : List Char) :
    Except Fault (List Char × List Char) := do
  let (header, cs) ← blockSigns cs
  if !endsField (head cs) then throw .malformed
  let cs ← ignoredLine cs
  let (breaks, indent, column, cs) :=
    match header.increment with
    | none =>
      let (breaks, greatest, column, rest) := blockIndentation cs
      (breaks, max indent greatest, column, rest)
    | some n =>
      let (breaks, column, rest) := blockBreaks (indent + n - 1) cs
      (breaks, indent + n - 1, column, rest)
  let (text, last, trailing, rest) := blockLines folded indent breaks column cs
  let ending :=
    match header.chomping with
    | .strip => []
    | .clip => last
    | .keep => last ++ trailing
  pure (text ++ ending, rest)

end Yaml

end SemverRange
