import SemverRange.Settings.Yaml.Scalar
import SemverRange.Text.Utf8

/-!
# Tokens of a YAML text

The tokens that a text is made of, and how those with a text of their own are read.  The
start and end of a block, which are told by indentation alone, are tokens as well; the
lexer puts them in.

## Main definitions

* `Yaml.Token` — the tokens.
* `Yaml.anchorName`, `Yaml.tagText`, `Yaml.directive` — the text after the mark of an
  anchor or an alias, of a tag, and of a directive.
-/

namespace SemverRange

namespace Yaml

/-- A tag as it is written: a handle that stands for the start of a longer one, and the
rest. -/
structure TagText where
  handle : Option (List Char)
  rest : List Char
  deriving DecidableEq, Repr

/-- An instruction at the start of a document. -/
inductive Directive
  /-- The version of the format. -/
  | version (major minor : Nat)
  /-- What a handle stands for. -/
  | handle (name start : List Char)
  /-- Anything else, which has no meaning. -/
  | other
  deriving DecidableEq, Repr

/-- A token of a text. -/
inductive Token
  | directive (d : Directive)
  | documentStart
  | documentEnd
  | blockSequenceStart
  | blockMappingStart
  | blockEnd
  | flowSequenceStart
  | flowSequenceEnd
  | flowMappingStart
  | flowMappingEnd
  | flowEntry
  | blockEntry
  | key
  | value
  | alias (name : List Char)
  | anchor (name : List Char)
  | tag (t : TagText)
  | scalar (text : List Nat) (plain : Bool)
  | streamEnd
  deriving DecidableEq, Repr

/-- The name of an anchor, and what follows it: white space or a mark. -/
def anchorName (cs : List Char) : Except Fault (List Char × List Char) :=
  let name := cs.takeWhile isNameChar
  let rest := cs.dropWhile isNameChar
  let next := head rest
  let marks := ['?', ':', ',', ']', '\x7d', '%', '@', '\x60']
  if name.isEmpty || !(endsWord next || marks.contains next) then throw .malformed
  else pure (name, rest)

/-- The character can stand in a tag. -/
def isTagChar (c : Char) : Bool :=
  c.isAlphanum || ['-', ';', '/', '?', ':', '@', '&', '=', '+', '$', ',', '_', '.', '!', '~',
    '*', '\'', '(', ')', '[', ']'].contains c

/-- The octets that a run of percent signs with two digits each stands for. -/
def percentOctets : List Char → Except Fault (List UInt8 × List Char)
  | '%' :: a :: b :: cs =>
    match digit? 16 a, digit? 16 b with
    | some m, some n => do
      let (octets, rest) ← percentOctets cs
      pure (UInt8.ofNat (m * 16 + n) :: octets, rest)
    | _, _ => throw .malformed
  | '%' :: _ => throw .malformed
  | cs => pure ([], cs)

/-- The characters of a tag at the head of a text, with octets in place of those that are
written so. -/
def tagChars (cs : List Char) : Except Fault (List Char × List Char) :=
  match cs with
  | [] => pure ([], [])
  | c :: rest =>
    if c = '%' then do
      let (octets, after) ← percentOctets (c :: rest)
      match Utf8.decode octets with
      | .error _ => throw .malformed
      | .ok decoded =>
        if _h : after.length < (c :: rest).length then
          let (more, last) ← tagChars after
          pure (decoded ++ more, last)
        else throw .malformed
    else if isTagChar c then do
      let (more, last) ← tagChars rest
      pure (c :: more, last)
    else pure ([], c :: rest)
termination_by cs.length
decreasing_by
  · exact _h
  · exact Nat.lt_succ_self _

/-- The characters of a tag, of which there is at least one. -/
def tagChars1 (cs : List Char) : Except Fault (List Char × List Char) := do
  let (found, rest) ← tagChars cs
  if found.isEmpty then throw .malformed else pure (found, rest)

/-- A handle with the marks around its name; a single mark is a handle too. -/
def tagHandle (cs : List Char) : Except Fault (List Char × List Char) :=
  match cs with
  | '!' :: rest =>
    if head rest = ' ' then pure (['!'], rest)
    else
      match rest.dropWhile isNameChar with
      | '!' :: after => pure ('!' :: rest.takeWhile isNameChar ++ ['!'], after)
      | _ => throw .malformed
  | _ => throw .malformed

/-- A tag with what follows it: a whole one between angle brackets, a single mark, or a
handle and the rest.  Without a second mark the handle is the first. -/
def tagText (cs : List Char) : Except Fault (TagText × List Char) := do
  let (found, rest) ←
    match cs.drop 1 with
    | '<' :: after => do
      let (tag, rest) ← tagChars1 after
      match rest with
      | '>' :: rest => pure (TagText.mk none tag, rest)
      | _ => throw .malformed
    | after =>
      if endsWord (head after) then pure (TagText.mk none ['!'], after)
      else do
        let word := after.takeWhile (!endsField ·)
        let (handle, after) ← if word.contains '!' then tagHandle cs else pure (['!'], after)
        let (tag, rest) ← tagChars1 after
        pure (TagText.mk (some handle) tag, rest)
  if endsField (head rest) then pure (found, rest) else throw .malformed

/-- A number of a version. -/
def versionNumber (cs : List Char) : Except Fault (Nat × List Char) :=
  let ds := cs.takeWhile Char.isDigit
  if ds.isEmpty then throw .malformed
  else do
    let n ← (Numeral.read ds).mapError .ofNumeral
    pure (n, cs.dropWhile Char.isDigit)

/-- The version that a directive names. -/
def versionDirective (cs : List Char) : Except Fault (Directive × List Char) := do
  let (major, rest) ← versionNumber (cs.dropWhile (· = ' '))
  if head rest ≠ '.' then throw .malformed
  let (minor, rest) ← versionNumber (rest.drop 1)
  if endsField (head rest) then pure (.version major minor, rest) else throw .malformed

/-- What a directive says a handle stands for. -/
def handleDirective (cs : List Char) : Except Fault (Directive × List Char) := do
  let (name, rest) ← tagHandle (cs.dropWhile (· = ' '))
  if head rest ≠ ' ' then throw .malformed
  let (start, rest) ← tagChars1 (rest.dropWhile (· = ' '))
  if endsField (head rest) then pure (.handle name start, rest) else throw .malformed

/-- A directive, after its mark, with the rest of its line. -/
def directive (cs : List Char) : Except Fault (Directive × List Char) := do
  let name := cs.takeWhile isNameChar
  let after := cs.dropWhile isNameChar
  if name.isEmpty || !endsField (head after) then throw .malformed
  let (d, rest) ←
    if name = ['Y', 'A', 'M', 'L'] then versionDirective after
    else if name = ['T', 'A', 'G'] then handleDirective after
    else pure (.other, after.dropWhile (!endsLine ·))
  let rest ← ignoredLine rest
  pure (d, rest)

end Yaml

end SemverRange
