import SemverRange.Settings.Yaml.Token

/-!
# Cutting a YAML text into tokens

The structure of a text is told by indentation, by brackets, and by colons: whatever
stands before a colon, on one line, is a key.  So a token that could be a key is
remembered with its place until the colon comes, and then the mark of a key, and of a
mapping if one starts there, is put before it.

## Main definitions

* `Yaml.Cursor` — a place in the text.
* `Yaml.Lexer` — what is known between two tokens.
* `Yaml.Lexer.step` — the next token, with the marks that go with it.
* `Yaml.Scan`, `Yaml.scan` — the tokens of a text, up to the first fault.
-/

namespace SemverRange

namespace Yaml

/-- A place in a text. -/
structure Cursor where
  /-- What follows. -/
  rest : List Char
  /-- The number of characters before it. -/
  index : Nat
  /-- The number of line ends before it. -/
  line : Nat
  /-- The number of characters since the last of them. -/
  column : Nat

/-- The mark that the order of octets in a text is told by; it takes no column. -/
def orderMark : Char := '\uFEFF'

/-- The next character is passed. -/
def Cursor.next (c : Cursor) : Cursor :=
  match c.rest with
  | [] => c
  | ch :: rest =>
    let ends := isBreak ch && !(ch = '\r' && head rest = '\n')
    { rest
      index := c.index + 1
      line := if ends then c.line + 1 else c.line
      column := if ends then 0 else if ch = orderMark then c.column else c.column + 1 }

/-- The next `n` characters are passed. -/
def Cursor.forward (c : Cursor) : Nat → Cursor
  | 0 => c
  | n + 1 => c.next.forward n

/-- All characters are passed until `rest` follows. -/
def Cursor.moveTo (c : Cursor) (rest : List Char) : Cursor :=
  c.forward (c.rest.length - rest.length)

/-- A token that will be a key if a colon comes. -/
structure PossibleKey where
  /-- The depth of brackets it stands at. -/
  level : Nat
  /-- The number of tokens before it. -/
  tokensBefore : Nat
  /-- The colon has to come, since nothing else can start so far left. -/
  required : Bool
  index : Nat
  line : Nat
  column : Nat

/-- What is known between two tokens. -/
structure Lexer where
  cursor : Cursor
  /-- The tokens so far. -/
  tokens : Array Token
  /-- The depth of brackets. -/
  level : Nat
  /-- The column of the innermost block, or -1 outside of all. -/
  indent : Int
  /-- The columns of the blocks around it, the innermost first. -/
  outer : List Int
  /-- A key can start here. -/
  keyAllowed : Bool
  /-- The tokens that could be keys, at most one at each depth. -/
  possibleKeys : List PossibleKey
  /-- The end of the text is reached. -/
  done : Bool

namespace Lexer

/-- The state before the first token. -/
def start (text : List Char) : Lexer :=
  { cursor := ⟨text, 0, 0, 0⟩, tokens := #[], level := 0, indent := -1, outer := [],
    keyAllowed := true, possibleKeys := [], done := false }

/-- The token stands between brackets. -/
def inFlow (l : Lexer) : Bool := l.level ≠ 0

/-- The lexer with a token more. -/
def push (l : Lexer) (t : Token) : Lexer := { l with tokens := l.tokens.push t }

/-- The greatest distance between the start of a key and its colon. -/
def keyLimit : Nat := 1024

/-- A colon here would come too late for the key. -/
def isStale (l : Lexer) (k : PossibleKey) : Bool :=
  k.line ≠ l.cursor.line || keyLimit < l.cursor.index - k.index

/-- Keys for which a colon would come too late are forgotten, if they may be. -/
def dropStale (l : Lexer) : Except Fault Lexer :=
  if l.possibleKeys.any fun k => l.isStale k && k.required then throw .malformed
  else pure { l with possibleKeys := l.possibleKeys.filter (!l.isStale ·) }

/-- The possible key at the present depth is forgotten, if it may be. -/
def forgetKey (l : Lexer) : Except Fault Lexer :=
  if l.possibleKeys.any fun k => k.level = l.level && k.required then throw .malformed
  else pure { l with possibleKeys := l.possibleKeys.filter (·.level ≠ l.level) }

/-- The token that comes next is remembered as a possible key. -/
def rememberKey (l : Lexer) : Except Fault Lexer :=
  if l.keyAllowed then do
    let l ← l.forgetKey
    let k : PossibleKey :=
      { level := l.level, tokensBefore := l.tokens.size
        required := !l.inFlow && l.indent = l.cursor.column
        index := l.cursor.index, line := l.cursor.line, column := l.cursor.column }
    pure { l with possibleKeys := l.possibleKeys ++ [k] }
  else pure l

/-- The blocks that reach further right than `column` end; `n` bounds their number. -/
def endBlocks (column : Int) : Nat → Lexer → Lexer
  | n + 1, l =>
    if column < l.indent then
      endBlocks column n
        { l.push .blockEnd with indent := l.outer.headD (-1), outer := l.outer.drop 1 }
    else l
  | 0, l => l

/-- The blocks that reach further right than `column` end, unless brackets are open. -/
def unwind (l : Lexer) (column : Int) : Lexer :=
  if l.inFlow then l else endBlocks column (l.outer.length + 1) l

/-- A block starts at `column` if it is further right than the present one; its mark is
put before the tokens from number `before` on. -/
def startBlock (l : Lexer) (column before : Nat) (t : Token) : Lexer :=
  if l.indent < column then
    { l with
      tokens := l.tokens.insertIdxIfInBounds before t
      indent := column
      outer := l.indent :: l.outer }
  else l

/-- The cursor passes `n` characters. -/
def forward (l : Lexer) (n : Nat) : Lexer := { l with cursor := l.cursor.forward n }

/-- The cursor passes all characters before `rest`. -/
def moveTo (l : Lexer) (rest : List Char) : Lexer := { l with cursor := l.cursor.moveTo rest }

/-- All blocks end, and so does what could have been a key. -/
def breakOff (l : Lexer) : Except Fault Lexer := do
  let l ← (l.unwind (-1)).forgetKey
  pure { l with keyAllowed := false }

/-- The end of the text. -/
def atEnd (l : Lexer) : Except Fault Lexer := do
  let l ← l.breakOff
  pure { l.push .streamEnd with possibleKeys := [], done := true }

/-- A directive. -/
def atDirective (l : Lexer) : Except Fault Lexer := do
  let l ← l.breakOff
  let (d, rest) ← directive (l.cursor.rest.drop 1)
  pure ((l.moveTo rest).push (.directive d))

/-- A mark between documents. -/
def atDocumentMark (l : Lexer) (t : Token) : Except Fault Lexer := do
  let l ← l.breakOff
  pure ((l.forward 3).push t)

/-- An opening bracket. -/
def atOpening (l : Lexer) (t : Token) : Except Fault Lexer := do
  let l ← l.rememberKey
  pure (({ l with level := l.level + 1, keyAllowed := true }.forward 1).push t)

/-- A closing bracket. -/
def atClosing (l : Lexer) (t : Token) : Except Fault Lexer := do
  let l ← l.forgetKey
  pure (({ l with level := l.level - 1, keyAllowed := false }.forward 1).push t)

/-- A comma between brackets. -/
def atComma (l : Lexer) : Except Fault Lexer := do
  let l ← l.forgetKey
  pure (({ l with keyAllowed := true }.forward 1).push .flowEntry)

/-- A mark that starts a block where none is open so far right; it can stand only where a
key can. -/
def openBlock (l : Lexer) (t : Token) : Except Fault Lexer :=
  if l.inFlow then pure l
  else if l.keyAllowed then pure (l.startBlock l.cursor.column l.tokens.size t)
  else throw .malformed

/-- The dash of an entry. -/
def atEntry (l : Lexer) : Except Fault Lexer := do
  let l ← l.openBlock .blockSequenceStart
  let l ← l.forgetKey
  pure (({ l with keyAllowed := true }.forward 1).push .blockEntry)

/-- The question mark of a key. -/
def atKey (l : Lexer) : Except Fault Lexer := do
  let l ← l.openBlock .blockMappingStart
  let l ← l.forgetKey
  pure (({ l with keyAllowed := !l.inFlow }.forward 1).push .key)

/-- A colon after a possible key, which it makes a key. -/
def atColonOf (l : Lexer) (k : PossibleKey) : Lexer :=
  let l := { l with
    possibleKeys := l.possibleKeys.filter (·.level ≠ l.level)
    tokens := l.tokens.insertIdxIfInBounds k.tokensBefore .key }
  let l := if l.inFlow then l else l.startBlock k.column k.tokensBefore .blockMappingStart
  ({ l with keyAllowed := false }.forward 1).push .value

/-- A colon. -/
def atColon (l : Lexer) : Except Fault Lexer :=
  match l.possibleKeys.find? (·.level = l.level) with
  | some k => pure (l.atColonOf k)
  | none => do
    let l ← l.openBlock .blockMappingStart
    let l ← { l with keyAllowed := !l.inFlow }.forgetKey
    pure ((l.forward 1).push .value)

/-- A token that can be a key, read by `read` from the characters after the next `skip`. -/
def atContent (l : Lexer) (skip : Nat) (read : List Char → Except Fault (Token × List Char)) :
    Except Fault Lexer := do
  let l ← l.rememberKey
  let (t, rest) ← read (l.cursor.rest.drop skip)
  pure (({ l with keyAllowed := false }.moveTo rest).push t)

/-- A block of lines. -/
def atBlockScalar (l : Lexer) (folded : Bool) : Except Fault Lexer := do
  let l ← l.forgetKey
  let least := max 1 (l.indent + 1).toNat
  let (text, rest) ← blockScalar folded least (l.cursor.rest.drop 1)
  pure (({ l with keyAllowed := true }.moveTo rest).push (.scalar (text.map Char.toNat) false))

/-- A scalar without quotes.  If a line ends after it, a key can come next. -/
def atPlain (l : Lexer) : Except Fault Lexer := do
  let l ← l.rememberKey
  let s := plainScalar (l.indent + 1).toNat l.inFlow l.cursor.rest
  let l := { l with keyAllowed := s.broken }.moveTo s.rest
  pure (l.push (.scalar (s.text.map Char.toNat) true))

/-- A scalar without quotes starts here.  Most marks start none, but some do before a
character that is no white space. -/
def startsPlain (l : Lexer) (c : Char) (next : Char) : Bool :=
  let marks := ['-', '?', ':', ',', '[', ']', '\x7b', '\x7d', '#', '&', '*', '!', '|', '>',
    '\'', '"', '%', '@', '\x60']
  !(endsWord c || marks.contains c) ||
    (!endsWord next && (c = '-' || (!l.inFlow && (c = '?' || c = ':'))))

/-- The token that starts with the character `c`. -/
def dispatch (l : Lexer) (c : Char) : Except Fault Lexer :=
  let next := head (l.cursor.rest.drop 1)
  let isMarked := l.inFlow || endsWord next
  let atLineStart := l.cursor.column = 0
  if c = '\x00' then l.atEnd
  else if c = '%' && atLineStart then l.atDirective
  else if c = '-' && atLineStart && atMarker l.cursor.rest then l.atDocumentMark .documentStart
  else if c = '.' && atLineStart && atMarker l.cursor.rest then l.atDocumentMark .documentEnd
  else if c = '[' then l.atOpening .flowSequenceStart
  else if c = '\x7b' then l.atOpening .flowMappingStart
  else if c = ']' then l.atClosing .flowSequenceEnd
  else if c = '\x7d' then l.atClosing .flowMappingEnd
  else if c = ',' then l.atComma
  else if c = '-' && endsWord next then l.atEntry
  else if c = '?' && isMarked then l.atKey
  else if c = ':' && isMarked then l.atColon
  else if c = '*' then l.atContent 1 fun cs => do
    let (name, rest) ← anchorName cs
    pure (.alias name, rest)
  else if c = '&' then l.atContent 1 fun cs => do
    let (name, rest) ← anchorName cs
    pure (.anchor name, rest)
  else if c = '!' then l.atContent 0 fun cs => do
    let (t, rest) ← tagText cs
    pure (.tag t, rest)
  else if c = '|' && !l.inFlow then l.atBlockScalar false
  else if c = '>' && !l.inFlow then l.atBlockScalar true
  else if c = '\'' || c = '"' then l.atContent 1 fun cs => do
    let (text, rest) ← quotedScalar (c = '"') cs
    pure (.scalar text false, rest)
  else if l.startsPlain c next then l.atPlain
  else throw .malformed

/-- The next token, with the marks that go with it. -/
def step (l : Lexer) : Except Fault Lexer := do
  let l := if l.cursor.index = 0 && head l.cursor.rest = orderMark then l.forward 1 else l
  let (rest, broken) := skipToToken l.cursor.rest
  let l := l.moveTo rest
  let l := if broken && !l.inFlow then { l with keyAllowed := true } else l
  let l ← l.dropStale
  let l := l.unwind l.cursor.column
  l.dispatch (head l.cursor.rest)

/-- How many of the tokens are certain: a possible key is not, nor is what follows it. -/
def certain (l : Lexer) : Nat :=
  ((l.possibleKeys.filter (!l.isStale ·)).map PossibleKey.tokensBefore).foldl min l.tokens.size

end Lexer

/-- The tokens of a text up to the first fault, if there is one. -/
structure Scan where
  tokens : List Token
  fault : Option Fault

/-- The tokens from a state on.  Every step but the last passes a character, so `n` steps
are enough for `n - 1` of them. -/
def scanFrom : Nat → Lexer → Scan
  | 0, l => ⟨l.tokens.toList, some .malformed⟩
  | n + 1, l =>
    if l.done then ⟨l.tokens.toList, none⟩
    else
      match l.step with
      | .ok l => scanFrom n l
      | .error f => ⟨l.tokens.toList.take l.certain, some f⟩

/-- The tokens of a text. -/
def scan (text : List Char) : Scan := scanFrom (text.length + 2) (Lexer.start text)

end Yaml

end SemverRange
