import SemverRange.Settings.Yaml.Lexer
import SemverRange.Settings.Yaml.Tag

/-!
# Nodes of a YAML text

The values that a text describes form a graph: a node can be named by an anchor, and an
alias stands for the node of that name.  Nodes are numbered in the order in which they
start, and collections hold the numbers of their parts.  Collections lie in one another
only so deep.

## Main definitions

* `Yaml.Node`, `Yaml.Graph` — the nodes by number.
* `Yaml.Reader` — the tokens that are left, and the nodes so far.
* `Yaml.readNode` — a node, with all its parts.
* `Yaml.readDocument` — the graph of a text with one document.
-/

namespace SemverRange

namespace Yaml

/-- A node, with the numbers of its parts. -/
inductive Node
  | scalar (tag : Tag) (text : List Nat)
  | sequence (tag : Tag) (items : List Nat)
  | mapping (tag : Tag) (entries : List (Nat × Nat))
  deriving DecidableEq, Repr

/-- The nodes by number. -/
abbrev Graph := Array Node

/-- The state of reading. -/
structure Reader where
  /-- The tokens that are left. -/
  tokens : List Token
  /-- What is wrong with the text after them. -/
  fault : Option Fault
  /-- The nodes so far. -/
  graph : Graph
  /-- The nodes that have names. -/
  anchors : List (List Char × Nat)
  /-- What the handles of tags stand for. -/
  handles : List (List Char × List Char)
  /-- How many collections have started and not ended. -/
  depth : Nat

/-- How many collections can lie in one another. -/
def depthLimit : Nat := 490

/-- Reading changes the state, or fails. -/
abbrev Read := StateT Reader (Except Fault)

/-- The text is malformed. -/
def refuse {α : Type} : Read α := throw .malformed

/-- The next token. -/
def peek : Read Token := do
  let r ← get
  match r.tokens with
  | t :: _ => pure t
  | [] => throw (r.fault.getD .malformed)

/-- The next token is passed. -/
def pass : Read Unit := modify fun r => { r with tokens := r.tokens.drop 1 }

/-- The next token is passed if it is `t`. -/
def passIf (t : Token) : Read Bool := do
  if (← peek) = t then
    pass
    pure true
  else pure false

/-- A new node. -/
def addNode (n : Node) : Read Nat :=
  modifyGet fun r => (r.graph.size, { r with graph := r.graph.push n })

/-- The node with the number gets its parts. -/
def setNode (i : Nat) (n : Node) : Read Unit :=
  modify fun r => { r with graph := r.graph.setIfInBounds i n }

/-- The empty scalar that stands where a value is left out. -/
def addEmpty : Read Nat := addNode (.scalar .null [])

/-- The anchor and the tag before a node. -/
structure Properties where
  anchor : Option (List Char)
  tag : Option TagText

/-- The anchor and the tag before a node, in either order. -/
def readProperties : Read Properties := do
  match ← peek with
  | .anchor name =>
    pass
    match ← peek with
    | .tag t =>
      pass
      pure ⟨some name, some t⟩
    | _ => pure ⟨some name, none⟩
  | .tag t =>
    pass
    match ← peek with
    | .anchor name =>
      pass
      pure ⟨some name, some t⟩
    | _ => pure ⟨none, some t⟩
  | _ => pure ⟨none, none⟩

/-- The full name of a tag; the single mark, which asks for the usual kind, is none. -/
def resolveTag (t : TagText) : Read (Option Tag) := do
  let name ←
    match t.handle with
    | none => pure t.rest
    | some handle =>
      match (← get).handles.lookup handle with
      | some start => pure (start ++ t.rest)
      | none => refuse
  pure (if name = ['!'] then none else some (.ofName name))

/-- The name of the node is noted.  A name can be given once only. -/
def nameNode (anchor : Option (List Char)) (i : Nat) : Read Unit :=
  match anchor with
  | none => pure ()
  | some name => modify fun r => { r with anchors := (name, i) :: r.anchors }

/-- A name that is given already is refused. -/
def checkAnchor (anchor : Option (List Char)) : Read Unit := do
  match anchor with
  | none => pure ()
  | some name => if ((← get).anchors.lookup name).isSome then refuse

/-- What is read within a collection, unless that lies too deep. -/
def within {α : Type} (read : Read α) : Read α := do
  if depthLimit ≤ (← get).depth then throw .endless
  modify fun r => { r with depth := r.depth + 1 }
  let a ← read
  modify fun r => { r with depth := r.depth - 1 }
  pure a

/-- A collection starts, gets its name, and then its parts, which may refer to it. -/
def readCollection {α : Type} (anchor : Option (List Char)) (make : List α → Node)
    (parts : Read (List α)) : Read Nat := do
  let i ← addNode (make [])
  nameNode anchor i
  setNode i (make (← within parts))
  pure i

/-- The node that an alias stands for. -/
def readAlias (name : List Char) : Read Nat := do
  match (← get).anchors.lookup name with
  | some i => pure i
  | none => refuse

/-- A scalar.  Its form counts only if it has no quotes and no tag, or the single mark for
a tag. -/
def readScalar (p : Properties) (tag : Option Tag) (text : List Nat) (plain : Bool) :
    Read Nat := do
  let byForm := (plain && p.tag.isNone) || (p.tag.isSome && tag.isNone)
  let i ← addNode (.scalar (tag.getD (if byForm then .ofPlain (charsOf text) else .text)) text)
  nameNode p.anchor i
  pure i

/-- Where a node stands, which decides how it can go on. -/
inductive Position
  /-- Between brackets. -/
  | flow
  /-- In a block. -/
  | block
  /-- In a mapping block, where a list need not be indented. -/
  | blockEntry
  deriving DecidableEq, Repr

/-- A comma, which comes before every part between brackets but the first. -/
def readComma (first : Bool) : Read Unit := do
  if first then pure ()
  else if ← passIf .flowEntry then pure ()
  else refuse

mutual

/-- A node with all its parts.  No part starts without a token of its own, so the number
of tokens bounds how deep the calls go; `fuel` counts them down. -/
def readNode (fuel : Nat) (position : Position) : Read Nat :=
  match fuel with
  | 0 => refuse
  | fuel + 1 => do
    match ← peek with
    | .alias name =>
      pass
      readAlias name
    | _ =>
      let p ← readProperties
      let tag ← p.tag.elim (pure none) resolveTag
      let next ← peek
      if position = .blockEntry && next = .blockEntry then
        checkAnchor p.anchor
        readCollection p.anchor (.sequence (tag.getD .sequence)) (readLooseItems fuel)
      else
        match next with
        | .scalar text plain =>
          pass
          checkAnchor p.anchor
          readScalar p tag text plain
        | .flowSequenceStart =>
          checkAnchor p.anchor
          pass
          readCollection p.anchor (.sequence (tag.getD .sequence)) (readFlowItems fuel true)
        | .flowMappingStart =>
          checkAnchor p.anchor
          pass
          readCollection p.anchor (.mapping (tag.getD .mapping)) (readFlowEntries fuel true)
        | .blockSequenceStart =>
          if position = .flow then readBare p tag
          else
            checkAnchor p.anchor
            pass
            readCollection p.anchor (.sequence (tag.getD .sequence)) (readItems fuel)
        | .blockMappingStart =>
          if position = .flow then readBare p tag
          else
            checkAnchor p.anchor
            pass
            readCollection p.anchor (.mapping (tag.getD .mapping)) (readEntries fuel)
        | _ => readBare p tag

/-- A node of which nothing but an anchor or a tag is there. -/
def readBare (p : Properties) (tag : Option Tag) : Read Nat := do
  if p.anchor.isNone && p.tag.isNone then refuse
  checkAnchor p.anchor
  readScalar p tag [] p.tag.isNone

/-- A node, or an empty one if one of the tokens `ends` comes first. -/
def readUnless (fuel : Nat) (ends : List Token) (position : Position) : Read Nat :=
  match fuel with
  | 0 => refuse
  | fuel + 1 => do
    if ends.contains (← peek) then addEmpty else readNode fuel position

/-- The entries of a list in a block, up to its end. -/
def readItems (fuel : Nat) : Read (List Nat) :=
  match fuel with
  | 0 => refuse
  | fuel + 1 => do
    if ← passIf .blockEntry then
      let i ← readUnless fuel [.blockEntry, .blockEnd] .block
      let is ← readItems fuel
      pure (i :: is)
    else if ← passIf .blockEnd then pure []
    else refuse

/-- The entries of a list that is not indented, as long as there are any. -/
def readLooseItems (fuel : Nat) : Read (List Nat) :=
  match fuel with
  | 0 => refuse
  | fuel + 1 => do
    if ← passIf .blockEntry then
      let i ← readUnless fuel [.blockEntry, .key, .value, .blockEnd] .block
      let is ← readLooseItems fuel
      pure (i :: is)
    else pure []

/-- The value after a key, or an empty one. -/
def readValue (fuel : Nat) (ends : List Token) (position : Position) : Read Nat :=
  match fuel with
  | 0 => refuse
  | fuel + 1 => do
    if ← passIf .value then readUnless fuel ends position else addEmpty

/-- The entries of a mapping in a block, up to its end. -/
def readEntries (fuel : Nat) : Read (List (Nat × Nat)) :=
  match fuel with
  | 0 => refuse
  | fuel + 1 => do
    let ends := [Token.key, .value, .blockEnd]
    if ← passIf .key then
      let k ← readUnless fuel ends .blockEntry
      let v ← readValue fuel ends .blockEntry
      let es ← readEntries fuel
      pure ((k, v) :: es)
    else if ← passIf .blockEnd then pure []
    else refuse

/-- The parts of a list between brackets, up to its end.  A part with a colon is a mapping
with a single entry. -/
def readFlowItems (fuel : Nat) (first : Bool) : Read (List Nat) :=
  match fuel with
  | 0 => refuse
  | fuel + 1 => do
    if ← passIf .flowSequenceEnd then pure []
    else
      readComma first
      if ← passIf .flowSequenceEnd then pure []
      else
        let i ←
          if (← peek) = .key then readCollection none (.mapping .mapping) (readSingleEntry fuel)
          else readNode fuel .flow
        let is ← readFlowItems fuel false
        pure (i :: is)

/-- The single entry of a mapping within a list between brackets. -/
def readSingleEntry (fuel : Nat) : Read (List (Nat × Nat)) :=
  match fuel with
  | 0 => refuse
  | fuel + 1 => do
    pass
    let k ← readUnless fuel [.value, .flowEntry, .flowSequenceEnd] .flow
    let v ← readValue fuel [.flowEntry, .flowSequenceEnd] .flow
    pure [(k, v)]

/-- The entries of a mapping between brackets, up to its end.  A key can stand without a
value. -/
def readFlowEntries (fuel : Nat) (first : Bool) : Read (List (Nat × Nat)) :=
  match fuel with
  | 0 => refuse
  | fuel + 1 => do
    if ← passIf .flowMappingEnd then pure []
    else
      readComma first
      if ← passIf .flowMappingEnd then pure []
      else
        let isKey ← passIf .key
        let k ←
          if isKey then readUnless fuel [.value, .flowEntry, .flowMappingEnd] .flow
          else readNode fuel .flow
        let v ← if isKey then readValue fuel [.flowEntry, .flowMappingEnd] .flow else addEmpty
        let es ← readFlowEntries fuel false
        pure ((k, v) :: es)

end

/-- The handles that need no directive. -/
def usualHandles : List (List Char × List Char) :=
  [(['!'], ['!']), (['!', '!'], tagStart.toList)]

/-- The version of the format that the directives name, and the handles they explain. -/
structure Directives where
  versionGiven : Bool
  handles : List (List Char × List Char)

/-- One more directive.  A second version, a version other than the first of the format,
and a handle that is explained twice are refused. -/
def Directives.add (ds : Directives) : Directive → Read Directives
  | .version major _ =>
    if ds.versionGiven || major ≠ 1 then refuse else pure { ds with versionGiven := true }
  | .handle name start =>
    if (ds.handles.lookup name).isSome then refuse
    else pure { ds with handles := (name, start) :: ds.handles }
  | .other => pure ds

/-- The directives before a document; `n` bounds their number. -/
def readDirectives : Nat → Directives → Read Directives
  | 0, _ => refuse
  | n + 1, ds => do
    match ← peek with
    | .directive d =>
      pass
      let ds ← ds.add d
      readDirectives n ds
    | _ => pure ds

/-- Marks for the ends of documents are passed; `n` bounds their number. -/
def skipDocumentEnds : Nat → Read Unit
  | 0 => refuse
  | n + 1 => do if ← passIf .documentEnd then skipDocumentEnds n else pure ()

/-- The start of a document that has one, and the handles for it. -/
def readDocumentStart (n : Nat) : Read Unit := do
  let ds ← readDirectives n ⟨false, []⟩
  modify fun r => { r with handles := ds.handles ++ usualHandles }
  if ← passIf .documentStart then pure () else refuse

/-- Nothing follows but marks for the ends of documents. -/
def readEnd (n : Nat) : Read Unit := do
  skipDocumentEnds n
  if (← peek) ≠ .streamEnd then
    readDocumentStart n
    refuse

/-- The first node of a text with a single document, or nothing if there is none; `n`
bounds the number of tokens. -/
def readText (n : Nat) : Read (Option Nat) := do
  let first ← peek
  let explicit := match first with
    | .directive _ | .documentStart => true
    | _ => false
  if first = .streamEnd then pure none
  else
    if explicit then readDocumentStart n
    let isEmpty := match ← peek with
      | .directive _ | .documentStart | .documentEnd | .streamEnd => explicit
      | _ => false
    let root ← if isEmpty then addEmpty else readNode (4 * n) .block
    readEnd n
    pure (some root)

/-- The nodes of a text with a single document, and the number of the first of them,
unless there is none.  The text may start with a mark for the order of octets. -/
def readDocument (text : List Char) : Except Fault (Option Nat × Graph) := do
  if !text.all isAllowed then throw .malformed
  let s := scan text
  let start : Reader :=
    { tokens := s.tokens, fault := s.fault, graph := #[], anchors := []
      handles := usualHandles, depth := 0 }
  let (root, r) ← (readText (s.tokens.length + 2)).run start
  pure (root, r.graph)

end Yaml

end SemverRange
