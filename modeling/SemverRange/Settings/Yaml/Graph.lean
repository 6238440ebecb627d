import SemverRange.Settings.SetOrder
import SemverRange.Settings.Yaml.Node
import SemverRange.Settings.Yaml.Value

/-!
# Documents from YAML nodes

The nodes of a text become values level by level: first the parts of the outermost
collection, then the parts of those, and so on, each collection once.  The first value
that does not exist is reported.  A mapping takes over the entries of other mappings
before it is looked into.  A value that is no collection is found when it is first asked
for and stays what it is, even if a key that it was read from becomes a text later.

The graph of values can have cycles.  A document has none: it is cut where a collection
meets itself.  Since the settings in a mapping are looked at each by itself, the cutting
starts anew with each of them.

## Main definitions

* `Yaml.flatten` — the entries of a mapping with those that it takes over.
* `Yaml.Leaves` — the values that are no collections, by the numbers of their nodes.
* `Yaml.checkLevels` — every value that the graph asks for exists.
* `Yaml.unfold` — the value of a node, cut where it meets itself.
* `Yaml.parse` — the document that a text stands for.
-/

namespace SemverRange

namespace Yaml

/-- The node with the number; the graph refers to no others. -/
def Graph.node (g : Graph) (i : Nat) : Node := g[i]?.getD (.scalar .unknown [])

/-- The kind of the node. -/
def Node.tag : Node → Tag
  | scalar t _ | sequence t _ | mapping t _ => t

/-- The node is a mapping. -/
def Node.isMapping : Node → Bool
  | mapping _ _ => true
  | _ => false

/-- The entries of the node, if it is a mapping. -/
def Node.entries : Node → List (Nat × Nat)
  | mapping _ es => es
  | _ => []

/-- The node with other entries, if it is a mapping. -/
def Node.withEntries (es : List (Nat × Nat)) : Node → Node
  | mapping t _ => .mapping t es
  | n => n

/-- The node as an ordinary text. -/
def Node.asText : Node → Node
  | scalar _ s => .scalar .text s
  | sequence _ is => .sequence .text is
  | mapping _ es => .mapping .text es

/-- How many entries all mappings have together. -/
def Graph.countEntries (g : Graph) : Nat := g.foldl (fun n node => n + node.entries.length) 0

mutual

/-- The graph in which the mapping with the number has taken over the entries of the
mappings that its merging entries name; these come before its own.  A key that stands for
the value of a mapping becomes a text.  Each call for another mapping uses up a merging
entry, so their number bounds how deep the calls go; `fuel` counts them down. -/
def flatten (fuel : Nat) (i : Nat) (g : Graph) : Except Fault Graph :=
  match fuel with
  | 0 => pure g
  | fuel + 1 => do
    let (g, merged) ← flattenFrom fuel (g.node i).entries.length i 0 g
    if merged.isEmpty then pure g
    else pure (g.modify i fun n => n.withEntries (merged ++ n.entries))

/-- The entries of the mapping from number `at` on are looked at; `rounds` bounds their
number.  The result has the entries that are taken over. -/
def flattenFrom (fuel rounds : Nat) (i place : Nat) (g : Graph) :
    Except Fault (Graph × List (Nat × Nat)) :=
  match fuel, rounds with
  | fuel + 1, rounds + 1 =>
    match (g.node i).entries[place]? with
    | none => pure (g, [])
    | some (k, v) =>
      match (g.node k).tag with
      | .merge => do
        let g := g.modify i fun n => n.withEntries (n.entries.eraseIdx place)
        let (g, first) ← mergedFrom fuel v g
        let (g, others) ← flattenFrom fuel rounds i place g
        pure (g, first ++ others)
      | .value => flattenFrom fuel rounds i (place + 1) (g.modify k Node.asText)
      | _ => flattenFrom fuel rounds i (place + 1) g
  | _, _ => pure (g, [])

/-- The entries that are taken over from the node, which is a mapping or a list of
mappings.  Of several mappings the last comes first, so that the first one counts. -/
def mergedFrom (fuel : Nat) (v : Nat) (g : Graph) : Except Fault (Graph × List (Nat × Nat)) :=
  match fuel with
  | 0 => pure (g, [])
  | fuel + 1 =>
    match g.node v with
    | .mapping _ _ => do
      let g ← flatten fuel v g
      pure (g, (g.node v).entries)
    | .sequence _ items => do
      let (g, parts) ← mergedFromAll fuel items g
      pure (g, parts.reverse.flatten)
    | .scalar _ _ => throw .malformed

/-- The entries that are taken over from each of the nodes, which are mappings. -/
def mergedFromAll (fuel : Nat) (vs : List Nat) (g : Graph) :
    Except Fault (Graph × List (List (Nat × Nat))) :=
  match fuel, vs with
  | fuel + 1, v :: vs =>
    if (g.node v).isMapping then do
      let g ← flatten fuel v g
      let es := (g.node v).entries
      let (g, others) ← mergedFromAll fuel vs g
      pure (g, es :: others)
    else throw .malformed
  | _, _ => pure (g, [])

end

/-! ### Values -/

/-- The text of a scalar, or of the value that a mapping keeps to stand for it.  No way to
a text passes a node twice, so `fuel` need only be greater than the number of nodes. -/
def textOf (fuel : Nat) (g : Graph) (i : Nat) : Except Fault (List Nat) :=
  match fuel with
  | 0 => throw .endless
  | fuel + 1 =>
    match g.node i with
    | .scalar _ text => pure text
    | .sequence _ _ => throw .malformed
    | .mapping _ es =>
      match es.find? fun e => (g.node e.1).tag = .value with
      | some e => textOf fuel g e.2
      | none => throw .malformed

/-- The values of the kind are collections. -/
def Tag.isCollection : Tag → Bool
  | sequence | mapping | set | orderedMap | pairs => true
  | _ => false

/-- The value of a node that is no collection. -/
def leafValue (g : Graph) (i : Nat) : Except Fault Document := do
  let tag := (g.node i).tag
  if tag = .unknown || tag = .merge || tag = .value then throw .malformed
  let text ← textOf (g.size + 1) g i
  if tag = .timestamp && (g.node i).isMapping then throw .noDateOfMapping
  scalarValue i tag text

/-- The values of the nodes that have been looked at and are no collections. -/
abbrev Leaves := Array (Option Document)

/-- The value of a node that has been looked at. -/
def Leaves.value (leaves : Leaves) (i : Nat) : Document := (leaves[i]?.join).getD .null

/-- A part of a collection. -/
inductive Part
  | key (i : Nat)
  | value (i : Nat)
  /-- What cannot be a part of the collection. -/
  | misfit
  deriving DecidableEq, Repr

/-- The parts of a collection. -/
def partsOf (g : Graph) (i : Nat) : List Part :=
  match g.node i with
  | .sequence .sequence items => items.map .value
  | .mapping .mapping es | .mapping .set es => es.flatMap fun e => [.key e.1, .value e.2]
  | .sequence .orderedMap items | .sequence .pairs items =>
    items.flatMap fun j =>
      match g.node j with
      | .mapping _ [e] => [.value e.1, .value e.2]
      | _ => [.misfit]
  | _ => [.misfit]

/-- The parts of one collection are looked at.  A leaf has to have a value, which it keeps
from then on, and a key has to be a leaf.  The result has the collections among the parts,
the last first, in front of `found`. -/
def checkParts (g : Graph) (leaves : Leaves) (found : List Nat) :
    List Part → Except Fault (Leaves × List Nat)
  | [] => pure (leaves, found)
  | .misfit :: _ => throw .malformed
  | .key j :: parts => do
    if (g.node j).tag.isCollection then throw .malformed
    checkParts g (← checkLeaf g leaves j) found parts
  | .value j :: parts => do
    if (g.node j).tag.isCollection then checkParts g leaves (j :: found) parts
    else checkParts g (← checkLeaf g leaves j) found parts
where
  /-- A leaf is looked at, unless it has been before. -/
  checkLeaf (g : Graph) (leaves : Leaves) (j : Nat) : Except Fault Leaves := do
    if (leaves[j]?.join).isSome then pure leaves
    else
      let d ← leafValue g j
      pure (leaves.setIfInBounds j (some d))

/-- The collections of one level are looked at, each after its merging entries have been
taken over. -/
def checkLevel (g : Graph) (leaves : Leaves) (found : List Nat) :
    List Nat → Except Fault (Graph × Leaves × List Nat)
  | [] => pure (g, leaves, found.reverse)
  | i :: is => do
    let g ← if (g.node i).isMapping && ((g.node i).tag = .mapping || (g.node i).tag = .set) then
        flatten (8 * (g.countEntries + g.size) + 8) i g
      else pure g
    let (leaves, found) ← checkParts g leaves found (partsOf g i)
    checkLevel g leaves found is

/-- The collections of a level, and of all levels below it that are not among `seen`.
Every level has a collection that was not seen before, so `fuel` need only be greater than
the number of nodes. -/
def checkLevels (fuel : Nat) (g : Graph) (leaves : Leaves) (seen level : List Nat) :
    Except Fault (Graph × Leaves) :=
  match fuel with
  | 0 => pure (g, leaves)
  | fuel + 1 => do
    if level.isEmpty then pure (g, leaves)
    else
      let (g, leaves, below) ← checkLevel g leaves [] level
      let new := (below.filter fun i => !seen.contains i).eraseDups
      checkLevels fuel g leaves (seen ++ new) new

/-! ### Documents -/

/-- The mark for a collection that contains this place. -/
def outerMark : Tag → Document
  | .mapping => .outerMap
  | .set => .outerSet
  | _ => .outerList

/-- The value of a node.  `path` has the collections around it, where the value is cut;
`fuel` need only be greater than the number of nodes, since no path has one twice. -/
def unfold (fuel : Nat) (g : Graph) (leaves : Leaves) (path : List Nat) (i : Nat) : Document :=
  match fuel with
  | 0 => .null
  | fuel + 1 =>
    if path.contains i then outerMark (g.node i).tag
    else
      let part := unfold fuel g leaves (i :: path)
      let pair := fun (j : Nat) =>
        match (g.node j).entries with
        | e :: _ => Document.pair (part e.1) (part e.2)
        | [] => .null
      match g.node i with
      | .sequence .sequence items => .list (items.map part)
      | .sequence .orderedMap items | .sequence .pairs items => .list (items.map pair)
      | .mapping .mapping es =>
        .map (es.foldl (fun done e => Document.insert (part e.1) (part e.2) done) [])
      | .mapping .set es =>
        let keys := es.foldl (fun done e => Document.insert (part e.1) .null done) []
        .set (Document.inSetOrder (keys.map Prod.fst))
      | _ => leaves.value i

/-- The value of a node, in which the values of entries up to some depth are cut each by
itself.  The names are those that are asked for at each depth; the values under other keys
are left out. -/
def settingsOf (g : Graph) (leaves : Leaves) : List (List String) → Nat → Document
  | [], i => unfold (g.size + 1) g leaves [] i
  | names :: deeper, i =>
    match g.node i with
    | .mapping .mapping es =>
      .map (es.foldl (fun done e =>
        let key := leaves.value e.1
        let value := if key.isAmong names then settingsOf g leaves deeper e.2 else .null
        Document.insert key value done) [])
    | _ => unfold (g.size + 1) g leaves [] i

/-- The document that a text stands for, with the values under the names that are asked for
at each depth; without any node it is nothing. -/
def parse (names : List (List String)) (text : List Char) : Except Fault Document := do
  let (root, g) ← readDocument text
  match root with
  | none => pure .null
  | some i =>
    if (g.node i).tag.isCollection then
      let (g, leaves) ← checkLevels (g.size + 2) g (Array.replicate g.size none) [i] [i]
      pure (settingsOf g leaves names i)
    else leafValue g i

end Yaml

end SemverRange
