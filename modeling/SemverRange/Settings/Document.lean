import SemverRange.Numeric.Numeral
import SemverRange.Numeric.Shortest
import SemverRange.Settings.Moment
import SemverRange.Text.Quoted

/-!
# Settings documents

What a settings document holds before it is known to be valid: any value of the two
formats that documents are written in.  Texts are lists of code points, since both
formats can spell halves of surrogate pairs.

A collection of one of the formats can contain itself.  Such a value is shown with
dots where it meets itself again, and nothing else is ever asked of it, so a
document has the dots in the place of the second meeting.

## Main definitions

* `Document` — the values.
* `Document.get?`, `Document.insert` — entries of a mapping by key.
* `Document.display` — a value as messages show it.
* `Document.plain` — a key as the text it is sorted by.
-/

namespace SemverRange

/-- A value of a settings document. -/
inductive Document
  | null
  | bool (b : Bool)
  | int (n : Int)
  | float (x : Binary64)
  /-- What is no number, with the place where it was computed, if it was. -/
  | nan (place : Option Nat)
  /-- A text, as a list of code points. -/
  | text (points : List Nat)
  | bytes (octets : List Nat)
  | date (d : Date)
  | moment (t : Moment)
  | list (items : List Document)
  | map (entries : List (Document × Document))
  | set (items : List Document)
  | pair (first second : Document)
  /-- A list that contains this place. -/
  | outerList
  /-- A mapping that contains this place. -/
  | outerMap
  /-- A set that contains this place. -/
  | outerSet
  deriving Repr

namespace Document

/-- The text with the given characters. -/
def ofString (s : String) : Document := text (pointsOf s.toList)

/-- The number that a value counts as when it is compared: truth values count as zero
and one. -/
def asInt? : Document → Option Int
  | bool b => some (if b then 1 else 0)
  | int n => some n
  | float x => x.toInt?
  | _ => none

/-- The floating-point number that was found at a place. -/
def ofBinary64 (place : Nat) : Binary64 → Document
  | .nan => nan (some place)
  | x => float x

/-- The values are the same key of a mapping.  Numbers are compared by their values,
also across their kinds.  What is no number is the same only as itself: each place where
it is computed has its own, and the word for it stands for one wherever it is written. -/
def sameKey (a b : Document) : Bool :=
  match asInt? a, asInt? b with
  | some m, some n => m = n
  | none, none =>
    match a, b with
    | null, null => true
    | float x, float y => x = y
    | nan i, nan j => i = j
    | text s, text t => s = t
    | bytes s, bytes t => s = t
    | date d, date e => d = e
    | moment t, moment u => t.same u
    | _, _ => false
  | _, _ => false

/-- The key is one of the names. -/
def isAmong (names : List String) (key : Document) : Bool :=
  names.any fun name => sameKey key (ofString name)

/-- The entries with `value` under `key`: in the place of the value that was there, or
at the end. -/
def insert (key value : Document) :
    List (Document × Document) → List (Document × Document)
  | [] => [(key, value)]
  | (k, v) :: es => if sameKey k key then (k, value) :: es else (k, v) :: insert key value es

/-- The value under `key`. -/
def get? (key : Document) (entries : List (Document × Document)) : Option Document :=
  (entries.find? fun e => sameKey e.1 key).map Prod.snd

/-- One octet between quotes. -/
def displayOctet (quote : Char) (n : Nat) : List Char :=
  if n < 0x7F then escapePoint quote n else '\\' :: 'x' :: padded 16 2 n

/-- Octets as messages show them. -/
def displayBytes (octets : List Nat) : String :=
  let quote := quoteFor octets
  String.ofList ('b' :: quote :: octets.flatMap (displayOctet quote) ++ [quote])

mutual

/-- A value as messages show it. -/
def display : Document → Except Numeral.Fault String
  | null => pure "None"
  | bool b => pure (if b then "True" else "False")
  | int n => String.ofList <$> Numeral.writeInt n
  | float x => pure x.print
  | nan _ => pure Binary64.nan.print
  | text s => pure (quoted s)
  | bytes s => pure (displayBytes s)
  | date d => pure d.display
  | moment t => pure t.display
  | list items => do
    let parts ← displayItems items
    pure ("[" ++ String.intercalate ", " parts ++ "]")
  | map entries => do
    let parts ← displayEntries entries
    pure ("\x7b" ++ String.intercalate ", " parts ++ "\x7d")
  | set items => do
    let parts ← displayItems items
    pure (if parts.isEmpty then "set()" else "\x7b" ++ String.intercalate ", " parts ++ "\x7d")
  | pair a b => do
    let a ← display a
    let b ← display b
    pure ("(" ++ a ++ ", " ++ b ++ ")")
  | outerList => pure "[...]"
  | outerMap => pure "\x7b...\x7d"
  | outerSet => pure "set(...)"

/-- The values of a list one by one. -/
def displayItems : List Document → Except Numeral.Fault (List String)
  | [] => pure []
  | d :: ds => do
    let part ← display d
    let parts ← displayItems ds
    pure (part :: parts)

/-- The entries of a mapping one by one. -/
def displayEntries : List (Document × Document) → Except Numeral.Fault (List String)
  | [] => pure []
  | (k, v) :: es => do
    let key ← display k
    let value ← display v
    let parts ← displayEntries es
    pure ((key ++ ": " ++ value) :: parts)

end

/-- A key as the text it is sorted by: a text is itself, and any other value is as it is
shown, but without the frame around a date. -/
def plain : Document → Except Numeral.Fault (List Nat)
  | text s => pure s
  | date d => pure (pointsOf d.plain.toList)
  | moment t => pure (pointsOf t.plain.toList)
  | d => do
    let shown ← display d
    pure (pointsOf shown.toList)

end Document

end SemverRange
