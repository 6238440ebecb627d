import SemverRange.Cache.Basic
import SemverRange.Settings.Files
import SemverRange.Settings.Json
import SemverRange.Settings.Schema
import SemverRange.Settings.Yaml.Graph
import SemverRange.Text.Utf8

/-!
# Loading settings

The settings say whether formulas are cached, and how many.  They come from a document
that is a file or the answer of a server; which, is told by a source, or else by a
variable of the environment.  Without either the settings are the usual ones, and so is
each setting that the document leaves out.

A server is asked three times at most, until it answers at all.  A document whose source
ends in `.yaml` or `.yml` is in YAML, any other in JSON.  An empty document leaves all
settings out.

## Main definitions

* `Settings`, `Settings.ofDocument` — the settings, and those of a document.
* `Surroundings`, `Reply` — what loading depends on, and the answers of a server.
* `Settings.Fault` — what can go wrong, with its wording, and whether it is told as a fault of the
  settings.
* `validate` — a document has nothing wrong with it.
* `Settings.load` — the settings of a source, and the requests that were made for it.
* `Settings.newCache?` — an empty cache with the settings.
-/

namespace SemverRange

/-- Whether formulas are cached, and how many.  Both are values of a document, as they
were found. -/
structure Settings where
  cacheEnabled : Document
  cacheSize : Document

namespace Settings

/-- The settings that hold without a document. -/
def usual : Settings := ⟨.bool true, .int Cache.defaultSize⟩

end Settings

namespace Document

/-- The name of the kind of value, as messages give it. -/
def kindName : Document → String
  | null => "NoneType"
  | bool _ => "bool"
  | int _ => "int"
  | float _ | nan _ => "float"
  | text _ => "str"
  | bytes _ => "bytes"
  | date _ => "datetime.date"
  | moment _ => "datetime.datetime"
  | list _ | outerList => "list"
  | map _ | outerMap => "dict"
  | set _ | outerSet => "set"
  | pair _ _ => "tuple"

/-- The value counts as nothing: it is null, false, zero or empty. -/
def isNothing : Document → Bool
  | null => true
  | bool b => !b
  | int n => n = 0
  | float x => x.toInt? = some 0
  | text s | bytes s => s.isEmpty
  | list ds | set ds => ds.isEmpty
  | map es => es.isEmpty
  | _ => false

/-- The size of a cache that the value asks for; of a value that is no number the name of
its kind. -/
def toSize? : Document → Except String Cache.Size
  | bool b => .ok (.whole (if b then 1 else 0))
  | int n => .ok (.whole n)
  | float x => .ok (.real x)
  | nan _ => .ok (.real .nan)
  | d => .error d.kindName

/-- The entries of a mapping; of any other value the name of its kind. -/
def entries? : Document → Except String (List (Document × Document))
  | map es => .ok es
  | d => .error d.kindName

end Document

/-- What a server answers to a request. -/
inductive Reply
  /-- A page with its status. -/
  | page (status : Int) (text : String)
  /-- The request did not succeed. -/
  | failed (message : String)
  /-- Something else went wrong. -/
  | broken (message : String)
  deriving DecidableEq, Repr

/-- What the settings depend on. -/
structure Surroundings where
  /-- The source that the environment names, if it names one. -/
  environment : Option String
  /-- The files. -/
  files : Files
  /-- What the server answers to the requests, counted from zero. -/
  reply : Nat → Reply

namespace Settings

/-- What can go wrong with settings. -/
inductive Fault
  /-- The path leads to nothing. -/
  | notFound (path : String)
  /-- The path leads to a directory. -/
  | isDirectory (path : String)
  /-- A step of the path is too long for a name. -/
  | nameTooLong (path : String)
  /-- The file is no text. -/
  | notText (f : Utf8.Fault)
  /-- The request did not succeed. -/
  | fetchFailed (url message : String)
  /-- Something else went wrong with the request. -/
  | fetchBroken (message : String)
  /-- The page has a status other than that of success. -/
  | badStatus (url : String) (status : Int)
  /-- The document is not in JSON. -/
  | badJson (source : String) (f : Json.Fault)
  /-- A list, or else a mapping, lies too deep in the document. -/
  | tooDeep (isList : Bool)
  /-- The document is not in YAML. -/
  | badYaml (source : String)
  /-- The document asks for a value that does not exist. -/
  | badValue (f : Yaml.Fault)
  /-- A numeral is too long. -/
  | ofNumeral (f : Numeral.Fault)
  /-- The document is not valid; each line tells a violation. -/
  | invalid (lines : List String)
  /-- A value that should be a mapping is of the named kind. -/
  | noMapping (kind : String)
  deriving Repr

/-- A path between quotes. -/
def quotedPath (path : String) : String := quotedChars path.toList

/-- The wording of the fault. -/
def Fault.message : Fault → String
  | notFound path => "Settings file not found: " ++ path
  | isDirectory path =>
    "Failed to read settings file: [Errno 21] Is a directory: " ++ quotedPath path
  | nameTooLong path => "[Errno 36] File name too long: " ++ quotedPath path
  | notText f => f.message
  | fetchFailed url message => "Failed to fetch settings from " ++ url ++ ": " ++ message
  | fetchBroken message => message
  | badStatus url status => "Unexpected status code " ++ toString status ++ " fetching " ++ url
  | badJson source f => "Invalid JSON in settings " ++ source ++ ": " ++ f.message
  | tooDeep isList => (Json.Fault.tooDeep isList).message
  | badYaml source => "Invalid YAML in settings " ++ source
  | badValue f => f.message
  | ofNumeral f => f.message
  | invalid lines => "Invalid settings:\n" ++ String.intercalate "\n" lines
  | noMapping kind => "'" ++ kind ++ "' object has no attribute 'get'"

/-- The fault is told as one of the settings.  The others are told as what they were on the way:
faults of files, of texts, of numerals and so on. -/
def Fault.isOfSettings : Fault → Bool
  | notFound _ | isDirectory _ | fetchFailed .. | badStatus .. | badJson .. | badYaml _ |
    invalid _ => true
  | nameTooLong _ | notText _ | fetchBroken _ | tooDeep _ | badValue _ | ofNumeral _ |
    noMapping _ => false

/-- The settings of a document.  A cache that counts as nothing leaves all settings out;
the values are not looked at. -/
def ofDocument (d : Document) : Except Fault Settings := do
  let entries ← d.entries?.mapError .noMapping
  let cache := (Document.get? (.ofString "cache") entries).getD .null
  if cache.isNothing then pure usual
  else do
    let settings ← cache.entries?.mapError .noMapping
    let value := fun (name : String) (other : Document) =>
      (Document.get? (.ofString name) settings).getD other
    pure ⟨value "enabled" usual.cacheEnabled, value "size" usual.cacheSize⟩

/-- The document has nothing wrong with it. -/
def validate (d : Document) : Except Fault Unit := do
  let lines ← ((violations d).mapM Violation.describe).mapError .ofNumeral
  if lines.isEmpty then pure () else throw (.invalid lines)

/-- How often a server is asked at most. -/
def attempts : Nat := 3

/-- The first answer of the server that is a page, or the last of those that are asked
for, and the number of requests.  `n` more requests may be made after the one with number
`k`. -/
def askFrom (reply : Nat → Reply) : Nat → Nat → Reply × Nat
  | 0, k => (reply k, k + 1)
  | n + 1, k =>
    match reply k with
    | .page status text => (.page status text, k + 1)
    | _ => askFrom reply n (k + 1)

/-- The status of success. -/
def success : Int := 200

/-- The text that an answer of the server amounts to. -/
def pageText (url : String) : Reply → Except Fault (List Char)
  | .page status text =>
    if status = success then pure text.toList else throw (.badStatus url status)
  | .failed message => throw (.fetchFailed url message)
  | .broken message => throw (.fetchBroken message)

/-- The text of the file that the path leads to, with its line ends made alike. -/
def fileText (files : Files) (path : FilePath) : Except Fault (List Char) :=
  match files.find path with
  | .nothing => throw (.notFound path.print)
  | .tooLong => throw (.nameTooLong path.print)
  | .directory => throw (.isDirectory path.print)
  | .file octets => unifyLineEnds <$> (Utf8.decode octets).mapError .notText

/-- The source is the address of a page. -/
def isUrl (source : String) : Bool := source.startsWith "http://" || source.startsWith "https://"

/-- The document is in YAML. -/
def isYaml (source : String) : Bool := source.endsWith ".yaml" || source.endsWith ".yml"

/-- The document that a text stands for, in the format that the name of its source
tells. -/
def decode (source : String) (text : List Char) : Except Fault Document :=
  if isYaml source then
    (Yaml.parse [rootNames, cacheNames] text).mapError fun
      | .malformed => .badYaml source
      | .ofNumeral f => .ofNumeral f
      | f => .badValue f
  else
    (Json.parse text).mapError fun
      | .ofNumeral f => .ofNumeral f
      | .tooDeep isList => .tooDeep isList
      | f => .badJson source f

/-- The settings of the text of a document. -/
def ofText (source : String) (text : List Char) : Except Fault Settings := do
  let d ← decode source text
  let d := match d with
    | .null => .map []
    | d => d
  validate d
  ofDocument d

/-- The source that counts: the given one, or else that of the environment unless it is
empty. -/
def sourceOf (source fromEnvironment : Option String) : Option String :=
  source.or (fromEnvironment.filter (· ≠ ""))

/-- The settings that were loaded, or why there are none, and the addresses that were
requested. -/
structure Loaded where
  result : Except Fault Settings
  requests : List String

/-- The settings of a source. -/
def load (source : Option String) (w : Surroundings) : Loaded :=
  match sourceOf source w.environment with
  | none => ⟨pure usual, []⟩
  | some source =>
    if isUrl source then
      let (reply, n) := askFrom w.reply (attempts - 1) 0
      ⟨do ofText source (← pageText source reply), List.replicate n source⟩
    else ⟨do ofText source (← fileText w.files (.parse source)), []⟩

/-- An empty cache with the settings.  Any value that does not count as nothing turns it
on. -/
def newCache? (s : Settings) : Except Cache.Fault Cache := do
  let size ← s.cacheSize.toSize?.mapError .noSize
  Cache.new? size (!s.cacheEnabled.isNothing)

end Settings

end SemverRange
