import SemverRange.Settings.Document

/-!
# Valid settings

A settings document is a mapping with at most the entry `cache`, which is a mapping with
at most the entries `enabled`, a truth value, and `size`, a number with integral value
that is at least one.  A floating-point number can have integral value; a truth value is
no number.

All violations are reported, in the order of their places, and at one place a wrong kind
before a value that is too small.

## Main definitions

* `SettingPath`, `Violation` — a place in a settings document, and what is wrong there.
* `violations` — all that is wrong with a document.
* `Violation.describe` — the violation as a line of a message.
-/

namespace SemverRange

/-- A place in a settings document. -/
inductive SettingPath
  | root
  | cache
  | enabled
  | size
  deriving DecidableEq, Repr

/-- The place as it appears in a message. -/
def SettingPath.describe : SettingPath → String
  | root => "<root>"
  | cache => "cache"
  | enabled => "cache/enabled"
  | size => "cache/size"

/-- What kind of value a setting has. -/
inductive SettingKind
  | object
  | boolean
  | integer
  deriving DecidableEq, Repr

/-- The name of the kind. -/
def SettingKind.name : SettingKind → String
  | object => "object"
  | boolean => "boolean"
  | integer => "integer"

/-- The names of the entries of a settings document. -/
def rootNames : List String := ["cache"]

/-- The names of the entries of `cache`. -/
def cacheNames : List String := ["enabled", "size"]

/-- The least valid size. -/
def leastSize : Nat := 1

/-- What is wrong with a document. -/
inductive Violation
  /-- The value is of another kind. -/
  | wrongKind (path : SettingPath) (kind : SettingKind) (value : Document)
  /-- The mapping has entries that mean nothing. -/
  | extra (path : SettingPath) (keys : List Document)
  /-- The number is too small. -/
  | tooSmall (path : SettingPath) (value : Document)
  deriving Repr

namespace Document

/-- The value is a number with integral value. -/
def isIntegral : Document → Bool
  | int _ => true
  | float x => x.toInt?.isSome
  | _ => false

/-- The value is a number less than `leastSize`. -/
def isTooSmall : Document → Bool
  | int n => n < leastSize
  | float x => x.isLessThanOne
  | _ => false

/-- The value is a truth value. -/
def isBool : Document → Bool
  | bool _ => true
  | _ => false

end Document

/-- What is wrong with the value of `cache/enabled`. -/
def enabledViolations (d : Document) : List Violation :=
  if d.isBool then [] else [.wrongKind .enabled .boolean d]

/-- What is wrong with the value of `cache/size`. -/
def sizeViolations (d : Document) : List Violation :=
  (if d.isIntegral then [] else [.wrongKind .size .integer d]) ++
    (if d.isTooSmall then [.tooSmall .size d] else [])

/-- The keys of the mapping other than `names`. -/
def extraKeys (names : List String) (entries : List (Document × Document)) : List Document :=
  (entries.map Prod.fst).filter fun key => !key.isAmong names

/-- The entries of the mapping other than `names`, if there are any. -/
def extraViolations (path : SettingPath) (names : List String)
    (entries : List (Document × Document)) : List Violation :=
  match extraKeys names entries with
  | [] => []
  | keys => [.extra path keys]

/-- What is wrong with the value under the name, if there is one. -/
def entryViolations (name : String) (check : Document → List Violation)
    (entries : List (Document × Document)) : List Violation :=
  (Document.get? (.ofString name) entries).elim [] check

/-- What is wrong with the value of `cache`. -/
def cacheViolations : Document → List Violation
  | .map entries =>
    extraViolations .cache cacheNames entries ++
      entryViolations "enabled" enabledViolations entries ++
      entryViolations "size" sizeViolations entries
  | d => [.wrongKind .cache .object d]

/-- All that is wrong with a settings document. -/
def violations : Document → List Violation
  | .map entries =>
    extraViolations .root rootNames entries ++ entryViolations "cache" cacheViolations entries
  | d => [.wrongKind .root .object d]

/-- The code points come no later in the order of texts. -/
def pointsLe : List Nat → List Nat → Bool
  | [], _ => true
  | _ :: _, [] => false
  | m :: ms, n :: ns => m < n || (m = n && pointsLe ms ns)

/-- The keys as messages show them, in the order of their texts. -/
def displayKeys (keys : List Document) : Except Numeral.Fault String := do
  let texts ← keys.mapM fun k => do
    let sortedBy ← k.plain
    let shown ← k.display
    pure (sortedBy, shown)
  let ordered := texts.mergeSort fun s t => pointsLe s.1 t.1
  pure (String.intercalate ", " (ordered.map Prod.snd))

/-- What is wrong, without the place. -/
def Violation.complaint : Violation → Except Numeral.Fault String
  | wrongKind _ kind value => do
    let value ← value.display
    pure (value ++ " is not of type '" ++ kind.name ++ "'")
  | extra _ keys => do
    let shown ← displayKeys keys
    let verb := if keys.length = 1 then "was" else "were"
    pure ("Additional properties are not allowed (" ++ shown ++ " " ++ verb ++ " unexpected)")
  | tooSmall _ value => do
    let value ← value.display
    pure (value ++ " is less than the minimum of " ++ toString leastSize)

/-- Where the violation is. -/
def Violation.path : Violation → SettingPath
  | wrongKind path _ _ | extra path _ | tooSmall path _ => path

/-- The violation as a line of a message. -/
def Violation.describe (v : Violation) : Except Numeral.Fault String := do
  let complaint ← v.complaint
  pure ("- " ++ v.path.describe ++ ": " ++ complaint)

end SemverRange
