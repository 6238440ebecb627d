import SemverRange.Settings.Yaml.Character

/-!
# The kinds of values

A tag says what kind of value a node has.  A scalar without quotes and without a tag has
the kind that its form suggests: a truth value, a number, a date, nothing at all, or else
a text.

## Main definitions

* `Yaml.Tag` — the kinds of values.
* `Yaml.Tag.ofName` — the kind with the given full name.
* `Yaml.Tag.ofPlain` — the kind that the form of a scalar suggests.
-/

namespace SemverRange

namespace Yaml

/-- The kind of value of a node. -/
inductive Tag
  | null
  | bool
  | int
  | float
  | binary
  | timestamp
  | text
  | sequence
  | mapping
  | set
  /-- A list of pairs with single keys. -/
  | orderedMap
  /-- A list of pairs. -/
  | pairs
  /-- The key under which a mapping takes over the entries of another one. -/
  | merge
  /-- The key under which a mapping keeps a value that it can stand for. -/
  | value
  /-- A kind that no value has. -/
  | unknown
  deriving DecidableEq, Repr

/-- What the full names of the known kinds start with. -/
def tagStart : String := "tag:yaml.org,2002:"

/-- The known kinds by name. -/
def knownTags : List (String × Tag) :=
  [("null", .null), ("bool", .bool), ("int", .int), ("float", .float), ("binary", .binary),
    ("timestamp", .timestamp), ("str", .text), ("seq", .sequence), ("map", .mapping),
    ("set", .set), ("omap", .orderedMap), ("pairs", .pairs), ("merge", .merge),
    ("value", .value)]

/-- The kind with the given full name. -/
def Tag.ofName (name : List Char) : Tag :=
  ((knownTags.find? fun t => (tagStart ++ t.1).toList = name).map Prod.snd).getD .unknown

/-- The words for truth values. -/
def boolWords : List String :=
  ["yes", "Yes", "YES", "no", "No", "NO", "true", "True", "TRUE", "false", "False", "FALSE",
    "on", "On", "ON", "off", "Off", "OFF"]

/-- The words for nothing. -/
def nullWords : List String := ["", "~", "null", "Null", "NULL"]

/-- The text without a sign at its head. -/
def unsigned : List Char → List Char
  | '+' :: cs => cs
  | '-' :: cs => cs
  | cs => cs

/-- A digit, or the mark that groups digits. -/
def isGroupedDigit (c : Char) : Bool := c.isDigit || c = '_'

/-- At least one character, and all of them in the class. -/
def allOf (p : Char → Bool) (cs : List Char) : Bool := !cs.isEmpty && cs.all p

/-- Digits that can be grouped, the first of which satisfies `p`. -/
def isGrouped (p : Char → Bool) : List Char → Bool
  | [] => false
  | c :: cs => p c && cs.all isGroupedDigit

/-- One or two digits that make a number below sixty. -/
def isSixtieth : List Char → Bool
  | [c] => c.isDigit
  | [c, d] => '0' ≤ c && c ≤ '5' && d.isDigit
  | _ => false

/-- Digits, followed at least once by a colon and a number below sixty; the first digit
satisfies `p`. -/
def isSexagesimal (p : Char → Bool) (cs : List Char) : Bool :=
  match cs.splitOn ':' with
  | first :: second :: others => isGrouped p first && (second :: others).all isSixtieth
  | _ => false

/-- The character is a digit other than zero. -/
def isPositiveDigit (c : Char) : Bool := c.isDigit && c ≠ '0'

/-- The form of an integer. -/
def isIntForm (cs : List Char) : Bool :=
  let body := unsigned cs
  let based :=
    match body with
    | '0' :: 'b' :: ds => allOf (fun c => c = '0' || c = '1' || c = '_') ds
    | '0' :: 'x' :: ds =>
      allOf (fun c => c.isDigit || ('a' ≤ c && c ≤ 'f') || ('A' ≤ c && c ≤ 'F') || c = '_') ds
    | '0' :: ds => ds.all fun c => ('0' ≤ c && c ≤ '7') || c = '_'
    | _ => false
  based || isGrouped isPositiveDigit body || isSexagesimal isPositiveDigit body

/-- An exponent with its sign, or nothing. -/
def isExponent : List Char → Bool
  | [] => true
  | c :: s :: ds => (c = 'e' || c = 'E') && (s = '+' || s = '-') && allOf Char.isDigit ds
  | _ => false

/-- The form of a floating-point number. -/
def isFloatForm (cs : List Char) : Bool :=
  let body := unsigned cs
  let whole := body.takeWhile fun c => isGroupedDigit c || c = ':'
  let after := body.dropWhile fun c => isGroupedDigit c || c = ':'
  let infinities := [".inf", ".Inf", ".INF"].map String.toList
  let others := [".nan", ".NaN", ".NAN"].map String.toList
  let pointed :=
    match after with
    | '.' :: rest =>
      let fraction := rest.takeWhile isGroupedDigit
      let exponent := rest.dropWhile isGroupedDigit
      if whole.isEmpty then
        -- Without digits before the point there is no sign either.
        body = cs && isGrouped Char.isDigit fraction && isExponent exponent
      else (isGrouped Char.isDigit whole && isExponent exponent) ||
        (isSexagesimal Char.isDigit whole && exponent.isEmpty)
    | _ => false
  pointed || infinities.contains body || others.contains cs

/-- The number that at most `most` and at least `least` digits at the head of a text stand
for, with their number. -/
def digitsUpTo (least most : Nat) (cs : List Char) : Option (Nat × Nat × List Char) :=
  let ds := (cs.take most).takeWhile Char.isDigit
  if ds.length < least then none
  else some (Nat.ofDigitChars 10 ds 0, ds.length, cs.drop ds.length)

/-- The text after the character, which it starts with. -/
def after (c : Char) : List Char → Option (List Char)
  | [] => none
  | d :: cs => if c = d then some cs else none

/-- A date as it is written, with a time of day if there is one. -/
structure DateText where
  year : Nat
  month : Nat
  day : Nat
  /-- Month and day have two digits each. -/
  full : Bool
  /-- Hour, minute and second, the digits after the point, and the offset. -/
  clock : Option (Nat × Nat × Nat × List Char × Option Int)

/-- An offset as it is written: nothing, `Z`, or hours and perhaps minutes with a sign. -/
def offsetText (cs : List Char) : Option (Option Int) :=
  let rest := cs.dropWhile isGap
  match cs, rest with
  | [], _ => some none
  | _, ['Z'] => some (some 0)
  | _, s :: ds => do
    if s ≠ '+' ∧ s ≠ '-' then none
    let (hours, _, ds) ← digitsUpTo 1 2 ds
    let minutes ←
      match ds with
      | [] => some 0
      | ':' :: ds => do
        let (minutes, _, ds) ← digitsUpTo 2 2 ds
        if ds.isEmpty then some minutes else none
      | _ => none
    let seconds : Int := (hours * 60 + minutes) * 60
    some (some (if s = '-' then -seconds else seconds))
  | _, [] => none

/-- A time of day as it is written, after the white space or the letter before it. -/
def clockText (cs : List Char) : Option (Nat × Nat × Nat × List Char × Option Int) := do
  let (hour, _, cs) ← digitsUpTo 1 2 cs
  let cs ← after ':' cs
  let (minute, _, cs) ← digitsUpTo 2 2 cs
  let cs ← after ':' cs
  let (second, _, cs) ← digitsUpTo 2 2 cs
  let (fraction, cs) :=
    match cs with
    | '.' :: rest => (rest.takeWhile Char.isDigit, rest.dropWhile Char.isDigit)
    | _ => ([], cs)
  let offset ← offsetText cs
  pure (hour, minute, second, fraction, offset)

/-- A date as it is written. -/
def dateText (cs : List Char) : Option DateText := do
  let (year, _, cs) ← digitsUpTo 4 4 cs
  let cs ← after '-' cs
  let (month, monthWidth, cs) ← digitsUpTo 1 2 cs
  let cs ← after '-' cs
  let (day, dayWidth, cs) ← digitsUpTo 1 2 cs
  let full := monthWidth = 2 && dayWidth = 2
  match cs with
  | [] => pure ⟨year, month, day, full, none⟩
  | c :: rest =>
    if c = 'T' || c = 't' then
      let clock ← clockText rest
      pure ⟨year, month, day, full, some clock⟩
    else if isGap c then
      let clock ← clockText (rest.dropWhile isGap)
      pure ⟨year, month, day, full, some clock⟩
    else none

/-- The form of a date that needs no tag. -/
def isDateForm (cs : List Char) : Bool :=
  match dateText cs with
  | some d => d.full || d.clock.isSome
  | none => false

/-- A text without the line feed at its end, if it ends so. -/
def withoutLastBreak (cs : List Char) : List Char :=
  if cs.getLast? = some '\n' then cs.dropLast else cs

/-- The kind that the form of a scalar suggests.  A line feed at the end does not count,
unless there is nothing else. -/
def Tag.ofPlain (cs : List Char) : Tag :=
  let form := withoutLastBreak cs
  let word := String.ofList form
  if boolWords.contains word then .bool
  else if isFloatForm form then .float
  else if isIntForm form then .int
  else if word = "<<" then .merge
  else if nullWords.contains word then if form.isEmpty && !cs.isEmpty then .text else .null
  else if isDateForm form then .timestamp
  else if word = "=" then .value
  else if ["!", "&", "*"].contains word then .unknown
  else .text

end Yaml

end SemverRange
