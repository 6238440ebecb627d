import SemverRange.Numeric.Numeral
import SemverRange.Text.Quoted
import SemverRange.Version.Order

/-!
# What can go wrong with versions and formulas

Every operation on versions and formulas that can fail does so with a `Fault`,
which is the cause; the wording belongs to `Fault.message`.

## Main definitions

* `Goal` — what a text is read as.
* `Place` — what a reader was looking at when it stopped.
* `Reason`, `SyntaxFault` — why a text is no version or no formula.
* `Fault` — all causes, with their wording.
-/

namespace SemverRange

/-- What a text is read as. -/
inductive Goal
  | formula
  | version
  deriving DecidableEq, Repr

/-- What a reader was looking at when it stopped. -/
inductive Place
  /-- The end of the text. -/
  | endOfInput
  /-- White space that separates two clauses. -/
  | blanks (pos : Nat)
  /-- A piece of text, shown without the white space around it. -/
  | piece (text : List Char) (pos : Nat)
  deriving DecidableEq, Repr

/-- What was wrong with the place where the reader stopped. -/
inductive Complaint
  /-- Nothing more is known. -/
  | unexpected
  /-- Neither a number nor a wildcard stands there. -/
  | partExpected
  /-- A number follows a wildcard. -/
  | numberAfterWildcard
  /-- A prerelease or build part follows less than three numbers. -/
  | attachedToPartial
  /-- A version was asked for, and this piece of the text is none. -/
  | incomplete (fragment : List Char)
  deriving DecidableEq, Repr

/-- Why a text is not what it is read as. -/
inductive Reason
  /-- A character that starts no token. -/
  | stray (c : Char) (pos : Nat)
  /-- A token that cannot stand where it does. -/
  | misplaced (goal : Goal) (place : Place) (complaint : Complaint)
  deriving DecidableEq, Repr

/-- A text that is not what it is read as. -/
structure SyntaxFault where
  /-- The whole text. -/
  source : String
  /-- What is wrong with it. -/
  reason : Reason
  deriving DecidableEq, Repr

/-- What can go wrong with versions and formulas. -/
inductive Fault
  /-- A text does not follow the grammar. -/
  | ofSyntax (f : SyntaxFault)
  /-- A numeral is too long. -/
  | ofNumeral (f : Numeral.Fault)
  /-- Some parts make no version. -/
  | ofVersion (d : Version.Defect)
  /-- A blank stands where a node has to be looked into. -/
  | blankNode
  /-- A blank stands where the sign of an operator has to be written. -/
  | blankSign
  /-- A blank stands where a whole version or a whole formula has to be written. -/
  | blankWhole (goal : Goal)
  /-- An order relation is asked of a version and a text. -/
  | incomparable (r : Relation)
  deriving DecidableEq, Repr

/-- The place as it appears in a message. -/
def Place.describe : Place → String
  | .endOfInput => "end of input"
  | .blanks p => "whitespace at position " ++ toString p
  | .piece cs p => quotedChars cs ++ " at position " ++ toString p

/-- What a text was expected not to be. -/
def Goal.refusal : Goal → String
  | .formula => "invalid formula"
  | .version => "invalid version"

/-- The complaint as it appears in a message. -/
def Complaint.describe : Complaint → String
  | .unexpected => ""
  | .partExpected => " (expected a number or wildcard)"
  | .numberAfterWildcard => " (number after wildcard)"
  | .attachedToPartial => " (prerelease and build need a full version)"
  | .incomplete fragment => " (" ++ quotedChars fragment ++ " is not a complete version)"

/-- The reason in words. -/
def Reason.describe : Reason → String
  | .stray c p => "unexpected character " ++ quotedChars [c] ++ " at position " ++ toString p
  | .misplaced goal place complaint =>
    goal.refusal ++ ": unexpected " ++ place.describe ++ complaint.describe

/-- The reason concerns a single character, not the order of the tokens. -/
def Reason.isLexical : Reason → Bool
  | .stray _ _ => true
  | .misplaced _ _ _ => false

/-- The wording of the fault. -/
def SyntaxFault.message (f : SyntaxFault) : String :=
  "error parsing `" ++ f.source ++ "`: " ++ f.reason.describe

/-- The wording of the fault. -/
def Fault.message : Fault → String
  | .ofSyntax f => f.message
  | .ofNumeral f => f.message
  | .ofVersion d => d.message
  | .blankNode => "Expected code to be unreachable, but got: None"
  | .blankSign => "'NoneType' object has no attribute 'value'"
  | .blankWhole .version => "'NoneType' object has no attribute 'major'"
  | .blankWhole .formula => "'NoneType' object has no attribute 'ranges'"
  | .incomparable r =>
    "'" ++ r.symbol ++ "' not supported between instances of 'Version' and 'str'"

end SemverRange
