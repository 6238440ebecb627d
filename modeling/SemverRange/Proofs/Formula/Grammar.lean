import Mathlib.Data.Nat.Notation
import SemverRange.Formula.Token

/-!
# The grammar of formulas, over characters

The notation of formulas as a grammar over characters, where `ws` is any white space:

    formula := ws* | ws* range (ws* "||" ws* range)* ws*
    range   := clause (ws+ clause)* | target ws+ "-" ws+ target
    clause  := target | op ws* target | shorthand ws* target
    target  := [vV]? part ("." part ("." part ("-" ids)? ("+" ids)?)?)?
    part    := [0-9]+ | "x" | "X" | "*"
    ids     := [0-9A-Za-z-]+ ("." [0-9A-Za-z-]+)*

with no number after a wildcard, and with a prerelease or build part after three numbers
only.  A derivation is a value of one of the types below.  It has the text that it derives,
the formula that it denotes, and the numerals in it that are read as numbers.

## Main definitions

* `Grammar.Blanks`, `Grammar.Gap`, `Grammar.Digits`, `Grammar.Ident`, `Grammar.Idents` — runs
  of characters.
* `Grammar.Part`, `Grammar.Target`, `Grammar.Clause`, `Grammar.Range`, `Grammar.Formula` —
  the derivations.
* `Grammar.Formula.text`, `Grammar.Formula.denote`, `Grammar.Formula.numerals` — what a
  derivation derives, what it denotes, and the numerals in it.
-/

namespace SemverRange

namespace Grammar

/-- White space, or nothing. -/
abbrev Blanks := {cs : List Char // ∀ c ∈ cs, isBlank c = true}

/-- White space. -/
abbrev Gap := {cs : List Char // cs ≠ [] ∧ ∀ c ∈ cs, isBlank c = true}

/-- A run of digits. -/
abbrev Digits := {cs : List Char // cs ≠ [] ∧ ∀ c ∈ cs, c.isDigit = true}

/-- An identifier. -/
abbrev Ident := {cs : List Char // cs ≠ [] ∧ ∀ c ∈ cs, isIdentifierChar c = true}

/-- Identifiers, at least one. -/
abbrev Idents := {is : List Ident // is ≠ []}

/-- The letter that may come before a version. -/
abbrev Vee := {c : Char // c = 'v' ∨ c = 'V'}

/-- The sign for any number. -/
abbrev Wild := {c : Char // c = 'x' ∨ c = 'X' ∨ c = '*'}

/-- A number or a wildcard. -/
inductive Part
  | number (ds : Digits)
  | wildcard (c : Wild)

/-- The part is a number. -/
def Part.IsNumber : Part → Prop
  | number _ => True
  | wildcard _ => False

@[simp] theorem Part.isNumber_number (ds : Digits) : (number ds).IsNumber := trivial

@[simp] theorem Part.not_isNumber_wildcard (c : Wild) : ¬ (wildcard c).IsNumber := id

/-- A version or a pattern. -/
@[ext]
structure Target where
  /-- The letter before it. -/
  vee : Option Vee
  /-- The first part. -/
  first : Part
  /-- The parts after the first, each after a dot. -/
  more : List Part
  /-- The prerelease, after a dash. -/
  pre : Option Idents
  /-- The build metadata, after a plus sign. -/
  build : Option Idents
  /-- There are at most three parts. -/
  length_more : more.length ≤ 2
  /-- No number comes after a wildcard. -/
  ordered : (first :: more).Pairwise fun p q => q.IsNumber → p.IsNumber
  /-- Prerelease and build metadata come after three numbers only. -/
  attached : pre.isSome ∨ build.isSome → more.length = 2 ∧ ∀ p ∈ first :: more, p.IsNumber

/-- A target with the operator before it, if there is one. -/
inductive Clause
  | bare (t : Target)
  | compare (o : Op) (blanks : Blanks) (t : Target)
  | shorthand (s : Shorthand) (blanks : Blanks) (t : Target)

/-- Clauses with white space between them, or two targets with a dash between them. -/
inductive Range
  | all (c : Clause) (more : List (Gap × Clause))
  | between (l : Target) (before after : Gap) (u : Target)

/-- White space only, or ranges with `||` between them; each further range has the white space
before and after its `||` with it. -/
inductive Formula
  | blank (b : Blanks)
  | ranges (before : Blanks) (r : Range) (more : List (Blanks × Blanks × Range)) (after : Blanks)

/-! ### What is derived -/

/-- The text of the identifiers. -/
def Idents.text (is : Idents) : List Char := ['.'].intercalate (is.1.map Subtype.val)

/-- The text of the part. -/
def Part.text : Part → List Char
  | number ds => ds.1
  | wildcard c => [c.1]

namespace Target

/-- The letter before the target, if there is one. -/
def veeText (t : Target) : List Char := t.vee.elim [] fun c => [c.1]

/-- The prerelease with its dash, if there is one. -/
def preText (t : Target) : List Char := t.pre.elim [] fun is => '-' :: is.text

/-- The build metadata with its plus sign, if there is any. -/
def buildText (t : Target) : List Char := t.build.elim [] fun is => '+' :: is.text

/-- The text of the target. -/
def text (t : Target) : List Char :=
  t.veeText ++ (t.first.text ++ (t.more.flatMap (fun p => '.' :: p.text) ++
    (t.preText ++ t.buildText)))

end Target

/-- The text of the clause. -/
def Clause.text : Clause → List Char
  | bare t => t.text
  | compare o b t => o.sign ++ (b.1 ++ t.text)
  | shorthand s b t => s.sign ++ (b.1 ++ t.text)

/-- The text of the range. -/
def Range.text : Range → List Char
  | all c more => c.text ++ more.flatMap fun m => m.1.1 ++ m.2.text
  | between l before after u => l.text ++ (before.1 ++ '-' :: (after.1 ++ u.text))

/-- The text of the formula. -/
def Formula.text : Formula → List Char
  | blank b => b.1
  | ranges before r more after =>
    before.1 ++ (r.text ++
      (more.flatMap (fun m => m.1.1 ++ '|' :: '|' :: (m.2.1.1 ++ m.2.2.text)) ++ after.1))

/-! ### What is denoted -/

/-- The number that the digits stand for. -/
def Digits.value (ds : Digits) : ℕ := Nat.ofDigitChars 10 ds.1 0

/-- Digits alone are a number, and anything else is a text. -/
def Ident.denote (i : Ident) : Identifier :=
  if i.1.all Char.isDigit then .num (Nat.ofDigitChars 10 i.1 0 : ℕ)
  else .alpha (String.ofList i.1)

/-- The number of the part, if it is one. -/
def Part.value? : Part → Option ℕ
  | number ds => some ds.value
  | wildcard _ => none

@[simp] theorem Part.value?_number (ds : Digits) : (number ds).value? = some ds.value := rfl

@[simp] theorem Part.value?_wildcard (c : Wild) : (wildcard c).value? = none := rfl

/-- Three numbers make a version, and fewer a pattern; wildcards stand for what is missing. -/
def Target.denote (t : Target) : SemverRange.Target :=
  match (t.first :: t.more).filterMap Part.value? with
  | [major, minor, patch] =>
    .version ⟨major, minor, patch, t.pre.elim [] fun is => is.1.map Ident.denote,
      t.build.elim [] fun is => is.1.map fun i => String.ofList i.1⟩
  | [major, minor] => .minor major minor
  | [major] => .major major
  | _ => .any

/-- The clause that is denoted. -/
def Clause.denote : Clause → SemverRange.Clause
  | bare t => .bare t.denote
  | compare o _ t => .compare (some o) t.denote
  | shorthand s _ t => .shorthand (some s) t.denote

/-- The range that is denoted. -/
def Range.denote : Range → SemverRange.Range
  | all c more => .all (c.denote :: more.map fun m => m.2.denote)
  | between l _ _ u => .between l.denote u.denote

/-- The formula that is denoted; white space alone denotes `*`. -/
def Formula.denote : Formula → SemverRange.Formula
  | blank _ => ⟨[.all [.bare .any]]⟩
  | ranges _ r more _ => ⟨r.denote :: more.map fun m => m.2.2.denote⟩

/-! ### The numerals -/

/-- The digits of the part, if it is a number. -/
def Part.digits? : Part → Option (List Char)
  | number ds => some ds.1
  | wildcard _ => none

@[simp] theorem Part.digits?_number (ds : Digits) : (number ds).digits? = some ds.1 := rfl

@[simp] theorem Part.digits?_wildcard (c : Wild) : (wildcard c).digits? = none := rfl

/-- The component numbers and the prerelease identifiers that consist of digits. -/
def Target.numerals (t : Target) : List (List Char) :=
  (t.first :: t.more).filterMap Part.digits? ++
    (t.pre.elim [] fun is => (is.1.map Subtype.val).filter fun i => i.all Char.isDigit)

/-- The target of the clause. -/
def Clause.target : Clause → Target
  | bare t | compare _ _ t | shorthand _ _ t => t

/-- The targets of the range, in order. -/
def Range.targets : Range → List Target
  | all c more => c.target :: more.map fun m => m.2.target
  | between l _ _ u => [l, u]

/-- The targets of the formula, in order. -/
def Formula.targets : Formula → List Target
  | blank _ => []
  | ranges _ r more _ => r.targets ++ more.flatMap fun m => m.2.2.targets

/-- The numerals of the formula, in order. -/
def Formula.numerals (d : Formula) : List (List Char) := d.targets.flatMap Target.numerals

end Grammar

end SemverRange
