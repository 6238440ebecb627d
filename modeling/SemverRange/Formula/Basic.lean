import SemverRange.Version.Basic

/-!
# Range formulas

A formula is a disjunction of ranges.  A range is a conjunction of clauses, or
everything between two targets; a clause puts an operator before a target, or
none; a target is a version, or a pattern that stands for all versions that
agree with it.

A formula can be *unfinished*: a target, clause or range can be left blank, and
so can an operator.  Operations go through an unfinished formula until they need
what is missing.

## Main definitions

* `Op`, `Shorthand` — the comparison operators, and the tilde and the caret.
* `Target`, `Clause`, `Range`, `Formula` — the tree.
* `Formula.any` — the formula that every release satisfies.
-/

namespace SemverRange

/-- A comparison operator. -/
inductive Op
  | eq
  | lt
  | le
  | gt
  | ge
  deriving DecidableEq, Repr

/-- An operator that stands for a lower and an upper bound. -/
inductive Shorthand
  /-- Same major and minor number, and not below. -/
  | tilde
  /-- Same first nonzero number, and not below. -/
  | caret
  deriving DecidableEq, Repr

/-- The sign of the operator. -/
def Op.sign : Op → List Char
  | .eq => ['=']
  | .lt => ['<']
  | .le => ['<', '=']
  | .gt => ['>']
  | .ge => ['>', '=']

/-- The sign of the shorthand. -/
def Shorthand.sign : Shorthand → List Char
  | .tilde => ['~']
  | .caret => ['^']

/-- What an operator is applied to.  The numbers of a pattern can be negative in
a tree that was not read from text; a pattern with a negative number stands for
nothing. -/
inductive Target
  /-- One version. -/
  | version (v : Version)
  /-- The pattern `*`. -/
  | any
  /-- The pattern `m.x.x`. -/
  | major (m : Int)
  /-- The pattern `m.n.x`. -/
  | minor (m n : Int)
  /-- Nothing yet. -/
  | blank
  deriving DecidableEq, Repr

/-- A condition on versions. -/
inductive Clause
  /-- A target without an operator. -/
  | bare (target : Target)
  /-- A target after a tilde or a caret. -/
  | shorthand (sign : Option Shorthand) (target : Target)
  /-- A target after a comparison operator. -/
  | compare (op : Option Op) (target : Target)
  /-- Nothing yet. -/
  | blank
  deriving DecidableEq, Repr

/-- One alternative of a formula. -/
inductive Range
  /-- All the clauses hold. -/
  | all (clauses : List Clause)
  /-- Between two targets, both included. -/
  | between (lower upper : Target)
  /-- Nothing yet. -/
  | blank
  deriving DecidableEq, Repr

/-- A disjunction of ranges. -/
structure Formula where
  /-- The alternatives, in order. -/
  ranges : List Range
  deriving DecidableEq, Repr

/-- The formula `*`, which an empty text stands for. -/
def Formula.any : Formula := ⟨[.all [.bare .any]]⟩

end SemverRange
