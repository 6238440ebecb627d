import SemverRange.Fault
import SemverRange.Formula.Basic
import SemverRange.Text.Blank

/-!
# Tokens of a formula

A text is cut into tokens from left to right.  White space is part of the token
around a `||` and around a dash that stands alone; between two clauses it is a
token of its own; anywhere else it is dropped.  A dash or a plus sign directly
after a number starts a prerelease or a build part.

## Main definitions

* `Lexeme`, `Token` — the kinds of token with their text, and a token in its place.
* `dotted` — the longest list of identifiers joined by dots at the head of a text.
* `Lexeme.scan` — the first token of a text, given the one before it.
* `Token.scanFrom`, `tokenize` — the tokens of a text.

## Main results

* `Lexeme.text_scan` — a token and what follows it are the whole text.
* `Lexeme.length_scan` — no token is empty.
-/

namespace SemverRange

/-- A token without its place. -/
inductive Lexeme
  /-- `||` with the white space around it. -/
  | or (text : List Char)
  /-- White space between two clauses. -/
  | and (text : List Char)
  /-- A dash with the white space around it. -/
  | dash (text : List Char)
  /-- A comparison operator. -/
  | op (o : Op)
  /-- A tilde or a caret. -/
  | shorthand (s : Shorthand)
  /-- The letter that may come before a version. -/
  | v (c : Char)
  /-- A run of digits. -/
  | num (digits : List Char)
  /-- A single dot. -/
  | dot
  /-- `x`, `X` or `*`. -/
  | wildcard (c : Char)
  /-- A dash and the identifiers of a prerelease. -/
  | prerelease (ids : List (List Char))
  /-- A plus sign and the identifiers of the build metadata. -/
  | build (ids : List (List Char))
  deriving DecidableEq, Repr

/-- A token in its place. -/
structure Token where
  /-- What stands there. -/
  lexeme : Lexeme
  /-- The number of characters before it. -/
  pos : Nat
  deriving DecidableEq, Repr

/-- The tokens of a whole text. -/
structure Tokens where
  /-- The tokens in order. -/
  toList : List Token
  /-- The place where the text ends. -/
  stop : Nat
  deriving DecidableEq, Repr

namespace Lexeme

/-- The text that the token stands for. -/
def text : Lexeme → List Char
  | or cs => cs
  | and cs => cs
  | dash cs => cs
  | op o => o.sign
  | shorthand s => s.sign
  | v c => [c]
  | num ds => ds
  | dot => ['.']
  | wildcard c => [c]
  | prerelease ids => '-' :: ['.'].intercalate ids
  | build ids => '+' :: ['.'].intercalate ids

/-- The name of the kind of token. -/
def kind : Lexeme → String
  | or _ => "OR"
  | and _ => "AND"
  | dash _ => "DASH"
  | op _ => "OP"
  | shorthand _ => "SPEC"
  | v _ => "V"
  | num _ => "NUM"
  | dot => "DOT"
  | wildcard _ => "WILDCARD"
  | prerelease _ => "PRE"
  | build _ => "BUILD"

/-- White space after this token has no meaning. -/
def absorbsBlanks : Lexeme → Bool
  | or _ | dash _ | op _ | shorthand _ => true
  | _ => false

/-- The token is white space between two clauses. -/
def isAnd : Lexeme → Bool
  | and _ => true
  | _ => false

end Lexeme

/-- The character can stand in an identifier. -/
def isIdentifierChar (c : Char) : Bool := c.isAlphanum || c = '-'

/-- The longest list of identifiers joined by dots at the head of a text, and what
follows it.  A dot without an identifier after it is not part of the list. -/
def dotted (cs : List Char) : Option (List (List Char) × List Char) :=
  if cs.takeWhile isIdentifierChar = [] then none
  else
    match _h : cs.dropWhile isIdentifierChar with
    | '.' :: rest =>
      match dotted rest with
      | some (ids, tail) => some (cs.takeWhile isIdentifierChar :: ids, tail)
      | none => some ([cs.takeWhile isIdentifierChar], '.' :: rest)
    | rest => some ([cs.takeWhile isIdentifierChar], rest)
termination_by cs.length
decreasing_by
  have h := (List.dropWhile_suffix (l := cs) isIdentifierChar).length_le
  rw [_h] at h
  exact h

/-- A list of identifiers is not empty, and it is the text before what follows it. -/
theorem intercalate_append_of_dotted {cs : List Char} {ids : List (List Char)} {rest : List Char}
    (h : dotted cs = some (ids, rest)) : ids ≠ [] ∧ ['.'].intercalate ids ++ rest = cs := by
  induction cs using dotted.induct generalizing ids rest with
  | case1 cs hnil => rw [dotted, if_pos hnil] at h; cases h
  | case2 cs hne r hr ids' tail hd ih =>
    rw [dotted, if_neg hne] at h
    split at h
    · next r' hr' =>
      rw [hr] at hr'
      cases hr'
      rw [hd] at h
      cases h
      obtain ⟨hids, hjoin⟩ := ih hd
      refine ⟨by simp, Eq.trans ?_ (List.takeWhile_append_dropWhile (p := isIdentifierChar))⟩
      cases ids' with
      | nil => exact absurd rfl hids
      | cons i is => simp [List.intercalate, hr, ← hjoin]
    · next hx => exact absurd hr (hx r)
  | case3 cs hne r hr hd _ =>
    rw [dotted, if_neg hne] at h
    split at h
    · next r' hr' =>
      rw [hr] at hr'
      cases hr'
      rw [hd] at h
      cases h
      refine ⟨by simp, ?_⟩
      simp [List.intercalate, ← hr]
    · next hx => exact absurd hr (hx r)
  | case4 cs hne hx =>
    rw [dotted, if_neg hne] at h
    split at h
    · next r hr => exact absurd hr (hx r)
    · cases h
      refine ⟨by simp, ?_⟩
      simp [List.intercalate]

namespace Lexeme

/-- The prerelease or build part that continues a version: a prerelease only
directly after a number, build metadata after a number or a prerelease. -/
def scanAttached : Option Lexeme → List Char → Option (Lexeme × List Char)
  | some (num _), '-' :: cs => (dotted cs).map fun (ids, rest) => (prerelease ids, rest)
  | some (num _), '+' :: cs | some (prerelease _), '+' :: cs =>
    (dotted cs).map fun (ids, rest) => (build ids, rest)
  | _, _ => none

/-- A token that starts with a character other than white space. -/
def scanSolid : List Char → Option (Lexeme × List Char)
  | '>' :: '=' :: cs => some (op .ge, cs)
  | '<' :: '=' :: cs => some (op .le, cs)
  | '>' :: cs => some (op .gt, cs)
  | '<' :: cs => some (op .lt, cs)
  | '=' :: cs => some (op .eq, cs)
  | '~' :: cs => some (shorthand .tilde, cs)
  | '^' :: cs => some (shorthand .caret, cs)
  | '.' :: cs => some (dot, cs)
  | c :: cs =>
    if c.isDigit then some (num (c :: cs.takeWhile Char.isDigit), cs.dropWhile Char.isDigit)
    else if c = 'x' || c = 'X' || c = '*' then some (wildcard c, cs)
    else if c = 'v' || c = 'V' then some (v c, cs)
    else none
  | [] => none

/-- A token after the white space `blanks`, of which `cs` starts with no more. -/
def scanAfter (blanks cs : List Char) : Option (Lexeme × List Char) :=
  match cs with
  | '|' :: '|' :: rest =>
    some (or (blanks ++ '|' :: '|' :: rest.takeWhile isBlank), rest.dropWhile isBlank)
  | '-' :: rest =>
    if blanks = [] then none
    else if rest.takeWhile isBlank = [] then some (and blanks, cs)
    else some (dash (blanks ++ '-' :: rest.takeWhile isBlank), rest.dropWhile isBlank)
  | _ => if blanks = [] then scanSolid cs else some (and blanks, cs)

/-- The first token of a text, and what follows it; `previous` is the token before it,
which decides what a dash or a plus sign means. -/
def scan (previous : Option Lexeme) (cs : List Char) : Option (Lexeme × List Char) :=
  match scanAttached previous cs with
  | some found => some found
  | none => scanAfter (cs.takeWhile isBlank) (cs.dropWhile isBlank)

theorem text_scanAttached {previous : Option Lexeme} {cs rest : List Char} {l : Lexeme}
    (h : scanAttached previous cs = some (l, rest)) : l.text ≠ [] ∧ l.text ++ rest = cs := by
  unfold scanAttached at h
  split at h
  all_goals
    first
    | cases h
    | obtain ⟨⟨ids, tail⟩, hd, heq⟩ := Option.map_eq_some_iff.1 h
      cases heq
      exact ⟨by simp [text], by simp [text, (intercalate_append_of_dotted hd).2]⟩

theorem text_scanSolid {cs rest : List Char} {l : Lexeme} (h : scanSolid cs = some (l, rest)) :
    l.text ≠ [] ∧ l.text ++ rest = cs := by
  unfold scanSolid at h
  split at h
  all_goals
    first
    | cases h
      exact ⟨by simp [text, Op.sign, Shorthand.sign], rfl⟩
    | skip
  next c cs _ _ _ _ _ _ _ _ =>
    split at h
    · cases h
      exact ⟨by simp [text], by simp [text]⟩
    · split at h
      · cases h
        exact ⟨by simp [text], rfl⟩
      · split at h
        · cases h
          exact ⟨by simp [text], rfl⟩
        · cases h
  · cases h

theorem text_scanAfter {blanks cs rest : List Char} {l : Lexeme}
    (h : scanAfter blanks cs = some (l, rest)) :
    l.text ≠ [] ∧ l.text ++ rest = blanks ++ cs := by
  unfold scanAfter at h
  split at h
  · cases h
    exact ⟨by simp [text], by simp [text]⟩
  · split at h
    · cases h
    · next hne =>
      split at h
      · cases h
        exact ⟨by simpa [text] using hne, rfl⟩
      · cases h
        exact ⟨by simp [text], by simp [text]⟩
  · split at h
    · next hnil =>
      rw [hnil]
      exact text_scanSolid h
    · next hne =>
      cases h
      exact ⟨by simpa [text] using hne, rfl⟩

/-- A token is not empty, and it is the text before what follows it. -/
theorem text_scan {previous : Option Lexeme} {cs rest : List Char} {l : Lexeme}
    (h : scan previous cs = some (l, rest)) : l.text ≠ [] ∧ l.text ++ rest = cs := by
  unfold scan at h
  split at h
  · next found hf =>
    cases h
    exact text_scanAttached hf
  · rw [← List.takeWhile_append_dropWhile (p := isBlank) (l := cs)]
    exact text_scanAfter h

/-- What follows a token is shorter than the text. -/
theorem length_scan {previous : Option Lexeme} {cs rest : List Char} {l : Lexeme}
    (h : scan previous cs = some (l, rest)) : rest.length < cs.length := by
  obtain ⟨hne, heq⟩ := text_scan h
  rw [← heq, List.length_append]
  have := List.length_pos_iff.2 hne
  omega

end Lexeme

namespace Token

/-- A character that starts no token, and the number of characters before it. -/
structure Stray where
  /-- The character. -/
  char : Char
  /-- Its place. -/
  pos : Nat
  deriving DecidableEq, Repr

/-- White space between clauses is dropped where no two clauses meet: at the start,
after a token that takes it up, and at the end. -/
def isDropped (previous : Option Lexeme) (l : Lexeme) (rest : List Char) : Bool :=
  l.isAnd && (previous.all Lexeme.absorbsBlanks || rest.isEmpty)

/-- The tokens of the text `cs`, which stands after `pos` characters and the token
`previous`. -/
def scanFrom (previous : Option Lexeme) (pos : Nat) (cs : List Char) :
    Except Stray (List Token) :=
  match cs with
  | [] => .ok []
  | c :: cs =>
    match _h : Lexeme.scan previous (c :: cs) with
    | none => .error ⟨c, pos⟩
    | some (l, rest) =>
      if isDropped previous l rest then scanFrom previous (pos + l.text.length) rest
      else (⟨l, pos⟩ :: ·) <$> scanFrom (some l) (pos + l.text.length) rest
termination_by cs.length
decreasing_by
  all_goals exact Lexeme.length_scan _h

/-- The place of a token as a reader of the text sees it. -/
def place (t : Token) : Place :=
  if t.lexeme.isAnd then .blanks t.pos else .piece (strip t.lexeme.text) t.pos

end Token

/-- The tokens of a text. -/
def tokenize (source : String) : Except SyntaxFault Tokens :=
  match Token.scanFrom none 0 source.toList with
  | .ok ts => .ok ⟨ts, source.length⟩
  | .error s => .error ⟨source, .stray s.char s.pos⟩

end SemverRange
