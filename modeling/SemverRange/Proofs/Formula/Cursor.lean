import SemverRange.Proofs.Formula.Refusal

/-!
# Reading with a cursor

The same grammar, read with an index into a row of cells.  Each cell names the kind of its token
and holds its text, and behind the tokens stands a cell for the end of the text.  So much can go
wrong here that the reading functions on lists of tokens have no room for: a cell can be looked
up where there is none, the text of an operator can be no operator, and a loop can go on without
end.  Each of these is a mishap of its own.

## Main definitions

* `Cell`, `Tokens.cells` — the tokens with their texts, and the end.
* `Mishap` — what can go wrong with a cursor.
* `Cursor.formula`, `Cursor.version` — reading with a cursor.
* `readByCursor` — the cells of a text, read by a cursor.
* `Cursor.Sees` — what there is to see at an index.

## Main results

* `Cursor.RunsOver.sees` — up to the end there is something to see at every index.
-/

namespace SemverRange

/-! ### Cells -/

/-- A token as a cursor sees it. -/
structure Cell where
  /-- The name of the kind of token. -/
  kind : String
  /-- The text of the token. -/
  text : List Char
  /-- The number of characters before it. -/
  pos : ℕ

/-- The place of the cell as a reader of the text sees it. -/
def Cell.place (a : Cell) : Place :=
  if a.kind = "EOF" then .endOfInput
  else if a.kind = "AND" then .blanks a.pos
  else .piece (strip a.text) a.pos

/-- The token as a cell. -/
def Token.cell (t : Token) : Cell := ⟨t.lexeme.kind, t.lexeme.text, t.pos⟩

/-- The cell behind the tokens. -/
def Tokens.endCell (ts : Tokens) : Cell := ⟨"EOF", [], ts.stop⟩

/-- All the cells of a text. -/
def Tokens.cells (ts : Tokens) : List Cell := ts.toList.map Token.cell ++ [ts.endCell]

/-- The operator with the given sign. -/
def Op.ofSign? (cs : List Char) : Option Op :=
  [eq, lt, le, gt, ge].find? (·.sign = cs)

/-- The shorthand with the given sign. -/
def Shorthand.ofSign? (cs : List Char) : Option Shorthand :=
  [tilde, caret].find? (·.sign = cs)

@[simp] theorem Op.ofSign?_sign (o : Op) : ofSign? o.sign = some o := by
  cases o <;> decide

@[simp] theorem Shorthand.ofSign?_sign (s : Shorthand) : ofSign? s.sign = some s := by
  cases s <;> decide

/-- What can go wrong with a cursor. -/
inductive Mishap
  /-- The text is refused. -/
  | ofFault (f : Fault)
  /-- A cell is looked up where there is none. -/
  | outOfRange
  /-- The text of an operator is the sign of none. -/
  | unknownSign (text : List Char)
  /-- A loop goes on for more rounds than there are cells. -/
  | endless
  deriving DecidableEq, Repr

/-- What a cursor runs over. -/
structure Cursor where
  /-- The whole text. -/
  text : String
  /-- What the text is read as. -/
  goal : Goal
  /-- The cells of the text. -/
  cells : List Cell

namespace Cursor

/-! ### Reading functions -/

section Functions

variable (c : Cursor)

/-- The cell at the index. -/
def peek (i : ℕ) : Except Mishap Cell :=
  match c.cells[i]? with
  | some a => .ok a
  | none => .error .outOfRange

/-- The cell at the index, which moves on if this is not the end. -/
def advance (i : ℕ) : Except Mishap (Cell × ℕ) := do
  let a ← c.peek i
  pure (a, if a.kind = "EOF" then i else i + 1)

/-- The cell before the index. -/
def back : ℕ → Except Mishap Cell
  | 0 => .error .outOfRange
  | i + 1 => c.peek i

/-- The text is refused at the cell. -/
def refusal (a : Cell) (complaint : Complaint) : Mishap :=
  .ofFault (.ofSyntax ⟨c.text, .misplaced c.goal a.place complaint⟩)

/-- The number that the text of a cell stands for. -/
def numeral (ds : List Char) : Except Mishap ℕ :=
  (Numeral.read ds).mapError fun f => .ofFault (.ofNumeral f)

/-- The operator that the text of a cell is the sign of. -/
def sign {α : Type} (ofSign? : List Char → Option α) (cs : List Char) : Except Mishap α :=
  match ofSign? cs with
  | some a => .ok a
  | none => .error (.unknownSign cs)

/-- A number or a wildcard. -/
def part (i : ℕ) : Except Mishap (Part × ℕ) := do
  let (a, i) ← c.advance i
  if a.kind = "NUM" then do
    let n ← numeral a.text
    pure (.number n, i)
  else if a.kind = "WILDCARD" then pure (.wildcard, i)
  else throw (c.refusal a .partExpected)

/-- At most `n` further parts, each after a dot.  The cell is looked at even if there are parts
enough. -/
def parts : ℕ → ℕ → Except Mishap (List Part × ℕ)
  | n, i => do
    let a ← c.peek i
    match n with
    | n + 1 =>
      if a.kind = "DOT" then do
        let (_, i) ← c.advance i
        let (p, i) ← c.part i
        let (ps, i) ← parts n i
        pure (p :: ps, i)
      else pure ([], i)
    | 0 => pure ([], i)

/-- An identifier of a prerelease.  Digits alone make a number. -/
def identifier (cs : List Char) : Except Mishap Identifier :=
  if cs ≠ [] ∧ cs.all Char.isDigit then do
    let n ← numeral cs
    pure (.num n)
  else pure (.alpha (String.ofList cs))

/-- The identifiers of a prerelease, or none. -/
def prerelease (i : ℕ) : Except Mishap (List Identifier × ℕ) := do
  let a ← c.peek i
  if a.kind = "PRE" then do
    let (a, i) ← c.advance i
    let is ← ((a.text.drop 1).splitOn '.').mapM identifier
    pure (is, i)
  else pure ([], i)

/-- The identifiers of the build metadata, or none. -/
def build (i : ℕ) : Except Mishap (List String × ℕ) := do
  let a ← c.peek i
  if a.kind = "BUILD" then do
    let (a, i) ← c.advance i
    pure (((a.text.drop 1).splitOn '.').map String.ofList, i)
  else pure ([], i)

/-- What the parts of a target make of it. -/
def finish (ps : List Part) (i : ℕ) : Except Mishap (Target × ℕ) :=
  if Part.numberAfterWildcard ps then do
    let a ← c.back i
    throw (c.refusal a .numberAfterWildcard)
  else
    match ps.filterMap Part.number? with
    | [major, minor, patch] => do
      let (pre, i) ← c.prerelease i
      let (data, i) ← c.build i
      let v ← (Version.ofParts? major minor patch pre data).mapError
        fun d => Mishap.ofFault (.ofVersion d)
      pure (.version v, i)
    | ns => do
      let a ← c.peek i
      if a.kind = "PRE" ∨ a.kind = "BUILD" then throw (c.refusal a .attachedToPartial)
      else pure (.ofNumbers ns, i)

/-- The index behind the letter that may come before a version. -/
def skipV (i : ℕ) : Except Mishap ℕ := do
  let a ← c.peek i
  if a.kind = "V" then do
    let (_, i) ← c.advance i
    pure i
  else pure i

/-- A version or a pattern. -/
def target (i : ℕ) : Except Mishap (Target × ℕ) := do
  let i ← c.skipV i
  let (p, i) ← c.part i
  let (ps, i) ← c.parts 2 i
  c.finish (p :: ps) i

/-- A target with the operator before it, if there is one. -/
def clause (i : ℕ) : Except Mishap (Clause × ℕ) := do
  let a ← c.peek i
  if a.kind = "OP" then do
    let (_, i) ← c.advance i
    let o ← sign Op.ofSign? a.text
    let (t, i) ← c.target i
    pure (.compare (some o) t, i)
  else if a.kind = "SPEC" then do
    let (_, i) ← c.advance i
    let s ← sign Shorthand.ofSign? a.text
    let (t, i) ← c.target i
    pure (.shorthand (some s) t, i)
  else do
    let (t, i) ← c.target i
    pure (.bare t, i)

/-- Further clauses, each after white space, in so many rounds. -/
def clauses : ℕ → ℕ → Except Mishap (List Clause × ℕ)
  | 0, _ => throw .endless
  | n + 1, i => do
    let a ← c.peek i
    if a.kind = "AND" then do
      let (_, i) ← c.advance i
      let (d, i) ← c.clause i
      let (ds, i) ← clauses n i
      pure (d :: ds, i)
    else pure ([], i)

/-- What follows the first target of a range. -/
def rangeAfter (t : Target) (i : ℕ) : Except Mishap (Range × ℕ) := do
  let a ← c.peek i
  if a.kind = "DASH" then do
    let (_, i) ← c.advance i
    let (u, i) ← c.target i
    pure (.between t u, i)
  else do
    let (ds, i) ← c.clauses c.cells.length i
    pure (.all (.bare t :: ds), i)

/-- Clauses, or two targets with a dash between them. -/
def range (i : ℕ) : Except Mishap (Range × ℕ) := do
  let a ← c.peek i
  if a.kind = "OP" ∨ a.kind = "SPEC" then do
    let (d, i) ← c.clause i
    let (ds, i) ← c.clauses c.cells.length i
    pure (.all (d :: ds), i)
  else do
    let (t, i) ← c.target i
    c.rangeAfter t i

/-- Further ranges, each after a bar, in so many rounds. -/
def ranges : ℕ → ℕ → Except Mishap (List Range × ℕ)
  | 0, _ => throw .endless
  | n + 1, i => do
    let a ← c.peek i
    if a.kind = "OR" then do
      let (_, i) ← c.advance i
      let (r, i) ← c.range i
      let (rs, i) ← ranges n i
      pure (r :: rs, i)
    else pure ([], i)

/-- The index is at the end. -/
def done (i : ℕ) : Except Mishap Unit := do
  let a ← c.peek i
  if a.kind = "EOF" then pure () else throw (c.refusal a .unexpected)

/-- All the cells as a formula. -/
def formula : Except Mishap Formula := do
  let a ← c.peek 0
  if a.kind = "EOF" then pure Formula.any
  else do
    let (r, i) ← c.range 0
    let (rs, i) ← c.ranges c.cells.length i
    c.done i
    pure ⟨r :: rs⟩

/-- All the cells as a version. -/
def version : Except Mishap Version := do
  let start ← c.peek 0
  let (t, i) ← c.target 0
  match t with
  | .version v => do
    c.done i
    pure v
  | _ => do
    let a ← c.peek i
    let fragment := (c.text.toList.drop start.pos).take (a.pos - start.pos)
    throw (c.refusal a (.incomplete fragment))

end Functions

/-! ### What is before the cursor -/

/-- The cursor runs over the cells of the tokens, which are sound. -/
structure RunsOver (c : Cursor) (ts : Tokens) : Prop where
  /-- The cells are those of the tokens. -/
  cells : c.cells = ts.cells
  /-- The tokens are sound. -/
  sound : SoundTokens c.text.toList ts.toList

/-- What there is to see at an index: a token, behind which the cursor moves on, or the end,
where it stays. -/
inductive Sees (c : Cursor) (ts : Tokens) (i : ℕ) : Prop
  | token (t : Token) : ts.toList.drop i = t :: ts.toList.drop (i + 1) → i < ts.toList.length →
      c.peek i = .ok t.cell → c.advance i = .ok (t.cell, i + 1) → Sees c ts i
  | atEnd : ts.toList.drop i = [] → c.peek i = .ok ts.endCell → c.advance i = .ok (ts.endCell, i) →
      Sees c ts i

theorem kind_ne_eof (l : Lexeme) : l.kind ≠ "EOF" := by
  cases l <;> simp [Lexeme.kind]

/-- Up to the end there is something to see at every index. -/
theorem RunsOver.sees {c : Cursor} {ts : Tokens} (hc : c.RunsOver ts) {i : ℕ}
    (hi : i ≤ ts.toList.length) : Sees c ts i := by
  rcases Nat.lt_or_eq_of_le hi with hlt | rfl
  · have hpeek : c.peek i = .ok ts.toList[i].cell := by
      have hcell : c.cells[i]? = some ts.toList[i].cell := by
        rw [hc.cells, Tokens.cells, List.getElem?_append_left (by simpa using hlt),
          List.getElem?_map, List.getElem?_eq_getElem hlt]
        rfl
      rw [peek, hcell]
    refine .token ts.toList[i] (List.drop_eq_getElem_cons hlt) hlt hpeek ?_
    have hkind : ts.toList[i].cell.kind ≠ "EOF" := kind_ne_eof _
    rw [advance, hpeek]
    show Except.ok (_, if ts.toList[i].cell.kind = "EOF" then i else i + 1) = _
    rw [if_neg hkind]
  · have hpeek : c.peek ts.toList.length = .ok ts.endCell := by
      have hcell : c.cells[ts.toList.length]? = some ts.endCell := by
        rw [hc.cells, Tokens.cells, List.getElem?_append_right (by simp)]
        simp
      rw [peek, hcell]
    refine .atEnd List.drop_length hpeek ?_
    rw [advance, hpeek]
    rfl

end Cursor

/-- The cells of the text, read by a cursor. -/
def readByCursor {α : Type} (goal : Goal) (read : Cursor → Except Mishap α) (text : String) :
    Except Mishap α := do
  let ts ← (tokenize text).mapError fun f => Mishap.ofFault (.ofSyntax f)
  read ⟨text, goal, ts.cells⟩

end SemverRange
