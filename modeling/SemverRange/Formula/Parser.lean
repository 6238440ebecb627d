import SemverRange.Formula.Token

/-!
# Reading formulas and versions

The grammar of a formula, over tokens:

    formula := range (or range)*
    range   := clause (and clause)* | target dash target
    clause  := target | op target | shorthand target
    target  := [v] part (dot part (dot part [prerelease] [build])?)?
    part    := num | wildcard

No tokens at all stand for the formula `*`.  After a wildcard there is no number,
and a prerelease or build part follows three numbers only.  A version is a target
that is a version, with nothing after it.

Each reading function takes the tokens that are left and gives what it read with
the tokens that are left then.

## Main definitions

* `Stop` — why the tokens are refused.
* `Read.part`, `Read.target`, `Read.clause`, `Read.range`, `Read.formula` — the
  reading functions.
* `Formula.parse`, `Version.parse` — a formula and a version from a text.

## Main results

* `Read.length_target`, `Read.length_range` — reading uses up at least one token.
-/

namespace SemverRange

/-- If one step after another succeeds, both do. -/
theorem bind_eq_ok {ε α β : Type} {x : Except ε α} {f : α → Except ε β} {b : β}
    (h : x >>= f = .ok b) : ∃ a, x = .ok a ∧ f a = .ok b := by
  cases x with
  | error e => cases h
  | ok a => exact ⟨a, rfl, h⟩

/-- Why the tokens are refused. -/
inductive Stop
  /-- A token cannot stand where it does; `none` is the end of the text. -/
  | misplaced (found : Option Token) (complaint : Complaint)
  /-- A numeral is too long. -/
  | ofNumeral (f : Numeral.Fault)
  /-- The parts make no version. -/
  | ofVersion (d : Version.Defect)
  deriving DecidableEq, Repr

/-- One of the dot-separated parts of a target. -/
inductive Part
  | number (n : Nat)
  | wildcard
  deriving DecidableEq, Repr

namespace Part

/-- The number of the part, if it has one. -/
def number? : Part → Option Nat
  | number n => some n
  | wildcard => none

/-- Some number comes after a wildcard. -/
def numberAfterWildcard (ps : List Part) : Bool :=
  (ps.dropWhile (· ≠ wildcard)).any (· ≠ wildcard)

end Part

/-- A pattern with the given numbers, of which there are fewer than three. -/
def Target.ofNumbers : List Nat → Target
  | [] => .any
  | [m] => .major m
  | m :: n :: _ => .minor m n

namespace Read

/-- The fault of a numeral as a reason to stop. -/
def numeral (ds : List Char) : Except Stop Nat :=
  (Numeral.read ds).mapError .ofNumeral

/-- A number or a wildcard, with its token. -/
def part : List Token → Except Stop ((Part × Token) × List Token)
  | t :: ts =>
    match t.lexeme with
    | .num ds => do
      let n ← numeral ds
      pure ((.number n, t), ts)
    | .wildcard _ => pure ((.wildcard, t), ts)
    | _ => throw (.misplaced (some t) .partExpected)
  | [] => throw (.misplaced none .partExpected)

/-- At most `n` further parts, each after a dot, with the last token that was read;
`last` is the one before. -/
def parts : Nat → Token → List Token → Except Stop ((List Part × Token) × List Token)
  | n + 1, last, t :: ts =>
    if t.lexeme = .dot then do
      let ((p, last), ts) ← part ts
      let ((ps, last), ts) ← parts n last ts
      pure ((p :: ps, last), ts)
    else pure (([], last), t :: ts)
  | _, last, ts => pure (([], last), ts)

/-- An identifier of a prerelease.  Digits alone make a number. -/
def identifier (cs : List Char) : Except Stop Identifier :=
  if cs.all Char.isDigit then do
    let n ← numeral cs
    pure (.num n)
  else pure (.alpha (String.ofList cs))

/-- The identifiers of a prerelease, or none. -/
def prerelease : List Token → Except Stop (List Identifier × List Token)
  | ⟨.prerelease ids, _⟩ :: ts => do
    let is ← ids.mapM identifier
    pure (is, ts)
  | ts => pure ([], ts)

/-- The identifiers of the build metadata, or none. -/
def build : List Token → List String × List Token
  | ⟨.build ids, _⟩ :: ts => (ids.map String.ofList, ts)
  | ts => ([], ts)

/-- The tokens start with a prerelease or build part. -/
def startsAttached : List Token → Bool
  | ⟨.prerelease _, _⟩ :: _ | ⟨.build _, _⟩ :: _ => true
  | _ => false

/-- What the parts of a target make of it.  Only three numbers take a prerelease
and a build part. -/
def finish (ps : List Part) (last : Token) (ts : List Token) :
    Except Stop (Target × List Token) :=
  if Part.numberAfterWildcard ps then throw (.misplaced (some last) .numberAfterWildcard)
  else
    match ps.filterMap Part.number? with
    | [major, minor, patch] => do
      let (pre, ts) ← prerelease ts
      let (data, ts) := build ts
      let v ← (Version.ofParts? major minor patch pre data).mapError .ofVersion
      pure (.version v, ts)
    | ns =>
      if startsAttached ts then throw (.misplaced ts.head? .attachedToPartial)
      else pure (.ofNumbers ns, ts)

/-- The tokens without the letter that may come before a version. -/
def skipV : List Token → List Token
  | ⟨.v _, _⟩ :: ts => ts
  | ts => ts

/-- A version or a pattern. -/
def target (ts : List Token) : Except Stop (Target × List Token) := do
  let ((p, last), ts) ← part (skipV ts)
  let ((ps, last), ts) ← parts 2 last ts
  finish (p :: ps) last ts

/-- A target with the operator before it, if there is one. -/
def clause : List Token → Except Stop (Clause × List Token)
  | ⟨.op o, _⟩ :: ts => do
    let (t, ts) ← target ts
    pure (.compare (some o) t, ts)
  | ⟨.shorthand s, _⟩ :: ts => do
    let (t, ts) ← target ts
    pure (.shorthand (some s) t, ts)
  | ts => do
    let (t, ts) ← target ts
    pure (.bare t, ts)

theorem length_part {ts rest : List Token} {x : Part × Token} (h : part ts = .ok (x, rest)) :
    rest.length < ts.length := by
  unfold part at h
  split at h
  · split at h
    · obtain ⟨n, _, h⟩ := bind_eq_ok h
      cases h
      exact Nat.lt_succ_self _
    · cases h
      exact Nat.lt_succ_self _
    · cases h
  · cases h

theorem length_parts {n : Nat} {last : Token} {ts rest : List Token} {x : List Part × Token}
    (h : parts n last ts = .ok (x, rest)) : rest.length ≤ ts.length := by
  induction n generalizing last ts rest x with
  | zero =>
    cases h
    exact Nat.le_refl _
  | succ n ih =>
    cases ts with
    | nil =>
      cases h
      exact Nat.le_refl _
    | cons t ts =>
      simp only [parts] at h
      split at h
      · obtain ⟨⟨⟨p, last'⟩, ts'⟩, hpart, h⟩ := bind_eq_ok h
        obtain ⟨⟨⟨ps, last''⟩, ts''⟩, hparts, h⟩ := bind_eq_ok h
        cases h
        exact Nat.le_succ_of_le (Nat.le_of_lt (Nat.lt_of_le_of_lt (ih hparts) (length_part hpart)))
      · cases h
        exact Nat.le_refl _

theorem length_prerelease {ts rest : List Token} {is : List Identifier}
    (h : prerelease ts = .ok (is, rest)) : rest.length ≤ ts.length := by
  unfold prerelease at h
  split at h
  · obtain ⟨is', _, h⟩ := bind_eq_ok h
    cases h
    exact Nat.le_succ _
  · cases h
    exact Nat.le_refl _

theorem length_build (ts : List Token) : (build ts).2.length ≤ ts.length := by
  unfold build
  split <;> simp

theorem length_finish {ps : List Part} {last : Token} {ts rest : List Token} {t : Target}
    (h : finish ps last ts = .ok (t, rest)) : rest.length ≤ ts.length := by
  unfold finish at h
  split at h
  · cases h
  · split at h
    · obtain ⟨⟨pre, ts'⟩, hpre, h⟩ := bind_eq_ok h
      obtain ⟨v, _, h⟩ := bind_eq_ok h
      cases h
      exact Nat.le_trans (length_build ts') (length_prerelease hpre)
    · split at h
      · cases h
      · cases h
        exact Nat.le_refl _

theorem length_skipV (ts : List Token) : (skipV ts).length ≤ ts.length := by
  unfold skipV
  split <;> simp

/-- Reading a target uses up at least one token. -/
theorem length_target {ts rest : List Token} {t : Target} (h : target ts = .ok (t, rest)) :
    rest.length < ts.length := by
  obtain ⟨⟨⟨p, last⟩, ts'⟩, hpart, h⟩ := bind_eq_ok h
  obtain ⟨⟨⟨ps, last'⟩, ts''⟩, hparts, h⟩ := bind_eq_ok h
  have h1 : rest.length ≤ ts'.length := Nat.le_trans (length_finish h) (length_parts hparts)
  exact Nat.lt_of_le_of_lt h1 (Nat.lt_of_lt_of_le (length_part hpart) (length_skipV ts))

/-- Reading a target and wrapping it uses up at least one token. -/
theorem length_wrapTarget {α : Type} {f : Target → α} {ts rest : List Token} {a : α}
    (h : (do let (t, ts) ← target ts; pure (f t, ts) : Except Stop (α × List Token)) =
      .ok (a, rest)) :
    rest.length < ts.length := by
  obtain ⟨⟨t, ts'⟩, ht, h⟩ := bind_eq_ok h
  cases h
  exact length_target ht

/-- Reading a clause uses up at least one token. -/
theorem length_clause {ts rest : List Token} {c : Clause} (h : clause ts = .ok (c, rest)) :
    rest.length < ts.length := by
  unfold clause at h
  split at h
  · exact Nat.lt_succ_of_lt (length_wrapTarget h)
  · exact Nat.lt_succ_of_lt (length_wrapTarget h)
  · exact length_wrapTarget h

/-- Further clauses, each after white space. -/
def clauses (ts : List Token) : Except Stop (List Clause × List Token) :=
  match ts with
  | ⟨.and _, _⟩ :: ts =>
    match _h : clause ts with
    | .error e => .error e
    | .ok (c, rest) => do
      let (cs, rest) ← clauses rest
      pure (c :: cs, rest)
  | ts => pure ([], ts)
termination_by ts.length
decreasing_by exact Nat.lt_succ_of_lt (length_clause _h)

/-- What follows the first target of a range: a dash and another target, or further
clauses. -/
def rangeAfter (t : Target) : List Token → Except Stop (Range × List Token)
  | ⟨.dash _, _⟩ :: ts => do
    let (u, ts) ← target ts
    pure (.between t u, ts)
  | ts => do
    let (cs, ts) ← clauses ts
    pure (.all (.bare t :: cs), ts)

/-- The tokens start with an operator. -/
def startsOperator : List Token → Bool
  | ⟨.op _, _⟩ :: _ | ⟨.shorthand _, _⟩ :: _ => true
  | _ => false

/-- Clauses, or two targets with a dash between them. -/
def range (ts : List Token) : Except Stop (Range × List Token) :=
  if startsOperator ts then do
    let (c, ts) ← clause ts
    let (cs, ts) ← clauses ts
    pure (.all (c :: cs), ts)
  else do
    let (t, ts) ← target ts
    rangeAfter t ts

theorem length_clauses {ts rest : List Token} {cs : List Clause}
    (h : clauses ts = .ok (cs, rest)) : rest.length ≤ ts.length := by
  induction ts using clauses.induct generalizing cs rest with
  | case1 text pos ts e he =>
    rw [clauses] at h
    split at h
    · cases h
    · next c rest' hc =>
      rw [he] at hc
      cases hc
  | case2 text pos ts c rest' hc ih =>
    rw [clauses] at h
    split at h
    · cases h
    · next c' rest'' hc' =>
      rw [hc] at hc'
      cases hc'
      obtain ⟨⟨cs', last⟩, hcs, h⟩ := bind_eq_ok h
      cases h
      have h1 := ih hcs
      have h2 := length_clause hc
      simp only [List.length_cons]
      omega
  | case3 ts hx =>
    rw [clauses] at h
    · cases h
      exact Nat.le_refl _
    · exact hx

theorem length_rangeAfter {t : Target} {ts rest : List Token} {r : Range}
    (h : rangeAfter t ts = .ok (r, rest)) : rest.length ≤ ts.length := by
  unfold rangeAfter at h
  split at h
  · exact Nat.le_succ_of_le (Nat.le_of_lt (length_wrapTarget h))
  · obtain ⟨⟨cs, ts'⟩, hcs, h⟩ := bind_eq_ok h
    cases h
    exact length_clauses hcs

/-- Reading a range uses up at least one token. -/
theorem length_range {ts rest : List Token} {r : Range} (h : range ts = .ok (r, rest)) :
    rest.length < ts.length := by
  unfold range at h
  split at h
  · obtain ⟨⟨c, ts'⟩, hc, h⟩ := bind_eq_ok h
    obtain ⟨⟨cs, ts''⟩, hcs, h⟩ := bind_eq_ok h
    cases h
    exact Nat.lt_of_le_of_lt (length_clauses hcs) (length_clause hc)
  · obtain ⟨⟨t, ts'⟩, ht, h⟩ := bind_eq_ok h
    exact Nat.lt_of_le_of_lt (length_rangeAfter h) (length_target ht)

/-- One or more ranges with `||` between them. -/
def ranges (ts : List Token) : Except Stop (List Range × List Token) :=
  match _h : range ts with
  | .error e => .error e
  | .ok (r, ⟨.or _, _⟩ :: rest) => do
    let (rs, rest) ← ranges rest
    pure (r :: rs, rest)
  | .ok (r, rest) => .ok ([r], rest)
termination_by ts.length
decreasing_by exact Nat.lt_trans (Nat.lt_succ_self _) (length_range _h)

/-- Nothing is left. -/
def done : List Token → Except Stop Unit
  | [] => pure ()
  | t :: _ => throw (.misplaced (some t) .unexpected)

/-- All the tokens as a formula. -/
def formula (ts : List Token) : Except Stop Formula :=
  if ts.isEmpty then pure Formula.any
  else do
    let (rs, rest) ← ranges ts
    done rest
    pure ⟨rs⟩

/-- The position of the first of the tokens, or of the end of the text. -/
def position (stop : Nat) (ts : List Token) : Nat :=
  (ts.head?.map Token.pos).getD stop

/-- All the tokens as a version; `source` and `stop` are the text they come from and
its end. -/
def version (source : List Char) (stop : Nat) (ts : List Token) : Except Stop Version := do
  let (t, rest) ← target ts
  match t with
  | .version v => do
    done rest
    pure v
  | _ =>
    let start := position stop ts
    let fragment := (source.drop start).take (position stop rest - start)
    throw (.misplaced rest.head? (.incomplete fragment))

end Read

/-- The fault that a reason to stop amounts to. -/
def Stop.toFault (source : String) (goal : Goal) : Stop → Fault
  | .misplaced found complaint =>
    let place := (found.map Token.place).getD .endOfInput
    .ofSyntax ⟨source, .misplaced goal place complaint⟩
  | .ofNumeral f => .ofNumeral f
  | .ofVersion d => .ofVersion d

/-- The formula that a text stands for. -/
def Formula.parse (source : String) : Except Fault Formula := do
  let ts ← (tokenize source).mapError .ofSyntax
  (Read.formula ts.toList).mapError (Stop.toFault source .formula)

/-- The version that a text stands for. -/
def Version.parse (source : String) : Except Fault Version := do
  let ts ← (tokenize source).mapError .ofSyntax
  (Read.version source.toList ts.stop ts.toList).mapError (Stop.toFault source .version)

end SemverRange
