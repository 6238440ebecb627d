import SemverRange.Proofs.Formula.Reading

/-!
# An automaton for formulas

The token sequences of formulas are accepted by an automaton without a stack.  Its state tells
which target of a range is at hand, and how much of the target has been read; what it does on a
token depends on the kind of the token only.

A reader goes along with the automaton if the tokens that it leaves are left in a fitting state,
and if the automaton is stuck at the token that it refuses.  One exception is allowed.  A reader
may go on after `*.1.`, although the automaton is stuck at the number, and refuse what comes next.

## Main definitions

* `Automaton.State`, `Automaton.step`, `Automaton.run` — the automaton.
* `Automaton.Accepts` — the tokens are those of a formula.
* `Automaton.Misfit s ts found` — from the state `s`, the tokens `ts` are refused at `found`.
* `Automaton.Tracks` — the outcome of a reader goes along with the automaton.

## Main results

* `Automaton.run_eq_of_kind_eq` — a run depends on the kinds of the tokens only.
* `Automaton.Tracks.bind`, `Automaton.Tracks.append` — one step after another, and tokens that
  were read before.
-/

namespace SemverRange

/-- The numerals in the token that are read as numbers. -/
def Lexeme.numerals : Lexeme → List (List Char)
  | num ds => [ds]
  | prerelease ids => ids.filter fun i => i.all Char.isDigit
  | _ => []

/-- The numerals in the tokens that are read as numbers. -/
def numerals (ts : List Token) : List (List Char) := ts.flatMap fun t => t.lexeme.numerals

@[simp] theorem numerals_nil : numerals [] = [] := rfl

@[simp] theorem numerals_cons (t : Token) (ts : List Token) :
    numerals (t :: ts) = t.lexeme.numerals ++ numerals ts := List.flatMap_cons

@[simp] theorem numerals_append (ts us : List Token) :
    numerals (ts ++ us) = numerals ts ++ numerals us := List.flatMap_append

namespace Automaton

/-! ### States and steps -/

/-- Which target of a range is at hand; this decides what may come after it. -/
inductive Slot
  /-- The target that a range starts with. -/
  | first
  /-- A target after an operator, or after white space. -/
  | further
  /-- The target after a dash. -/
  | upper
  deriving DecidableEq, Repr

/-- How much of a clause or a target has been read. -/
inductive Stage
  /-- A clause must come. -/
  | clause
  /-- A target must come. -/
  | target
  /-- A part must come after `n` parts; `wild` tells whether a wildcard is among these. -/
  | awaiting (n : ℕ) (wild : Bool)
  /-- There are `n` parts; `wild` tells whether a wildcard is among them. -/
  | holding (n : ℕ) (wild : Bool)
  /-- There is a prerelease. -/
  | pre
  /-- There is build metadata. -/
  | build
  deriving DecidableEq, Repr

/-- A state of the automaton. -/
structure State where
  /-- The target at hand. -/
  slot : Slot
  /-- How much of it has been read. -/
  stage : Stage
  deriving DecidableEq, Repr

/-- A range must come. -/
def State.start : State := ⟨.first, .clause⟩

/-- The tokens may end here. -/
def State.closes (s : State) : Bool :=
  match s.stage with
  | .holding _ _ | .pre | .build => true
  | _ => false

/-- A part after `n` others. -/
def part (slot : Slot) (n : ℕ) (wild : Bool) : Lexeme → Option State
  | .num _ => if wild then none else some ⟨slot, .holding (n + 1) false⟩
  | .wildcard _ => some ⟨slot, .holding (n + 1) true⟩
  | _ => none

/-- The start of a target. -/
def target (slot : Slot) : Lexeme → Option State
  | .v _ => some ⟨slot, .awaiting 0 false⟩
  | l => part slot 0 false l

/-- The start of a clause.  After an operator there is no way to a dash. -/
def clause (slot : Slot) : Lexeme → Option State
  | .op _ | .shorthand _ => some ⟨.further, .target⟩
  | l => target slot l

/-- What comes after a target. -/
def between : Slot → Lexeme → Option State
  | .first, .dash _ => some ⟨.upper, .target⟩
  | .first, .and _ | .further, .and _ => some ⟨.further, .clause⟩
  | _, .or _ => some .start
  | _, _ => none

/-- What comes after `n` parts.  Only three numbers take a prerelease and build metadata. -/
def after (slot : Slot) (n : ℕ) (wild : Bool) : Lexeme → Option State
  | .dot => if n < 3 then some ⟨slot, .awaiting n wild⟩ else none
  | .prerelease _ => if n = 3 ∧ wild = false then some ⟨slot, .pre⟩ else none
  | .build _ => if n = 3 ∧ wild = false then some ⟨slot, .build⟩ else none
  | l => between slot l

/-- What comes after a prerelease. -/
def afterPre (slot : Slot) : Lexeme → Option State
  | .build _ => some ⟨slot, .build⟩
  | l => between slot l

/-- One step of the automaton. -/
def step (s : State) (l : Lexeme) : Option State :=
  match s.stage with
  | .clause => clause s.slot l
  | .target => target s.slot l
  | .awaiting n wild => part s.slot n wild l
  | .holding n wild => after s.slot n wild l
  | .pre => afterPre s.slot l
  | .build => between s.slot l

/-- The state after the tokens. -/
def run : State → List Token → Option State
  | s, [] => some s
  | s, t :: ts => (step s t.lexeme).bind fun s' => run s' ts

/-- The tokens are those of a formula. -/
def Accepts (ts : List Token) : Prop := ts = [] ∨ ∃ s, run .start ts = some s ∧ s.closes = true

@[simp] theorem run_nil (s : State) : run s [] = some s := rfl

@[simp] theorem run_cons (s : State) (t : Token) (ts : List Token) :
    run s (t :: ts) = (step s t.lexeme).bind fun s' => run s' ts := rfl

theorem run_append (s : State) (ts us : List Token) :
    run s (ts ++ us) = (run s ts).bind fun s' => run s' us := by
  induction ts generalizing s with
  | nil => rfl
  | cons t ts ih =>
    -- the first step is the same on both sides, and the claim holds of wherever it leads
    rw [List.cons_append, run_cons, run_cons, Option.bind_assoc]
    exact congrArg _ (funext ih)

/-- Between targets, a target or a clause must come next. -/
theorem stage_of_between {slot : Slot} {l : Lexeme} {s : State} (h : between slot l = some s) :
    s.stage = .target ∨ s.stage = .clause := by
  -- a token and a slot decide the state; pairs with no way on leave no case
  cases l <;> cases slot <;> cases h
  all_goals
    first
    | exact .inl rfl
    | exact .inr rfl

/-- What comes after some parts: another part, what is attached to them, or the next target. -/
theorem after_cases {slot : Slot} {n : ℕ} {wild : Bool} {l : Lexeme} {s : State}
    (h : after slot n wild l = some s) :
    l = .dot ∧ s = ⟨slot, .awaiting n wild⟩ ∨ s.stage = .pre ∨ s.stage = .build ∨
      s.stage = .target ∨ s.stage = .clause := by
  cases l with
  | dot =>
    obtain ⟨-, h⟩ := Option.ite_none_right_eq_some.1 h
    exact .inl ⟨rfl, (Option.some.inj h).symm⟩
  | prerelease ids =>
    obtain ⟨-, h⟩ := Option.ite_none_right_eq_some.1 h
    exact .inr (.inl (Option.some.inj h ▸ rfl))
  | build ids =>
    obtain ⟨-, h⟩ := Option.ite_none_right_eq_some.1 h
    exact .inr (.inr (.inl (Option.some.inj h ▸ rfl)))
  -- no other token is attached to the target
  | _ => exact .inr (.inr (.inr (stage_of_between h)))

/-- A step depends on the kind of the token only. -/
theorem step_eq_of_kind_eq (s : State) {l k : Lexeme} (h : l.kind = k.kind) :
    step s l = step s k := by
  obtain ⟨slot, stage⟩ := s
  -- the transitions never look into a token: tokens of one kind agree by computation
  cases l <;> cases k
  all_goals
    first
    | (cases stage <;> cases slot <;> rfl)
    | exact absurd h (by simp [Lexeme.kind])

/-- A run depends on the kinds of the tokens only. -/
theorem run_eq_of_kind_eq (s : State) {ts us : List Token}
    (h : ts.map (fun t => t.lexeme.kind) = us.map fun t => t.lexeme.kind) :
    run s ts = run s us := by
  induction ts generalizing s us with
  | nil =>
    rw [List.map_nil, eq_comm, List.map_eq_nil_iff] at h
    rw [h]
  | cons t ts ih =>
    cases us with
    | nil => simp at h
    | cons u us =>
      simp only [List.map_cons, List.cons.injEq] at h
      -- one step leads to the same state, from which the rest goes the same way
      rw [run_cons, run_cons, step_eq_of_kind_eq s h.1]
      exact congrArg _ (funext fun s' => ih s' h.2)

/-! ### Where the automaton goes and where it is stuck -/

/-- The tokens lead from one state to another, and no numeral in them is too long. -/
structure Leads (s : State) (ts : List Token) (s' : State) : Prop where
  /-- The automaton goes from one state to the other. -/
  run : run s ts = some s'
  /-- No numeral is too long. -/
  short : Short (numerals ts)

theorem Leads.refl (s : State) : Leads s [] s := ⟨rfl, short_nil⟩

theorem Leads.single {s s' : State} {t : Token} (h : step s t.lexeme = some s')
    (hshort : Short t.lexeme.numerals) : Leads s [t] s' := by
  refine ⟨by rw [run_cons, h]; rfl, ?_⟩
  simpa using hshort

theorem Leads.append {s s' s'' : State} {ts us : List Token} (h : Leads s ts s')
    (h' : Leads s' us s'') : Leads s (ts ++ us) s'' := by
  refine ⟨by rw [run_append, h.run]; exact h'.run, ?_⟩
  rw [numerals_append, short_append]
  exact ⟨h.short, h'.short⟩

/-- Nothing the tokens begin with is accepted, or they are at an end where they may not be. -/
def Stuck (s : State) : List Token → Prop
  | [] => s.closes = false
  | t :: _ => step s t.lexeme = none

/-- From the state, the tokens are refused at `found`; nothing found is the end of the text. -/
inductive Misfit (s : State) (ts : List Token) (found : Option Token) : Prop
  /-- This is where the automaton is stuck. -/
  | here {pre post : List Token} {s' : State} : ts = pre ++ post → Leads s pre s' →
      Stuck s' post → post.head? = found → Misfit s ts found
  /-- The automaton is stuck at a number after a wildcard, two tokens before. -/
  | late {pre post : List Token} {slot : Slot} {ds : List Char} {p q : ℕ} :
      ts = pre ++ ⟨.num ds, p⟩ :: ⟨.dot, q⟩ :: post →
      Leads s pre ⟨slot, .awaiting 1 true⟩ → post.head? = found → Misfit s ts found

theorem Misfit.of_stuck {s : State} {ts : List Token} (h : Stuck s ts) :
    Misfit s ts ts.head? := .here rfl (.refl s) h rfl

/-- What is refused after some tokens is refused after more. -/
theorem Misfit.append {s s' : State} {ts us : List Token} {found : Option Token}
    (h : Leads s ts s') (hmisfit : Misfit s' us found) : Misfit s (ts ++ us) found := by
  -- what leads to the misfit is longer by the tokens read before, and the misfit is the same
  cases hmisfit with
  | here hus hlead hstuck hfound =>
    exact .here (by rw [hus, List.append_assoc]) (h.append hlead) hstuck hfound
  | late hus hlead hfound =>
    exact .late (by rw [hus, List.append_assoc]) (h.append hlead) hfound

/-- What is found is one of the tokens. -/
theorem Misfit.mem {s : State} {ts : List Token} {t : Token} (h : Misfit s ts (some t)) :
    t ∈ ts := by
  cases h with
  | here hts _ _ hfound =>
    rw [hts]
    exact List.mem_append_right _ (List.mem_of_mem_head? hfound)
  | late hts _ hfound =>
    rw [hts]
    have hmem := List.mem_of_mem_head? hfound
    simp [hmem]

/-! ### Outcomes -/

/-- Reading the numerals comes to an end if none is too long, and is refused for that if one is. -/
def Numeric {α : Type} (ns : List (List Char)) : Except Stop α → Prop
  | .ok _ => Short ns
  | .error (.ofNumeral _) => ¬ Short ns
  | .error _ => False

/-- The outcome of a reader goes along with the automaton: what is left is left in a
state with the property `P`, and what is refused is refused where the automaton is stuck. -/
def Tracks {α : Type} (s : State) (ts : List Token) (P : State → List Token → Prop) :
    Except Stop (α × List Token) → Prop
  | .ok (_, rest) => ∃ pre s', ts = pre ++ rest ∧ Leads s pre s' ∧ P s' rest
  | .error (.misplaced found _) => Misfit s ts found
  | .error (.ofNumeral _) => ¬ Short (numerals ts)
  | .error (.ofVersion _) => True

section Outcomes

variable {α β : Type} {s s' : State} {ts us : List Token} {P Q : State → List Token → Prop}

theorem Tracks.stay {a : α} (h : P s ts) : Tracks s ts P (pure (a, ts)) :=
  ⟨[], s, rfl, .refl s, h⟩

theorem Tracks.misplaced {complaint : Complaint} (h : Stuck s ts) :
    Tracks s ts P (throw (.misplaced ts.head? complaint) : Except Stop (α × List Token)) :=
  Misfit.of_stuck h

/-- Tokens that were read before. -/
theorem Tracks.append {x : Except Stop (α × List Token)} (hx : Tracks s' us P x)
    (h : Leads s ts s') : Tracks s (ts ++ us) P x := by
  match x, hx with
  -- what was read before comes in front of what the reader reads
  | .ok (_, rest), ⟨pre, s'', hus, hlead, hP⟩ =>
    exact ⟨ts ++ pre, s'', by rw [hus, List.append_assoc], h.append hlead, hP⟩
  | .error (.misplaced _ _), hmisfit => exact Misfit.append h hmisfit
  -- a numeral that is too long is so among more of them
  | .error (.ofNumeral _), hlong =>
    intro hshort
    rw [numerals_append, short_append] at hshort
    exact hlong hshort.2
  | .error (.ofVersion _), _ => exact trivial

/-- A token that was read before. -/
theorem Tracks.cons {t : Token} {x : Except Stop (α × List Token)}
    (h : step s t.lexeme = some s') (hshort : Short t.lexeme.numerals) (hx : Tracks s' us P x) :
    Tracks s (t :: us) P x := hx.append (.single h hshort)

/-- One step after another. -/
theorem Tracks.bind {x : Except Stop (α × List Token)}
    {f : α × List Token → Except Stop (β × List Token)} (hx : Tracks s ts P x)
    (hf : ∀ a s' rest, P s' rest → Tracks s' rest Q (f (a, rest))) : Tracks s ts Q (x >>= f) := by
  match x, hx with
  | .ok (a, rest), ⟨pre, s', hts, hlead, hP⟩ =>
    rw [hts]
    exact (hf a s' rest hP).append hlead
  -- a refusal of the first step is that of both
  | .error (.misplaced _ _), hmisfit => exact hmisfit
  | .error (.ofNumeral _), hlong => exact hlong
  | .error (.ofVersion _), _ => exact trivial

/-- A refusal says nothing of a value, nor of what is left. -/
theorem Tracks.error {e : Stop} (h : Tracks s ts P (.error e : Except Stop (α × List Token))) :
    Tracks s ts Q (.error e : Except Stop (β × List Token)) := by
  cases e <;> exact h

/-- The value is changed, and nothing else. -/
theorem Tracks.map {x : Except Stop (α × List Token)} (f : α → β) (hx : Tracks s ts P x) :
    Tracks s ts P (do let (a, rest) ← x; pure (f a, rest) : Except Stop (β × List Token)) :=
  hx.bind fun _ _ _ hP => .stay hP

/-- The numerals of the first token are read. -/
theorem Tracks.bind_numeric {t : Token} {x : Except Stop α}
    {f : α → Except Stop (β × List Token)} (hx : Numeric t.lexeme.numerals x)
    (hf : ∀ a, Short t.lexeme.numerals → Tracks s (t :: ts) P (f a)) :
    Tracks s (t :: ts) P (x >>= f) := by
  -- reading numerals fails in no other way than by their length
  match x, hx with
  | .ok a, hshort => exact hf a hshort
  | .error (.ofNumeral _), hlong =>
    intro hshort
    rw [numerals_cons, short_append] at hshort
    exact hlong hshort.1

end Outcomes

end Automaton

end SemverRange
