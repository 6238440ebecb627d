import SemverRange.Proofs.Formula.Cursor

/-!
# Reading is safe

A cursor reads what the reading functions on lists read, and meets with no mishap.  Wherever its
index stands, the cells from there on are the tokens that a reading function is given; the
function makes of them what the cursor makes, and what it leaves is what is before the cursor
then.

## Main definitions

* `Cursor.Agrees` — a step of the cursor and a step on lists come to the same.

## Main results

* `Cursor.agrees_target`, `Cursor.agrees_range` — steps of the cursor.
* `Cursor.formula_eq`, `Cursor.version_eq` — a cursor reads the same.
* `Formula.parse_safe` — **reading is safe**: it ends with a value or with good reason, and a
  cursor gives the same answers without a mishap.
-/

namespace SemverRange

/-! ### Loops on lists of tokens -/

namespace Read

/-- Where no white space is before a clause, there is no further clause. -/
theorem clauses_of_not_and {ts : List Token} (h : ∀ b pos ts', ts ≠ ⟨.and b, pos⟩ :: ts') :
    clauses ts = .ok ([], ts) := by
  rw [clauses]
  · rfl
  · exact h

/-- The ranges behind bars that follow a range. -/
def rangesAfter : List Token → Except Stop (List Range × List Token)
  | ⟨.or _, _⟩ :: ts => ranges ts
  | ts => pure ([], ts)

/-- One or more ranges are a range and the ranges behind bars. -/
theorem ranges_eq (ts : List Token) :
    ranges ts = range ts >>= fun x => rangesAfter x.2 >>= fun y => .ok (x.1 :: y.1, y.2) := by
  cases h : range ts with
  | error s => exact ranges_of_error h
  | ok x =>
    obtain ⟨r, rest⟩ := x
    by_cases hor : ∃ b pos ts', rest = ⟨.or b, pos⟩ :: ts'
    · obtain ⟨b, pos, ts', rfl⟩ := hor
      exact ranges_of_or h
    · have hno : ∀ b pos ts', rest ≠ ⟨.or b, pos⟩ :: ts' :=
        fun b pos ts' hrest => hor ⟨b, pos, ts', hrest⟩
      rw [ranges_of_not_or h hno]
      show _ = rangesAfter rest >>= fun y => .ok (r :: y.1, y.2)
      rw [rangesAfter]
      · rfl
      · exact hno

end Read

namespace Cursor

/-! ### Agreement -/

/-- The reason to stop as what the cursor ends with. -/
def blame (c : Cursor) (s : Stop) : Mishap := .ofFault (s.toFault c.text c.goal)

/-- A step of the cursor and a step on lists of tokens come to the same.  If they make something,
the results are related, and the index stands where the tokens that are left begin. -/
inductive Agrees (c : Cursor) (ts : Tokens) {α β : Type} (R : α → β → ℕ → Prop) :
    Except Mishap (α × ℕ) → Except Stop (β × List Token) → Prop
  | ok {a : α} {b : β} {i : ℕ} : i ≤ ts.toList.length → R a b i →
      Agrees c ts R (.ok (a, i)) (.ok (b, ts.toList.drop i))
  | error (s : Stop) : Agrees c ts R (.error (c.blame s)) (.error s)

/-- Results that are equal. -/
abbrev Equal {α : Type} (a b : α) (_ : ℕ) : Prop := a = b

section Agreement

variable {c : Cursor} {ts : Tokens} {α α' β β' γ : Type} {R : α → β → ℕ → Prop}
  {S : α' → β' → ℕ → Prop} {i : ℕ}

/-- One step after another. -/
theorem Agrees.bind {x : Except Mishap (α × ℕ)} {y : Except Stop (β × List Token)}
    {f : α × ℕ → Except Mishap (α' × ℕ)} {g : β × List Token → Except Stop (β' × List Token)}
    (h : Agrees c ts R x y)
    (hfg : ∀ a b i, i ≤ ts.toList.length → R a b i → y = .ok (b, ts.toList.drop i) →
      Agrees c ts S (f (a, i)) (g (b, ts.toList.drop i))) :
    Agrees c ts S (x >>= f) (y >>= g) := by
  cases h with
  | ok hi hr => exact hfg _ _ _ hi hr rfl
  | error s => exact .error s

/-- A step that leaves the index where it is. -/
theorem Agrees.stay {a : α} {b : β} {y : Except Stop (β × List Token)} (hi : i ≤ ts.toList.length)
    (hr : R a b i) (hy : y = .ok (b, ts.toList.drop i)) : Agrees c ts R (.ok (a, i)) y := by
  rw [hy]
  exact .ok hi hr

/-- A step that moves no cursor, and then another. -/
theorem Agrees.bind_value {x : Except Mishap γ} {y : Except Stop γ} (hxy : x = y.mapError c.blame)
    {f : γ → Except Mishap (α × ℕ)} {g : γ → Except Stop (β × List Token)}
    (hfg : ∀ a, y = .ok a → Agrees c ts R (f a) (g a)) : Agrees c ts R (x >>= f) (y >>= g) := by
  subst hxy
  cases y with
  | ok a => exact hfg a rfl
  | error s => exact .error s

/-- A step and then the last one, which leaves no index. -/
theorem Agrees.bind_eq {x : Except Mishap (α × ℕ)} {y : Except Stop (α × List Token)}
    {f : α × ℕ → Except Mishap γ} {g : α × List Token → Except Stop γ} (h : Agrees c ts Equal x y)
    (hfg : ∀ a i, i ≤ ts.toList.length → f (a, i) = (g (a, ts.toList.drop i)).mapError c.blame) :
    x >>= f = (y >>= g).mapError c.blame := by
  cases h with
  | ok hi hr =>
    cases hr
    exact hfg _ _ hi
  | error s => rfl

theorem numeral_eq (c : Cursor) (ds : List Char) :
    numeral ds = (Read.numeral ds).mapError c.blame := by
  unfold numeral Read.numeral
  cases Numeral.read ds <;> rfl

/-- The refusal of the cursor at a token is the one of the reading functions. -/
theorem refusal_cell (c : Cursor) (t : Token) (complaint : Complaint) :
    c.refusal t.cell complaint = c.blame (.misplaced (some t) complaint) := by
  have hplace : t.cell.place = t.place := by
    obtain ⟨l, pos⟩ := t
    cases l <;> rfl
  rw [refusal, hplace]
  rfl

theorem refusal_endCell (c : Cursor) (ts : Tokens) (complaint : Complaint) :
    c.refusal ts.endCell complaint = c.blame (.misplaced none complaint) := rfl

/-- Both refuse the token. -/
theorem agrees_refusal (t : Token) (complaint : Complaint) :
    Agrees c ts R (.error (c.refusal t.cell complaint)) (throw (.misplaced (some t) complaint)) := by
  rw [refusal_cell]
  exact .error _

theorem getElem?_of_drop {i : ℕ} {t : Token} (h : ts.toList.drop i = t :: ts.toList.drop (i + 1)) :
    ts.toList[i]? = some t := by
  rw [← List.head?_drop, h]
  rfl

end Agreement

/-! ### Targets -/

/-- The identifiers of a token are what its text is split into at the dots. -/
theorem splitOn_idents {ids : List (List Char)} (hne : ids ≠ [])
    (hids : ∀ i ∈ ids, i ≠ [] ∧ ∀ c ∈ i, isIdentifierChar c = true) :
    (['.'].intercalate ids).splitOn '.' = ids := by
  apply List.splitOn_intercalate '.' _ hne
  intro i hi hdot
  exact absurd ((hids i hi).2 '.' hdot) (by decide)

theorem identifiers_eq (c : Cursor) {ids : List (List Char)} (hids : ∀ i ∈ ids, i ≠ []) :
    ids.mapM identifier = (ids.mapM Read.identifier).mapError c.blame := by
  induction ids with
  | nil => rfl
  | cons i ids ih =>
    obtain ⟨hi, hids⟩ := List.forall_mem_cons.1 hids
    have hhead : identifier i = (Read.identifier i).mapError c.blame := by
      unfold identifier Read.identifier
      by_cases hdigits : i.all Char.isDigit = true
      · rw [if_pos ⟨hi, hdigits⟩, if_pos hdigits, numeral_eq c]
        cases Read.numeral i <;> rfl
      · rw [if_neg fun h => hdigits h.2, if_neg hdigits]
        rfl
    rw [List.mapM_cons, List.mapM_cons, hhead, ih hids]
    cases Read.identifier i with
    | error s => rfl
    | ok x => cases ids.mapM Read.identifier <;> rfl

section Steps

-- At every index that is not behind the end, a step of the cursor agrees with the reading function
-- on the tokens from there on.  The proofs look at what there is to see at the index: one kind of
-- token, or a few, and then all the others at once.
variable {c : Cursor} {ts : Tokens} (hc : c.RunsOver ts) {i : ℕ} (hi : i ≤ ts.toList.length)
include hc hi

/-- What is looked at has the place of the tokens that are left, and is named by them. -/
theorem exists_peek : ∃ a, c.peek i = .ok a ∧ a.pos = Read.position ts.stop (ts.toList.drop i) ∧
    ∀ complaint, c.refusal a complaint =
      c.blame (.misplaced (ts.toList.drop i).head? complaint) := by
  cases hc.sees hi with
  | atEnd hdrop hpeek _ =>
    rw [hdrop]
    exact ⟨ts.endCell, hpeek, rfl, refusal_endCell c ts⟩
  | token t hdrop _ hpeek _ =>
    rw [hdrop]
    exact ⟨t.cell, hpeek, rfl, refusal_cell c t⟩

/-- The parts are equal, and the last token that was read stands before the index. -/
abbrev EqualBefore (ts : Tokens) {α : Type} (a : α) (x : α × Token) (i : ℕ) : Prop :=
  a = x.1 ∧ ∃ j, i = j + 1 ∧ ts.toList[j]? = some x.2

theorem agrees_part :
    Agrees c ts (EqualBefore ts) (c.part i) (Read.part (ts.toList.drop i)) := by
  cases hc.sees hi with
  | atEnd hdrop _ hadvance =>
    rw [hdrop, part, hadvance]
    exact .error (.misplaced none .partExpected)
  | token t hdrop hlt _ hadvance =>
    have hlast : ts.toList[i]? = some t := getElem?_of_drop hdrop
    rw [hdrop, part, hadvance]
    obtain ⟨l, pos⟩ := t
    cases l with
    | num ds =>
      apply Agrees.bind_value (numeral_eq c ds)
      intro n _
      exact .ok hlt ⟨rfl, i, rfl, hlast⟩
    | wildcard d => exact .ok hlt ⟨rfl, i, rfl, hlast⟩
    | _ => exact agrees_refusal ⟨_, pos⟩ .partExpected

theorem agrees_parts (n : ℕ) {last : Token}
    (hlast : ∃ j, i = j + 1 ∧ ts.toList[j]? = some last) :
    Agrees c ts (EqualBefore ts) (c.parts n i) (Read.parts n last (ts.toList.drop i)) := by
  induction n generalizing i last with
  | zero =>
    -- there is a look at one more cell, which is there
    obtain ⟨a, hpeek, -, -⟩ := exists_peek hc hi
    rw [parts, hpeek]
    exact .stay hi ⟨rfl, hlast⟩ rfl
  | succ n ih =>
    cases hc.sees hi with
    | atEnd hdrop hpeek _ =>
      rw [parts, hpeek]
      exact .stay hi ⟨rfl, hlast⟩ (by rw [hdrop]; rfl)
    | token t hdrop hlt hpeek hadvance =>
      rw [parts, hpeek]
      obtain ⟨l, pos⟩ := t
      -- only a dot goes on
      cases l with
      | dot =>
        rw [hdrop]
        show Agrees c ts _
          (c.advance i >>= fun x => c.part x.2 >>= fun y => c.parts n y.2 >>= fun z =>
            .ok (y.1 :: z.1, z.2))
          (Read.part (ts.toList.drop (i + 1)) >>= fun y => Read.parts n y.1.2 y.2 >>= fun z =>
            .ok ((y.1.1 :: z.1.1, z.1.2), z.2))
        rw [hadvance]
        apply (agrees_part hc hlt).bind
        rintro p ⟨q, last⟩ j hj ⟨rfl, hlast⟩ _
        apply (ih hj hlast).bind
        rintro ps ⟨qs, last⟩ k hk ⟨rfl, hlast⟩ _
        exact .ok hk ⟨rfl, hlast⟩
      | _ => exact .stay hi ⟨rfl, hlast⟩ (by rw [hdrop]; rfl)

theorem agrees_prerelease :
    Agrees c ts Equal (c.prerelease i) (Read.prerelease (ts.toList.drop i)) := by
  cases hc.sees hi with
  | atEnd hdrop hpeek _ =>
    rw [prerelease, hpeek]
    exact .stay hi rfl (by rw [hdrop]; rfl)
  | token t hdrop hlt hpeek hadvance =>
    have hmem : t ∈ ts.toList := List.mem_of_getElem? (getElem?_of_drop hdrop)
    have hsound := hc.sound t hmem
    rw [prerelease, hpeek]
    obtain ⟨l, pos⟩ := t
    cases l with
    | prerelease ids =>
      obtain ⟨hne, hids⟩ := hsound.wellformed
      rw [hdrop]
      show Agrees c ts _
        (c.advance i >>= fun x => ((x.1.text.drop 1).splitOn '.').mapM identifier >>= fun is =>
          .ok (is, x.2))
        (ids.mapM Read.identifier >>= fun is => .ok (is, ts.toList.drop (i + 1)))
      rw [hadvance]
      show Agrees c ts _
        (((['.'].intercalate ids).splitOn '.').mapM identifier >>= fun is => .ok (is, i + 1)) _
      rw [splitOn_idents hne hids]
      apply Agrees.bind_value (identifiers_eq c fun i hi => (hids i hi).1)
      intro is _
      exact .ok hlt rfl
    | _ => exact .stay hi rfl (by rw [hdrop]; rfl)

theorem agrees_build :
    Agrees c ts Equal (c.build i) (.ok (Read.build (ts.toList.drop i))) := by
  cases hc.sees hi with
  | atEnd hdrop hpeek _ =>
    rw [build, hpeek]
    exact .stay hi rfl (by rw [hdrop]; rfl)
  | token t hdrop hlt hpeek hadvance =>
    have hmem : t ∈ ts.toList := List.mem_of_getElem? (getElem?_of_drop hdrop)
    have hsound := hc.sound t hmem
    rw [build, hpeek]
    obtain ⟨l, pos⟩ := t
    cases l with
    | build ids =>
      obtain ⟨hne, hids⟩ := hsound.wellformed
      rw [hdrop]
      show Agrees c ts _
        (c.advance i >>= fun x => .ok (((x.1.text.drop 1).splitOn '.').map String.ofList, x.2)) _
      rw [hadvance]
      show Agrees c ts _
        (.ok (((['.'].intercalate ids).splitOn '.').map String.ofList, i + 1)) _
      rw [splitOn_idents hne hids]
      exact .ok hlt rfl
    | _ => exact .stay hi rfl (by rw [hdrop]; rfl)

/-- Fewer than three numbers make a pattern, if nothing is attached to them. -/
theorem agrees_pattern (u : Target) :
    Agrees c ts Equal
      (c.peek i >>= fun a =>
        if a.kind = "PRE" ∨ a.kind = "BUILD" then throw (c.refusal a .attachedToPartial)
        else pure (u, i))
      (if Read.startsAttached (ts.toList.drop i) then
        throw (.misplaced (ts.toList.drop i).head? .attachedToPartial)
      else pure (u, ts.toList.drop i)) := by
  cases hc.sees hi with
  | atEnd hdrop hpeek _ =>
    rw [hpeek]
    exact .stay hi rfl (by rw [hdrop]; rfl)
  | token t hdrop hlt hpeek _ =>
    rw [hpeek]
    obtain ⟨l, pos⟩ := t
    cases l with
    | prerelease ids =>
      rw [hdrop]
      exact agrees_refusal ⟨.prerelease ids, pos⟩ .attachedToPartial
    | build ids =>
      rw [hdrop]
      exact agrees_refusal ⟨.build ids, pos⟩ .attachedToPartial
    | _ => exact .stay hi rfl (by rw [hdrop]; rfl)

omit hc hi in
theorem finish_of_length_ne (c : Cursor) {ps : List Part}
    (hord : ¬ Part.numberAfterWildcard ps = true) (hlen : (ps.filterMap Part.number?).length ≠ 3) :
    c.finish ps i = (c.peek i >>= fun a =>
      if a.kind = "PRE" ∨ a.kind = "BUILD" then throw (c.refusal a .attachedToPartial)
      else pure (.ofNumbers (ps.filterMap Part.number?), i)) := by
  rw [finish, if_neg hord]
  split
  · next h =>
    rw [h] at hlen
    exact absurd rfl hlen
  · rfl

/-- The token that was read last is in the cell before the index. -/
theorem back_eq {last : Token} (hlast : ∃ j, i = j + 1 ∧ ts.toList[j]? = some last) :
    c.back i = .ok last.cell := by
  obtain ⟨j, rfl, hj⟩ := hlast
  show c.peek j = .ok last.cell
  cases hc.sees (Nat.le_of_succ_le hi) with
  | atEnd hdrop _ _ =>
    rw [← List.head?_drop, hdrop] at hj
    cases hj
  | token t hdrop _ hpeek _ =>
    rw [getElem?_of_drop hdrop] at hj
    cases hj
    exact hpeek

/-- Three numbers make a version, with what is attached to them. -/
theorem agrees_version (major minor patch : ℕ) :
    Agrees c ts Equal
      (c.prerelease i >>= fun x => c.build x.2 >>= fun y =>
        (Version.ofParts? major minor patch x.1 y.1).mapError
          (fun d => Mishap.ofFault (.ofVersion d)) >>= fun v => .ok (Target.version v, y.2))
      (Read.prerelease (ts.toList.drop i) >>= fun x => .ok (Read.build x.2) >>= fun y =>
        (Version.ofParts? major minor patch x.1 y.1).mapError Stop.ofVersion >>= fun v =>
          .ok (Target.version v, y.2)) := by
  apply (agrees_prerelease hc hi).bind
  rintro pre _ j hj rfl _
  apply (agrees_build hc hj).bind
  rintro data _ k hk rfl _
  have hparts : (Version.ofParts? major minor patch pre data).mapError
      (fun d => Mishap.ofFault (.ofVersion d)) =
      ((Version.ofParts? major minor patch pre data).mapError Stop.ofVersion).mapError
        c.blame := by
    cases Version.ofParts? major minor patch pre data <;> rfl
  apply Agrees.bind_value hparts
  intro v _
  exact .ok hk rfl

theorem agrees_finish (ps : List Part) {last : Token}
    (hlast : ∃ j, i = j + 1 ∧ ts.toList[j]? = some last) :
    Agrees c ts Equal (c.finish ps i) (Read.finish ps last (ts.toList.drop i)) := by
  by_cases hord : Part.numberAfterWildcard ps = true
  · -- the number that comes too late is the token that was read last
    rw [finish, Read.finish, if_pos hord, if_pos hord, back_eq hc hi hlast]
    exact agrees_refusal last .numberAfterWildcard
  · by_cases hlen : (ps.filterMap Part.number?).length = 3
    · obtain ⟨major, minor, patch, hns⟩ := List.length_eq_three.1 hlen
      rw [finish, Read.finish, if_neg hord, if_neg hord, hns]
      exact agrees_version hc hi major minor patch
    · rw [finish_of_length_ne c hord hlen, Read.finish_of_length_ne (Bool.eq_false_iff.2 hord) hlen]
      exact agrees_pattern hc hi _

omit hi in
/-- The letter before a version is passed over. -/
theorem exists_skipV {i : ℕ} (hi : i ≤ ts.toList.length) :
    ∃ j, j ≤ ts.toList.length ∧ c.skipV i = .ok j ∧
      Read.skipV (ts.toList.drop i) = ts.toList.drop j := by
  cases hc.sees hi with
  | atEnd hdrop hpeek _ =>
    refine ⟨i, hi, ?_, by rw [hdrop]; rfl⟩
    rw [skipV, hpeek]
    rfl
  | token t hdrop hlt hpeek hadvance =>
    obtain ⟨l, pos⟩ := t
    cases l with
    | v d =>
      refine ⟨i + 1, hlt, ?_, by rw [hdrop]; rfl⟩
      rw [skipV, hpeek]
      show (c.advance i >>= fun x => Except.ok x.2) = _
      rw [hadvance]
      rfl
    | _ =>
      refine ⟨i, hi, ?_, by rw [hdrop]; rfl⟩
      rw [skipV, hpeek]
      rfl

theorem agrees_target : Agrees c ts Equal (c.target i) (Read.target (ts.toList.drop i)) := by
  obtain ⟨j, hj, hskip, hdrop⟩ := exists_skipV hc hi
  rw [target, Read.target, hskip, hdrop]
  apply (agrees_part hc hj).bind
  rintro p ⟨q, last⟩ k hk ⟨rfl, hlast⟩ _
  apply (agrees_parts hc hk 2 hlast).bind
  rintro ps ⟨qs, last⟩ m hm ⟨rfl, hlast⟩ _
  exact agrees_finish hc hm _ hlast

/-! ### Clauses and ranges -/

theorem agrees_wrapTarget {α : Type} (f : Target → α) :
    Agrees c ts Equal (c.target i >>= fun x => .ok (f x.1, x.2))
      (Read.target (ts.toList.drop i) >>= fun x => .ok (f x.1, x.2)) := by
  apply (agrees_target hc hi).bind
  rintro t _ j hj rfl _
  exact .ok hj rfl

/-- A target without an operator, where the reading function on lists takes it for one. -/
theorem agrees_bareClause (h : Read.clause (ts.toList.drop i) =
      Read.target (ts.toList.drop i) >>= fun x => .ok (.bare x.1, x.2)) :
    Agrees c ts Equal (c.target i >>= fun x => .ok (.bare x.1, x.2))
      (Read.clause (ts.toList.drop i)) := by
  rw [h]
  exact agrees_wrapTarget hc hi _

theorem agrees_clause : Agrees c ts Equal (c.clause i) (Read.clause (ts.toList.drop i)) := by
  cases hc.sees hi with
  | atEnd hdrop hpeek _ =>
    rw [clause, hpeek]
    exact agrees_bareClause hc hi (by rw [hdrop]; rfl)
  | token t hdrop hlt hpeek hadvance =>
    rw [clause, hpeek]
    obtain ⟨l, pos⟩ := t
    cases l with
    | op o =>
      rw [hdrop]
      show Agrees c ts _ (c.advance i >>= fun x => sign Op.ofSign? o.sign >>= fun o =>
        c.target x.2 >>= fun y => .ok (Clause.compare (some o) y.1, y.2)) _
      rw [hadvance, sign, Op.ofSign?_sign]
      exact agrees_wrapTarget hc hlt _
    | shorthand s =>
      rw [hdrop]
      show Agrees c ts _ (c.advance i >>= fun x => sign Shorthand.ofSign? s.sign >>= fun s =>
        c.target x.2 >>= fun y => .ok (Clause.shorthand (some s) y.1, y.2)) _
      rw [hadvance, sign, Shorthand.ofSign?_sign]
      exact agrees_wrapTarget hc hlt _
    | _ => exact agrees_bareClause hc hi (by rw [hdrop]; rfl)

/-- The rounds are enough if there are more of them than tokens that are left. -/
theorem agrees_clauses {n : ℕ} (hn : ts.toList.length < n + i) :
    Agrees c ts Equal (c.clauses n i) (Read.clauses (ts.toList.drop i)) := by
  induction n generalizing i with
  | zero => omega
  | succ n ih =>
    cases hc.sees hi with
    | atEnd hdrop hpeek _ =>
      rw [clauses, hpeek]
      exact .stay hi rfl (Read.clauses_of_not_and (by rw [hdrop]; rintro _ _ _ ⟨⟩))
    | token t hdrop hlt hpeek hadvance =>
      rw [clauses, hpeek]
      obtain ⟨l, pos⟩ := t
      cases l with
      | and b =>
        rw [hdrop, Read.clauses_and]
        show Agrees c ts _ (c.advance i >>= fun x => c.clause x.2 >>= fun y =>
          c.clauses n y.2 >>= fun z => .ok (y.1 :: z.1, z.2)) _
        rw [hadvance]
        apply (agrees_clause hc hlt).bind
        rintro d _ j hj rfl hclause
        -- a clause uses up a token, so there is a round less and a token less
        have hshort := Read.length_clause hclause
        rw [List.length_drop, List.length_drop] at hshort
        apply (ih hj (by omega)).bind
        rintro ds _ k hk rfl _
        exact .ok hk rfl
      | _ => exact .stay hi rfl (Read.clauses_of_not_and (by rw [hdrop]; rintro _ _ _ ⟨⟩))

omit hi in
theorem length_lt_cells : ts.toList.length < c.cells.length := by
  rw [hc.cells, Tokens.cells, List.length_append, List.length_map]
  exact Nat.lt_succ_self _

/-- All further clauses. -/
theorem agrees_allClauses {α : Type} (f : List Clause → α) :
    Agrees c ts Equal (c.clauses c.cells.length i >>= fun x => .ok (f x.1, x.2))
      (Read.clauses (ts.toList.drop i) >>= fun x => .ok (f x.1, x.2)) := by
  have hcells := length_lt_cells hc
  apply (agrees_clauses hc hi (by omega)).bind
  rintro ds _ j hj rfl _
  exact .ok hj rfl

/-- Clauses after the first target of a range, where the reading function on lists looks for
them. -/
theorem agrees_clausesAfter {t : Target} (h : Read.rangeAfter t (ts.toList.drop i) =
      Read.clauses (ts.toList.drop i) >>= fun x => .ok (.all (.bare t :: x.1), x.2)) :
    Agrees c ts Equal
      (c.clauses c.cells.length i >>= fun x => .ok (.all (.bare t :: x.1), x.2))
      (Read.rangeAfter t (ts.toList.drop i)) := by
  rw [h]
  exact agrees_allClauses hc hi fun ds => Range.all (.bare t :: ds)

theorem agrees_rangeAfter (t : Target) :
    Agrees c ts Equal (c.rangeAfter t i) (Read.rangeAfter t (ts.toList.drop i)) := by
  cases hc.sees hi with
  | atEnd hdrop hpeek _ =>
    rw [rangeAfter, hpeek]
    exact agrees_clausesAfter hc hi (by rw [hdrop]; rfl)
  | token u hdrop hlt hpeek hadvance =>
    rw [rangeAfter, hpeek]
    obtain ⟨l, pos⟩ := u
    cases l with
    | dash b =>
      rw [hdrop]
      show Agrees c ts _ (c.advance i >>= fun x => c.target x.2 >>= fun y =>
        .ok (Range.between t y.1, y.2)) _
      rw [hadvance]
      exact agrees_wrapTarget hc hlt _
    | _ => exact agrees_clausesAfter hc hi (by rw [hdrop]; rfl)

/-- A range that starts with an operator. -/
theorem agrees_operatorRange :
    Agrees c ts Equal
      (c.clause i >>= fun x => c.clauses c.cells.length x.2 >>= fun y =>
        .ok (Range.all (x.1 :: y.1), y.2))
      (Read.clause (ts.toList.drop i) >>= fun x => Read.clauses x.2 >>= fun y =>
        .ok (Range.all (x.1 :: y.1), y.2)) := by
  apply (agrees_clause hc hi).bind
  rintro d _ j hj rfl _
  exact agrees_allClauses hc hj fun ds => Range.all (d :: ds)

/-- A range that starts with a target. -/
theorem agrees_targetRange :
    Agrees c ts Equal
      (c.target i >>= fun x => c.rangeAfter x.1 x.2)
      (Read.target (ts.toList.drop i) >>= fun x => Read.rangeAfter x.1 x.2) := by
  apply (agrees_target hc hi).bind
  rintro t _ j hj rfl _
  exact agrees_rangeAfter hc hj t

theorem agrees_range : Agrees c ts Equal (c.range i) (Read.range (ts.toList.drop i)) := by
  cases hc.sees hi with
  | atEnd hdrop hpeek _ =>
    rw [range, hpeek, Read.range, if_neg (by rw [hdrop]; exact Bool.false_ne_true)]
    exact agrees_targetRange hc hi
  | token t hdrop hlt hpeek _ =>
    rw [range, hpeek, Read.range]
    obtain ⟨l, pos⟩ := t
    cases l with
    | op o =>
      rw [if_pos (by rw [hdrop]; rfl)]
      exact agrees_operatorRange hc hi
    | shorthand s =>
      rw [if_pos (by rw [hdrop]; rfl)]
      exact agrees_operatorRange hc hi
    | _ =>
      rw [if_neg (by rw [hdrop]; exact Bool.false_ne_true)]
      exact agrees_targetRange hc hi

/-- The rounds are enough if there are more of them than tokens that are left. -/
theorem agrees_ranges {n : ℕ} (hn : ts.toList.length < n + i) :
    Agrees c ts Equal (c.ranges n i) (Read.rangesAfter (ts.toList.drop i)) := by
  induction n generalizing i with
  | zero => omega
  | succ n ih =>
    cases hc.sees hi with
    | atEnd hdrop hpeek _ =>
      rw [ranges, hpeek]
      exact .stay hi rfl (by rw [hdrop]; rfl)
    | token t hdrop hlt hpeek hadvance =>
      rw [ranges, hpeek]
      obtain ⟨l, pos⟩ := t
      cases l with
      | or b =>
        rw [hdrop, Read.rangesAfter, Read.ranges_eq]
        show Agrees c ts _ (c.advance i >>= fun x => c.range x.2 >>= fun y =>
          c.ranges n y.2 >>= fun z => .ok (y.1 :: z.1, z.2)) _
        rw [hadvance]
        apply (agrees_range hc hlt).bind
        rintro r _ j hj rfl hrange
        -- a range uses up a token, so there is a round less and a token less
        have hshort := Read.length_range hrange
        rw [List.length_drop, List.length_drop] at hshort
        apply (ih hj (by omega)).bind
        rintro rs _ k hk rfl _
        exact .ok hk rfl
      | _ => exact .stay hi rfl (by rw [hdrop]; rfl)

/-! ### Whole texts -/

theorem done_eq : c.done i = (Read.done (ts.toList.drop i)).mapError c.blame := by
  cases hc.sees hi with
  | atEnd hdrop hpeek _ =>
    rw [done, hpeek, hdrop]
    rfl
  | token t hdrop _ hpeek _ =>
    have hkind : t.cell.kind ≠ "EOF" := kind_ne_eof _
    rw [done, hpeek, hdrop]
    show (if t.cell.kind = "EOF" then pure () else throw (c.refusal t.cell .unexpected)) = _
    rw [if_neg hkind, refusal_cell]
    rfl

/-- After the end there is nothing but to give what was read. -/
theorem done_bind_eq {α : Type} (a : α) : (c.done i >>= fun _ => pure a) =
    (Read.done (ts.toList.drop i) >>= fun _ => pure a).mapError c.blame := by
  rw [done_eq hc hi]
  cases Read.done (ts.toList.drop i) <;> rfl

end Steps

section Whole

variable {c : Cursor} {ts : Tokens} (hc : c.RunsOver ts)
include hc

/-- With a cursor the same formula is read, or the text is refused for the same reason. -/
theorem formula_eq : c.formula = (Read.formula ts.toList).mapError c.blame := by
  have hstart : 0 ≤ ts.toList.length := Nat.zero_le _
  have hcells := length_lt_cells hc
  cases hc.sees hstart with
  | atEnd hdrop hpeek _ =>
    rw [List.drop_zero] at hdrop
    rw [formula, hpeek, Read.formula, hdrop]
    rfl
  | token t hdrop _ hpeek _ =>
    have hkind : t.cell.kind ≠ "EOF" := kind_ne_eof _
    have hne : ¬ ts.toList.isEmpty = true := by
      rw [List.drop_zero] at hdrop
      rw [hdrop]
      exact Bool.false_ne_true
    have hread := agrees_range hc hstart
    rw [List.drop_zero] at hread
    rw [formula, hpeek, Read.formula, if_neg hne, Read.ranges_eq, bind_assoc]
    show (if t.cell.kind = "EOF" then pure Formula.any else _) = _
    rw [if_neg hkind]
    apply hread.bind_eq
    intro r i hi
    show (c.ranges c.cells.length i >>= fun x => c.done x.2 >>= fun _ =>
      pure (Formula.mk (r :: x.1))) = _
    rw [bind_assoc]
    apply (agrees_ranges hc hi (by omega)).bind_eq
    intro rs j hj
    exact done_bind_eq hc hj _

/-- With a cursor the same version is read, or the text is refused for the same reason. -/
theorem version_eq :
    c.version = (Read.version c.text.toList ts.stop ts.toList).mapError c.blame := by
  have hstart : 0 ≤ ts.toList.length := Nat.zero_le _
  obtain ⟨a, ha, hpos, -⟩ := exists_peek hc hstart
  have hread := agrees_target hc hstart
  rw [List.drop_zero] at hpos hread
  rw [version, ha, Read.version]
  apply hread.bind_eq
  intro t i hi
  cases t with
  | version v => exact done_bind_eq hc hi v
  | _ =>
    obtain ⟨b, hb, hbpos, hrefusal⟩ := exists_peek hc hi
    simp only [hb, hpos, hbpos, hrefusal, bind, Except.bind]
    rfl

end Whole

end Cursor

/-- If on the cells of sound tokens a cursor comes to the same as a function on the tokens, then it
does so on every text. -/
theorem readByCursor_eq {α : Type} {goal : Goal} {read : Cursor → Except Mishap α}
    {readTokens : Tokens → Except Stop α} {text : String}
    (h : ∀ ts, Cursor.RunsOver ⟨text, goal, ts.cells⟩ ts →
      read ⟨text, goal, ts.cells⟩ =
        (readTokens ts).mapError (Cursor.blame ⟨text, goal, ts.cells⟩)) :
    readByCursor goal read text = ((tokenize text).mapError Fault.ofSyntax >>= fun ts =>
      (readTokens ts).mapError (Stop.toFault text goal)).mapError Mishap.ofFault := by
  cases hts : tokenize text with
  | error f =>
    rw [readByCursor, hts]
    rfl
  | ok ts =>
    have hread := h ts ⟨rfl, Tokens.sound_of_tokenize hts⟩
    rw [readByCursor, hts]
    show read ⟨text, goal, ts.cells⟩ =
      ((readTokens ts).mapError (Stop.toFault text goal)).mapError Mishap.ofFault
    rw [hread]
    cases readTokens ts <;> rfl

/-- **Reading is safe.**  A text is read, or it is refused with good reason.  Either the text is no
formula or no version: then the whole text is named, the message gives the text and the reason,
the reason is lexical if and only if the text has no tokens, and any other reason starts with
what the text was expected not to be.  Or a numeral is too long, and there is a run of more than
4300 digits in the text.  The constructor of versions refuses nothing.  And a cursor reads the
same and refuses for the same reasons, so it never looks where no cell is, never takes a text for
the sign of an operator that is none, and never goes round without end. -/
theorem Formula.parse_safe (text : String) :
    (∀ e, Formula.parse text = .error e → e.Justified .formula text) ∧
    (∀ e, Version.parse text = .error e → e.Justified .version text) ∧
    readByCursor .formula Cursor.formula text = (Formula.parse text).mapError Mishap.ofFault ∧
    readByCursor .version Cursor.version text = (Version.parse text).mapError Mishap.ofFault := by
  refine ⟨fun e h => justified_of_parse h, fun e h => Version.justified_of_parse h, ?_, ?_⟩
  · exact readByCursor_eq fun ts hc => Cursor.formula_eq hc
  · exact readByCursor_eq fun ts hc => Cursor.version_eq hc

/-- A formula with a number after a wildcard, and a version with a sign that starts no token. -/
theorem Formula.parse_safe_wildcard :
    (Formula.parse "<2 || 1.x.3" = .error (.ofSyntax ⟨"<2 || 1.x.3",
        .misplaced .formula (.piece ['3'] 10) .numberAfterWildcard⟩) ∧
      SyntaxFault.Justified .formula "<2 || 1.x.3"
        ⟨"<2 || 1.x.3", .misplaced .formula (.piece ['3'] 10) .numberAfterWildcard⟩) ∧
    Version.parse "1.2.3&" = .error (.ofSyntax ⟨"1.2.3&", .stray '&' 5⟩) ∧
      SyntaxFault.Justified .version "1.2.3&" ⟨"1.2.3&", .stray '&' 5⟩ := by
  have hformula : Formula.parse "<2 || 1.x.3" = .error (.ofSyntax ⟨"<2 || 1.x.3",
      .misplaced .formula (.piece ['3'] 10) .numberAfterWildcard⟩) := by decide +kernel
  have hversion : Version.parse "1.2.3&" = .error (.ofSyntax ⟨"1.2.3&", .stray '&' 5⟩) := by
    decide +kernel
  exact ⟨⟨hformula, (parse_safe _).1 _ hformula⟩, hversion, (parse_safe _).2.1 _ hversion⟩

end SemverRange
