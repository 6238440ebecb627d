import SemverRange.Proofs.Formula.Boundary
import SemverRange.Proofs.Formula.Cursor
import SemverRange.Proofs.Formula.Tracking
import SemverRange.Proofs.Formula.Unambiguous

/-!
# The first token that does not fit

A row of cells is viable if some acceptable text starts with these cells.  The first misfit of a
text is the first cell that no acceptable text has after the cells before it; the end of the text
counts as a cell.  A text that is refused for its order of tokens is refused at its first misfit,
with one exception: behind a wildcard, a dot, a number and a dot the first misfit is the number,
and what is named is the cell after all of these.

## Main definitions

* `Acceptable`, `Viable`, `ViableKinds` — the cells of formulas, and what these start with.
* `FirstMisfit as k` — the first misfit of the cells `as` has the index `k`.
* `BehindBrokenTarget as i` — the exception, at the index `i`.

## Main results

* `viable_of_leads` — where the automaton goes, the cells are viable.
* `firstMisfit_of_stuck` — where it is stuck, there is the first misfit.
* `Formula.names_misfit` — **the cell that is named** when a text is refused.
-/

namespace SemverRange

/-! ### Viable cells -/

/-- The tokens are those of a text that is a formula. -/
def Acceptable (ts : Tokens) : Prop :=
  ∃ text f, Formula.parse text = .ok f ∧ tokenize text = .ok ts

/-- An acceptable text starts with the cells. -/
def Viable (as : List Cell) : Prop := ∃ ts, Acceptable ts ∧ as <+: ts.cells

/-- An acceptable text starts with cells of the kinds. -/
def ViableKinds (kinds : List String) : Prop :=
  ∃ ts, Acceptable ts ∧ kinds <+: ts.cells.map Cell.kind

/-- The first misfit has the index `k`: the cells before it are viable, and together with it
not even their kinds are. -/
structure FirstMisfit (as : List Cell) (k : ℕ) : Prop where
  /-- There is a cell. -/
  lt : k < as.length
  /-- The cells before it are the first cells of an acceptable text. -/
  viable : Viable (as.take k)
  /-- No acceptable text starts with cells of these kinds. -/
  misfit : ¬ ViableKinds ((as.take (k + 1)).map Cell.kind)

theorem Viable.kinds {as : List Cell} (h : Viable as) : ViableKinds (as.map Cell.kind) := by
  obtain ⟨ts, hts, hstarts⟩ := h
  exact ⟨ts, hts, hstarts.map Cell.kind⟩

theorem ViableKinds.mono {ks ks' : List String} (h : ViableKinds ks) (hstarts : ks' <+: ks) :
    ViableKinds ks' := by
  obtain ⟨ts, hts, hks⟩ := h
  exact ⟨ts, hts, hstarts.trans hks⟩

/-- There is one first misfit at most. -/
theorem FirstMisfit.unique {as : List Cell} {j k : ℕ} (hj : FirstMisfit as j)
    (hk : FirstMisfit as k) : j = k := by
  have hle : ∀ {m n : ℕ}, FirstMisfit as m → FirstMisfit as n → n ≤ m := by
    intro m n hm hn
    by_contra hlt
    have hstarts : as.take (m + 1) <+: as.take n := List.take_prefix_take_left (by omega)
    exact hm.misfit (hn.viable.kinds.mono (hstarts.map Cell.kind))
  exact Nat.le_antisymm (hle hk hj) (hle hj hk)

/-! ### Acceptable texts and the automaton -/

section Texts

variable {text : String} {ts : Tokens}

theorem Formula.parse_eq_read (hts : tokenize text = .ok ts) : Formula.parse text =
    (Read.formula ts.toList).mapError (Stop.toFault text .formula) := by
  rw [Formula.parse, hts]
  rfl

theorem accepts_of_parse {f : Formula} (hts : tokenize text = .ok ts)
    (h : Formula.parse text = .ok f) : Automaton.Accepts ts.toList := by
  have htracks := Automaton.tracks_formula ts.toList
  rw [Formula.parse_eq_read hts] at h
  match hread : Read.formula ts.toList, htracks with
  | .ok _, haccepts => exact haccepts.1
  | .error _, _ =>
    rw [hread] at h
    cases h

/-- What the automaton accepts is not refused by it anywhere. -/
theorem Automaton.Accepts.not_misfit {ts : List Token} {found : Option Token} (h : Accepts ts)
    (hne : ts ≠ []) : ¬ Misfit .start ts found := by
  rcases h with rfl | ⟨s, hrun, hcloses⟩
  · exact absurd rfl hne
  · intro hmisfit
    cases hmisfit with
    | @here pre post s' hts hlead hstuck hfound =>
      rw [hts, run_append, hlead.run, Option.bind_some] at hrun
      cases post with
      | nil =>
        cases hrun
        rw [hstuck] at hcloses
        cases hcloses
      | cons t post =>
        rw [run_cons, hstuck] at hrun
        cases hrun
    | @late pre post slot ds p q hts hlead hfound =>
      rw [hts, run_append, hlead.run] at hrun
      cases hrun

/-- A text is a formula if the automaton accepts its tokens and no numeral is too long. -/
theorem Formula.exists_parse_of_accepts (hts : tokenize text = .ok ts)
    (haccepts : Automaton.Accepts ts.toList) (hshort : Short (numerals ts.toList)) :
    ∃ f, Formula.parse text = .ok f := by
  have htracks := Automaton.tracks_formula ts.toList
  have hparse := Formula.parse_eq_read hts
  match hread : Read.formula ts.toList, htracks with
  | .ok f, _ => exact ⟨f, by rw [hparse, hread]; rfl⟩
  | .error (.misplaced found complaint), hmisfit =>
    exact absurd hmisfit.2 (haccepts.not_misfit hmisfit.1)
  | .error (.ofNumeral e), hlong => exact absurd hshort hlong
  | .error (.ofVersion d), _ =>
    rw [hread] at hparse
    exact (Formula.justified_of_parse hparse).elim

end Texts

theorem tokenize_ofList {cs : List Char} {ts : List Token}
    (h : Token.scanFrom none 0 cs = .ok ts) :
    tokenize (String.ofList cs) = .ok ⟨ts, cs.length⟩ := by
  rw [tokenize, String.toList_ofList, h, String.length_ofList]

namespace Automaton

/-- A state in which the tokens may not end goes on with a wildcard. -/
theorem exists_step_wildcard {s : State} (h : s.closes = false) (c : Char) :
    ∃ s', step s (.wildcard c) = some s' ∧ s'.closes = true := by
  obtain ⟨slot, stage⟩ := s
  cases stage with
  | clause => exact ⟨_, rfl, rfl⟩
  | target => exact ⟨_, rfl, rfl⟩
  | awaiting n wild => exact ⟨_, rfl, rfl⟩
  | holding n wild => cases h
  | pre => cases h
  | build => cases h

/-- After white space between clauses the tokens may not end. -/
theorem closes_step_and {s s' : State} {b : List Char} (h : step s (.and b) = some s') :
    s'.closes = false := by
  obtain ⟨slot, stage⟩ := s
  cases stage <;> cases slot <;> cases h <;> rfl

/-- Nothing leads to the end of the tokens before a last one that leads there. -/
theorem run_concat {s s' : State} {ts : List Token} {t : Token}
    (h : run s (ts ++ [t]) = some s') : ∃ s₀, run s ts = some s₀ ∧ step s₀ t.lexeme = some s' := by
  rw [run_append, Option.bind_eq_some_iff] at h
  obtain ⟨s₀, hrun, hlast⟩ := h
  rw [run_cons, Option.bind_eq_some_iff] at hlast
  obtain ⟨s₁, hstep, hnil⟩ := hlast
  cases hnil
  exact ⟨s₀, hrun, hstep⟩

theorem isAnd_getLast?_of_closes {s s' : State} {ts : List Token} (h : run s ts = some s')
    (hcloses : s'.closes = true) : ∀ t ∈ ts.getLast?, t.lexeme.isAnd = false := by
  intro t ht
  rw [← List.dropLast_append_getLast? t ht] at h
  obtain ⟨s₀, -, hstep⟩ := run_concat h
  obtain ⟨l, p⟩ := t
  cases l with
  | and b =>
    rw [closes_step_and hstep] at hcloses
    cases hcloses
  | _ => rfl

/-! ### Dots and numbers behind a wildcard -/

/-- What comes after a wildcard. -/
theorem exists_step_of_wildcard {s s' : State} {c : Char} (h : step s (.wildcard c) = some s') :
    ∃ slot n, s' = ⟨slot, .holding n true⟩ := by
  obtain ⟨slot, stage⟩ := s
  cases stage with
  | clause => cases h; exact ⟨_, _, rfl⟩
  | target => cases h; exact ⟨_, _, rfl⟩
  | awaiting n wild => cases h; exact ⟨_, _, rfl⟩
  | holding n wild => cases slot <;> cases h
  | pre => cases slot <;> cases h
  | build => cases slot <;> cases h

/-- The automaton does not go past a number behind a wildcard and a dot. -/
theorem run_brokenTarget (s : State) {c : Char} {ds : List Char} {p q r : ℕ} (ts : List Token) :
    run s (⟨.wildcard c, p⟩ :: ⟨.dot, q⟩ :: ⟨.num ds, r⟩ :: ts) = none := by
  rw [run_cons]
  cases hstep : step s (.wildcard c) with
  | none => rfl
  | some s' =>
    obtain ⟨slot, n, rfl⟩ := exists_step_of_wildcard hstep
    rw [Option.bind_some, run_cons]
    show (if n < 3 then _ else none).bind _ = none
    split <;> rfl

/-- A part must come after one part, a wildcard, only behind a dot. -/
theorem eq_of_step_awaiting {s : State} {slot : Slot} {l : Lexeme}
    (h : step s l = some ⟨slot, .awaiting 1 true⟩) : l = .dot ∧ s = ⟨slot, .holding 1 true⟩ := by
  obtain ⟨slot', stage⟩ := s
  cases stage with
  | clause => cases l <;> cases h
  | target => cases l <;> cases h
  | awaiting n wild => cases wild <;> cases l <;> cases h
  | holding n wild =>
    rcases after_cases h with ⟨rfl, hs⟩ | hs | hs | hs | hs <;> cases hs
    exact ⟨rfl, rfl⟩
  | pre => cases l <;> cases slot' <;> cases h
  | build => cases l <;> cases slot' <;> cases h

/-- There is one part, a wildcard, only behind this wildcard. -/
theorem exists_wildcard_of_step {s : State} {slot : Slot} {l : Lexeme}
    (h : step s l = some ⟨slot, .holding 1 true⟩) : ∃ c, l = .wildcard c := by
  obtain ⟨slot', stage⟩ := s
  cases stage with
  | holding n wild => rcases after_cases h with ⟨-, hs⟩ | hs | hs | hs | hs <;> cases hs
  | awaiting n wild => cases wild <;> cases l <;> cases h <;> exact ⟨_, rfl⟩
  | clause => cases l <;> cases h; exact ⟨_, rfl⟩
  | target => cases l <;> cases h; exact ⟨_, rfl⟩
  | pre => cases l <;> cases slot' <;> cases h
  | build => cases l <;> cases slot' <;> cases h

/-- A part must come after one part, a wildcard, only behind a wildcard and a dot. -/
theorem exists_of_run_awaiting {slot : Slot} {ts : List Token}
    (h : run .start ts = some ⟨slot, .awaiting 1 true⟩) :
    ∃ us c p q, ts = us ++ [⟨.wildcard c, p⟩, ⟨.dot, q⟩] := by
  rcases List.eq_nil_or_concat' ts with rfl | ⟨vs, d, rfl⟩
  · cases h
  obtain ⟨s₁, hvs, hdot⟩ := run_concat h
  obtain ⟨hd, rfl⟩ := eq_of_step_awaiting hdot
  rcases List.eq_nil_or_concat' vs with rfl | ⟨us, w, rfl⟩
  · cases hvs
  obtain ⟨s₂, -, hwild⟩ := run_concat hvs
  obtain ⟨c, hw⟩ := exists_wildcard_of_step hwild
  obtain ⟨l, p⟩ := w
  obtain ⟨k, q⟩ := d
  obtain rfl : l = .wildcard c := hw
  obtain rfl : k = .dot := hd
  exact ⟨us, c, p, q, by simp⟩

end Automaton

/-! ### Where the cells are viable and where they are not -/

@[simp] theorem Token.place_cell (t : Token) : t.cell.place = t.place := by
  obtain ⟨l, p⟩ := t
  cases l <;> rfl

theorem Token.kind_cell_ne_eof (t : Token) : t.cell.kind ≠ "EOF" := Cursor.kind_ne_eof t.lexeme

/-- **Where the automaton goes, the cells are viable**: the text is cut off there, and if it may
not end there, a wildcard is put behind. -/
theorem viable_of_leads {text : String} {ts : Tokens} {pre post : List Token} {s : Automaton.State}
    (hts : tokenize text = .ok ts) (hsplit : ts.toList = pre ++ post)
    (hlead : Automaton.Leads .start pre s) : Viable (pre.map Token.cell) := by
  obtain ⟨ts, stop⟩ := ts
  have hscan : Token.scanFrom none 0 text.toList = .ok ts := by
    unfold tokenize at hts
    split at hts
    · next h => cases hts; exact h
    · cases hts
  -- what is put behind the tokens, and its tokens
  have hfinish : ∃ (z : List Char) (us : ℕ → List Token), Blunt z ∧
      (∀ prev pos, Token.scanFrom prev pos z = .ok (us pos)) ∧
      (z = [] → ∀ t ∈ pre.getLast?, t.lexeme.isAnd = false) ∧
      ∀ pos, Automaton.Accepts (pre ++ us pos) ∧ Short (numerals (us pos)) := by
    cases hcloses : s.closes with
    | true =>
      refine ⟨[], fun _ => [], by simp [Blunt], fun _ _ => by rw [Token.scanFrom], fun _ => ?_,
        fun _ => ⟨.inr ⟨s, ?_, hcloses⟩, short_nil⟩⟩
      · exact Automaton.isAnd_getLast?_of_closes hlead.run hcloses
      · rw [List.append_nil, hlead.run]
    | false =>
      obtain ⟨s', hstep, hend⟩ := Automaton.exists_step_wildcard hcloses '*'
      refine ⟨['*'], fun pos => [⟨.wildcard '*', pos⟩], by simp [Blunt], fun prev pos => ?_,
        (fun h => by cases h), fun _ => ⟨.inr ⟨s', ?_, hend⟩, short_nil⟩⟩
      · rw [scanFrom_of_scan (Lexeme.scan_wildcard (.inr (.inr rfl)) prev []),
          if_neg (by simp [Token.isDropped, Lexeme.isAnd]), Token.scanFrom]
        rfl
      · rw [Automaton.run_append, hlead.run, Option.bind_some, Automaton.run_cons, hstep]
        rfl
  obtain ⟨z, us, hz, hus, hlast, haccepts⟩ := hfinish
  obtain ⟨a, r, -, ha⟩ := exists_cut hscan hsplit hz hus hlast
  have htokens := tokenize_ofList ha
  obtain ⟨hacc, hshort⟩ := haccepts (0 + a.length)
  obtain ⟨f, hf⟩ := Formula.exists_parse_of_accepts htokens hacc
    (by rw [numerals_append, short_append]; exact ⟨hlead.short, hshort⟩)
  refine ⟨_, ⟨_, f, hf, htokens⟩, ?_⟩
  rw [Tokens.cells, List.map_append, List.append_assoc]
  exact List.prefix_append _ _

theorem cells_eq {ts : Tokens} {pre post : List Token} (h : ts.toList = pre ++ post) :
    ts.cells = pre.map Token.cell ++ (post.map Token.cell ++ [ts.endCell]) := by
  rw [Tokens.cells, h, List.map_append, List.append_assoc]

theorem eof_notMem_kinds (ts : List Token) : "EOF" ∉ ts.map (Cell.kind ∘ Token.cell) := by
  intro hmem
  obtain ⟨t, -, ht⟩ := List.mem_map.1 hmem
  exact t.kind_cell_ne_eof ht

/-- **Where the automaton is stuck, not even the kinds of the cells are viable.** -/
theorem not_viableKinds_of_stuck {ts : Tokens} {pre post : List Token} {s : Automaton.State}
    (hsplit : ts.toList = pre ++ post) (hne : ts.toList ≠ [])
    (hrun : Automaton.run .start pre = some s) (hstuck : Automaton.Stuck s post) :
    ¬ ViableKinds ((ts.cells.take (pre.length + 1)).map Cell.kind) := by
  rintro ⟨us, ⟨text, f, hf, hus⟩, hstarts⟩
  have haccepts := accepts_of_parse hus hf
  rw [cells_eq hsplit, Tokens.cells, ← List.length_map Token.cell, List.take_length_add_append]
    at hstarts
  simp only [List.map_append, List.map_map, List.map_cons, List.map_nil] at hstarts
  cases post with
  | nil =>
    -- the tokens end here, so those of the acceptable text end here as well
    rw [List.append_nil] at hsplit
    rcases List.prefix_concat_iff.1 hstarts with heq | hshorter
    · have hkinds := List.append_cancel_right heq
      rw [Automaton.run_eq_of_kind_eq .start hkinds] at hrun
      rcases haccepts with hnil | ⟨s', hrun', hcloses⟩
      · rw [hnil, List.map_nil, List.map_eq_nil_iff] at hkinds
        exact hne (hsplit.trans hkinds)
      · rw [hrun'] at hrun
        cases hrun
        rw [hstuck] at hcloses
        cases hcloses
    · exact eof_notMem_kinds _ (hshorter.subset (by simp [Tokens.endCell]))
  | cons t post =>
    -- the acceptable text has a token of this kind here, for which there is no step
    rcases List.prefix_concat_iff.1 hstarts with heq | ⟨rest, hrest⟩
    · have hlast := (List.append_inj' heq rfl).2
      exact absurd (List.singleton_inj.1 hlast) t.kind_cell_ne_eof
    · obtain ⟨us₁, us₂, hsplit', hfirst, -⟩ := List.map_eq_append_iff.1 hrest.symm
      have hkinds : (pre ++ [t]).map (Cell.kind ∘ Token.cell) =
          us₁.map (Cell.kind ∘ Token.cell) := by
        rw [hfirst, List.map_append]
        rfl
      have hnone : Automaton.run .start us₁ = none := by
        rw [← Automaton.run_eq_of_kind_eq .start hkinds, Automaton.run_append, hrun,
          Option.bind_some, Automaton.run_cons, hstuck]
        rfl
      rcases haccepts with hnil | ⟨s', hrun', -⟩
      · rw [hsplit', List.append_eq_nil_iff] at hnil
        rw [hnil.1] at hnone
        cases hnone
      · rw [hsplit', Automaton.run_append, hnone] at hrun'
        cases hrun'

/-- **Where the automaton is stuck, there is the first misfit.** -/
theorem firstMisfit_of_stuck {text : String} {ts : Tokens} {pre post : List Token}
    {s : Automaton.State} (hts : tokenize text = .ok ts) (hsplit : ts.toList = pre ++ post)
    (hne : ts.toList ≠ []) (hlead : Automaton.Leads .start pre s)
    (hstuck : Automaton.Stuck s post) : FirstMisfit ts.cells pre.length := by
  refine ⟨?_, ?_, not_viableKinds_of_stuck hsplit hne hlead.run hstuck⟩
  · simp [Tokens.cells, hsplit]
  · rw [cells_eq hsplit, ← List.length_map Token.cell, List.take_left]
    exact viable_of_leads hts hsplit hlead

/-! ### The cell that is named -/

/-- The cells before the index are a wildcard, a dot, a number and a dot. -/
def BehindBrokenTarget (as : List Cell) (i : ℕ) : Prop :=
  ["WILDCARD", "DOT", "NUM", "DOT"] <:+ (as.take i).map Cell.kind

instance (as : List Cell) (i : ℕ) : Decidable (BehindBrokenTarget as i) :=
  inferInstanceAs (Decidable (_ <:+ _))

/-- The cell with the index, if the tokens behind it are `post`. -/
theorem getElem?_cells {ts : Tokens} {pre post : List Token} (h : ts.toList = pre ++ post) :
    ∃ a, ts.cells[pre.length]? = some a ∧
      a.place = (post.head?.map Token.place).getD .endOfInput := by
  rw [cells_eq h, List.getElem?_append_right (by simp), List.length_map, Nat.sub_self]
  cases post with
  | nil => exact ⟨ts.endCell, rfl, rfl⟩
  | cons t post => exact ⟨t.cell, rfl, t.place_cell⟩

theorem take_cells {ts : Tokens} {pre post : List Token} (h : ts.toList = pre ++ post) :
    (ts.cells.take pre.length).map Cell.kind = pre.map fun t => t.lexeme.kind := by
  rw [cells_eq h, ← List.length_map Token.cell, List.take_left, List.map_map]
  rfl

/-- Where the automaton goes, there is no broken target. -/
theorem not_behindBrokenTarget {ts : Tokens} {pre post : List Token} {s : Automaton.State}
    (hsplit : ts.toList = pre ++ post) (hrun : Automaton.run .start pre = some s) :
    ¬ BehindBrokenTarget ts.cells pre.length := by
  rintro ⟨ks, hks⟩
  rw [take_cells hsplit] at hks
  obtain ⟨us, vs, rfl, -, hvs⟩ := List.map_eq_append_iff.1 hks.symm
  -- tokens of these kinds are as good as any others
  have hkinds : (us ++ vs).map (fun t => t.lexeme.kind) =
      (us ++ ([⟨.wildcard '*', 0⟩, ⟨.dot, 0⟩, ⟨.num [], 0⟩, ⟨.dot, 0⟩] : List Token)).map
        fun t => t.lexeme.kind := by
    rw [List.map_append, List.map_append, hvs]
    rfl
  rw [Automaton.run_eq_of_kind_eq .start hkinds, Automaton.run_append] at hrun
  obtain ⟨s', -, hbroken⟩ := Option.bind_eq_some_iff.1 hrun
  rw [Automaton.run_brokenTarget] at hbroken
  cases hbroken

/-- What is found after a broken target is behind one. -/
theorem behindBrokenTarget_of_late {ts : Tokens} {pre post : List Token} {slot : Automaton.Slot}
    {ds : List Char} {p q : ℕ}
    (hsplit : ts.toList = pre ++ ([⟨.num ds, p⟩, ⟨.dot, q⟩] : List Token) ++ post)
    (hrun : Automaton.run .start pre = some ⟨slot, .awaiting 1 true⟩) :
    BehindBrokenTarget ts.cells (pre ++ ([⟨.num ds, p⟩, ⟨.dot, q⟩] : List Token)).length := by
  obtain ⟨us, c, p', q', rfl⟩ := Automaton.exists_of_run_awaiting hrun
  refine ⟨us.map fun t => t.lexeme.kind, ?_⟩
  rw [take_cells hsplit]
  simp [Lexeme.kind]

/-- **The cell that is named** when a text is refused for the order of its tokens is the first
misfit, except behind a wildcard, a dot, a number and a dot: there the first misfit is this
number. -/
theorem Formula.names_misfit {text : String} {ts : Tokens} {e : SyntaxFault}
    (hts : tokenize text = .ok ts) (h : Formula.parse text = .error (.ofSyntax e)) :
    ∃ (i : ℕ) (a : Cell) (complaint : Complaint), ts.cells[i]? = some a ∧
      e.reason = .misplaced .formula a.place complaint ∧
      (¬ BehindBrokenTarget ts.cells i → FirstMisfit ts.cells i) ∧
      (BehindBrokenTarget ts.cells i → FirstMisfit ts.cells (i - 2)) := by
  have htracks := Automaton.tracks_formula ts.toList
  rw [Formula.parse_eq_read hts] at h
  match hread : Read.formula ts.toList, htracks with
  | .ok f, _ =>
    rw [hread] at h
    cases h
  | .error (.ofNumeral d), _ =>
    rw [hread] at h
    cases h
  | .error (.ofVersion d), _ =>
    rw [hread] at h
    cases h
  | .error (.misplaced found complaint), ⟨hne, hmisfit⟩ =>
    rw [hread] at h
    cases h
    cases hmisfit with
    | @here pre post s hsplit hlead hstuck hfound =>
      obtain ⟨a, ha, hplace⟩ := getElem?_cells hsplit
      refine ⟨pre.length, a, complaint, ha, ?_, fun _ => ?_, fun hbroken => ?_⟩
      · rw [hplace, hfound]
      · exact firstMisfit_of_stuck hts hsplit hne hlead hstuck
      · exact absurd hbroken (not_behindBrokenTarget hsplit hlead.run)
    | @late pre post slot ds p q hsplit hlead hfound =>
      have hsplit' : ts.toList = pre ++ ([⟨.num ds, p⟩, ⟨.dot, q⟩] : List Token) ++ post := by
        rw [hsplit, List.append_assoc]
        rfl
      obtain ⟨a, ha, hplace⟩ := getElem?_cells hsplit'
      refine ⟨_, a, complaint, ha, ?_, fun hno => ?_, fun _ => ?_⟩
      · rw [hplace, hfound]
      · exact absurd (behindBrokenTarget_of_late hsplit' hlead.run) hno
      · rw [List.length_append]
        exact firstMisfit_of_stuck hts hsplit hne hlead rfl

/-- A dash behind an operator and a target. -/
theorem Formula.names_misfit_dash :
    let text := "<1.2 - 3"
    let ts : Tokens := ⟨[⟨.op .lt, 0⟩, ⟨.num ['1'], 1⟩, ⟨.dot, 2⟩, ⟨.num ['2'], 3⟩,
      ⟨.dash [' ', '-', ' '], 4⟩, ⟨.num ['3'], 7⟩], 8⟩
    let e : SyntaxFault := ⟨text, .misplaced .formula (.piece ['-'] 4) .unexpected⟩
    (tokenize text = .ok ts ∧ Formula.parse text = .error (.ofSyntax e)) ∧
      ∃ (i : ℕ) (a : Cell) (complaint : Complaint), ts.cells[i]? = some a ∧
        e.reason = .misplaced .formula a.place complaint ∧
        (¬ BehindBrokenTarget ts.cells i → FirstMisfit ts.cells i) ∧
        (BehindBrokenTarget ts.cells i → FirstMisfit ts.cells (i - 2)) := by
  intro text ts e
  have hts : tokenize text = .ok ts := by decide +kernel
  have h : Formula.parse text = .error (.ofSyntax e) := by decide +kernel
  exact ⟨⟨hts, h⟩, names_misfit hts h⟩

/-- In `*.1.x` the first misfit is the number after the wildcard.  What is named as the number
after a wildcard is the wildcard behind it. -/
theorem Formula.names_wildcard_behind_misfit :
    let text := "*.1.x"
    let ts : Tokens := ⟨[⟨.wildcard '*', 0⟩, ⟨.dot, 1⟩, ⟨.num ['1'], 2⟩, ⟨.dot, 3⟩,
      ⟨.wildcard 'x', 4⟩], 5⟩
    tokenize text = .ok ts ∧
      Formula.parse text = .error (.ofSyntax ⟨text,
        .misplaced .formula (.piece ['x'] 4) .numberAfterWildcard⟩) ∧
      FirstMisfit ts.cells 2 ∧
      ∀ i a, ts.cells[i]? = some a → a.place = .piece ['x'] 4 → ¬ FirstMisfit ts.cells i := by
  intro text ts
  have hts : tokenize text = .ok ts := by decide +kernel
  have hfirst : FirstMisfit ts.cells 2 := by
    have hlead : Automaton.Leads .start [⟨.wildcard '*', 0⟩, ⟨.dot, 1⟩]
        ⟨.first, .awaiting 1 true⟩ := ⟨rfl, short_nil⟩
    have hsplit : ts.toList = [⟨.wildcard '*', 0⟩, ⟨.dot, 1⟩] ++
        [⟨.num ['1'], 2⟩, ⟨.dot, 3⟩, ⟨.wildcard 'x', 4⟩] := rfl
    exact firstMisfit_of_stuck hts hsplit (List.cons_ne_nil _ _) hlead rfl
  refine ⟨hts, by decide +kernel, hfirst, ?_⟩
  intro i a ha hplace hmisfit
  -- the cell that is named is not the third
  obtain rfl := hmisfit.unique hfirst
  cases ha
  revert hplace
  decide

end SemverRange
