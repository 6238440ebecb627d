import SemverRange.Proofs.Formula.Automaton

/-!
# The reading functions and the automaton

Each reading function goes along with the automaton: what it leaves is left in a state that ends
a target, a clause or a range, and what it refuses is refused where the automaton is stuck.  The
parts of a target are the one place where the two differ, since the reader asks only behind the
last part whether a number follows a wildcard.

## Main definitions

* `Automaton.AtEnd`, `Automaton.AtRangeEnd` — a target, a range has been read.
* `Automaton.partsAfter` — the further parts of a target, and what all the parts make.

## Main results

* `Automaton.tracks_partsAfter` — reading the parts of a target.
* `Automaton.tracks_target`, `Automaton.tracks_clauses`, `Automaton.tracks_ranges` — reading
  targets, clauses and ranges.
* `Automaton.tracks_formula` — **what is read is accepted, and what is refused is refused where
  the automaton is stuck**, but for a number after a wildcard.
-/

namespace SemverRange

namespace Automaton

/-! ### Numerals -/

theorem numeric_numeral (ds : List Char) : Numeric [ds] (Read.numeral ds) := by
  unfold Read.numeral Numeral.read
  split
  · next h => simpa [Numeric, Except.mapError, Short] using h
  · next h => simpa [Numeric, Except.mapError, Short] using h

theorem Numeric.map {α β : Type} {ns : List (List Char)} {x : Except Stop α} (f : α → β)
    (hx : Numeric ns x) : Numeric ns (x >>= fun a => pure (f a)) := by
  match x, hx with
  | .ok _, hshort => exact hshort
  | .error (.ofNumeral _), hlong => exact hlong

theorem numeric_identifiers (ids : List (List Char)) :
    Numeric (ids.filter fun i => i.all Char.isDigit) (ids.mapM Read.identifier) := by
  induction ids with
  | nil => exact short_nil
  | cons i ids ih =>
    rw [List.mapM_cons]
    have hi : Numeric ([i].filter fun i => i.all Char.isDigit) (Read.identifier i) := by
      unfold Read.identifier
      split
      · next hdigits =>
        rw [show [i].filter (fun i => i.all Char.isDigit) = [i] from
          List.filter_cons_of_pos hdigits]
        exact (numeric_numeral i).map _
      · next hother =>
        rw [show [i].filter (fun i => i.all Char.isDigit) = [] from
          List.filter_cons_of_neg hother]
        exact short_nil
    rw [← List.singleton_append, List.filter_append]
    -- a long numeral is in the first identifier or in the others
    match hx : Read.identifier i, hi with
    | .error (.ofNumeral _), hlong =>
      intro hshort
      exact hlong (short_append.1 hshort).1
    | .ok x, hshort =>
      match hxs : ids.mapM Read.identifier, ih with
      | .error (.ofNumeral _), hlong =>
        intro hall
        exact hlong (short_append.1 hall).2
      | .ok xs, hrest => exact short_append.2 ⟨hshort, hrest⟩

/-! ### Targets -/

/-- Some part is a wildcard. -/
def hasWildcard (ps : List Part) : Bool := ps.contains .wildcard

/-- A target has been read in the slot, and what comes next is looked at as between targets. -/
structure AtEnd (slot : Slot) (s : State) (rest : List Token) : Prop where
  /-- The slot has not changed. -/
  slot_eq : s.slot = slot
  /-- The tokens may end here. -/
  closes : s.closes = true
  /-- What comes next is no part of the target. -/
  next : ∀ t ∈ rest.head?, step s t.lexeme = between slot t.lexeme

theorem numberAfterWildcard_of_notMem {ps : List Part} (h : hasWildcard ps = false) :
    Part.numberAfterWildcard ps = false := by
  induction ps with
  | nil => rfl
  | cons p ps ih =>
    cases p with
    | wildcard => simp [hasWildcard] at h
    | number n =>
      have hps : hasWildcard ps = false := by simpa [hasWildcard] using h
      simpa [Part.numberAfterWildcard] using ih hps

/-- A number after a wildcard is found whatever parts come after it. -/
theorem numberAfterWildcard_append {ps : List Part} (h : hasWildcard ps = true) (n : ℕ)
    (qs : List Part) : Part.numberAfterWildcard (ps ++ .number n :: qs) = true := by
  induction ps with
  | nil => cases h
  | cons p ps ih =>
    cases p with
    | wildcard => simp [Part.numberAfterWildcard]
    | number m =>
      have hps : hasWildcard ps = true := by simpa [hasWildcard] using h
      simpa [Part.numberAfterWildcard] using ih hps

theorem numberAfterWildcard_wildcard {ps : List Part}
    (h : Part.numberAfterWildcard ps = false) :
    Part.numberAfterWildcard (ps ++ [.wildcard]) = false := by
  induction ps with
  | nil => rfl
  | cons p ps ih =>
    cases p with
    | wildcard => simpa [Part.numberAfterWildcard] using h
    | number m =>
      have hps : Part.numberAfterWildcard ps = false := by
        simpa [Part.numberAfterWildcard] using h
      simpa [Part.numberAfterWildcard] using ih hps

/-- All the parts are numbers if and only if there is no wildcard. -/
theorem length_filterMap_number? (ps : List Part) :
    (ps.filterMap Part.number?).length = ps.length ↔ hasWildcard ps = false := by
  rw [List.filterMap_length_eq_length]
  simp only [hasWildcard, List.contains_eq_mem, decide_eq_false_iff_not]
  constructor
  · intro h hmem
    exact absurd (h _ hmem) (by decide)
  · intro h p hp
    cases p with
    | number n => rfl
    | wildcard => exact absurd hp h

theorem stuck_of_startsAttached {slot : Slot} {n : ℕ} {wild : Bool} {ts : List Token}
    (hn : ¬ (n = 3 ∧ wild = false)) (h : Read.startsAttached ts = true) :
    Stuck ⟨slot, .holding n wild⟩ ts := by
  unfold Read.startsAttached at h
  split at h
  · exact if_neg hn
  · exact if_neg hn
  · cases h

theorem next_of_startsAttached {slot : Slot} {n : ℕ} {wild : Bool} {ts : List Token}
    (hdot : n < 3 → ∀ t ∈ ts.head?, t.lexeme ≠ .dot) (h : Read.startsAttached ts = false) :
    AtEnd slot ⟨slot, .holding n wild⟩ ts := by
  refine ⟨rfl, rfl, ?_⟩
  intro t ht
  rw [List.eq_cons_of_mem_head? ht] at hdot h
  obtain ⟨l, pos⟩ := t
  show after slot n wild l = between slot l
  cases l with
  | dot =>
    have hn : ¬ n < 3 := fun hn => hdot hn _ rfl rfl
    cases slot <;> exact if_neg hn
  | prerelease ids => cases h
  | build ids => cases h
  | _ => rfl

/-- Build metadata, if there is any, and then the end of the target. -/
theorem atEnd_build (slot : Slot) {s : State} {ts : List Token}
    (hs : s = ⟨slot, .holding 3 false⟩ ∧ (∀ ids pos ts', ts ≠ ⟨.prerelease ids, pos⟩ :: ts') ∨
      s = ⟨slot, .pre⟩) :
    ∃ pre s', ts = pre ++ (Read.build ts).2 ∧ Leads s pre s' ∧ AtEnd slot s' (Read.build ts).2 := by
  unfold Read.build
  split
  · next ids pos ts =>
    refine ⟨[⟨.build ids, pos⟩], ⟨slot, .build⟩, rfl, .single ?_ short_nil, rfl, rfl, ?_⟩
    · rcases hs with ⟨rfl, -⟩ | rfl <;> rfl
    · intro t _
      rfl
  · next hbuild =>
    refine ⟨[], s, rfl, .refl s, ?_, ?_, ?_⟩
    · rcases hs with ⟨rfl, -⟩ | rfl <;> rfl
    · rcases hs with ⟨rfl, -⟩ | rfl <;> rfl
    · intro t ht
      have hts := List.eq_cons_of_mem_head? ht
      obtain ⟨l, pos⟩ := t
      rcases hs with ⟨rfl, hpre⟩ | rfl
      · show after slot 3 false l = between slot l
        cases l with
        | dot => cases slot <;> rfl
        | prerelease ids => exact absurd hts (hpre ids pos _)
        | build ids => exact absurd hts (hbuild ids pos _)
        | _ => rfl
      · show afterPre slot l = between slot l
        cases l with
        | build ids => exact absurd hts (hbuild ids pos _)
        | _ => rfl

/-- What is attached to three numbers. -/
theorem tracks_version (slot : Slot) (major minor patch : ℕ) (ts : List Token) :
    Tracks ⟨slot, .holding 3 false⟩ ts (AtEnd slot) (do
      let (pre, ts) ← Read.prerelease ts
      let (data, ts) := Read.build ts
      let v ← (Version.ofParts? major minor patch pre data).mapError Stop.ofVersion
      pure (Target.version v, ts)) := by
  have hpre : Tracks ⟨slot, .holding 3 false⟩ ts (fun s rest =>
      s = ⟨slot, .holding 3 false⟩ ∧ (∀ ids pos ts', rest ≠ ⟨.prerelease ids, pos⟩ :: ts') ∨
        s = ⟨slot, .pre⟩) (Read.prerelease ts) := by
    unfold Read.prerelease
    split
    · next ids pos ts =>
      have hids : Numeric (⟨.prerelease ids, pos⟩ : Token).lexeme.numerals
          (ids.mapM Read.identifier) := numeric_identifiers ids
      refine .bind_numeric hids fun is hshort => ?_
      exact .cons rfl hshort (.stay (.inr rfl))
    · next hno => exact .stay (.inl ⟨rfl, hno⟩)
  refine hpre.bind fun pre s rest hs => ?_
  obtain ⟨taken, s', htaken, hlead, hend⟩ := atEnd_build slot hs
  show Tracks s rest (AtEnd slot)
    ((Version.ofParts? major minor patch pre (Read.build rest).1).mapError Stop.ofVersion >>=
      fun v => pure (Target.version v, (Read.build rest).2))
  cases Version.ofParts? major minor patch pre (Read.build rest).1 with
  | error d => exact trivial
  | ok v => exact ⟨taken, s', htaken, hlead, hend⟩

/-- What the parts of a target make of it.  A dot may come next only after three parts. -/
theorem tracks_finish (slot : Slot) {ps : List Part} (last : Token) {ts : List Token}
    (hlen : ps.length ≤ 3) (hord : Part.numberAfterWildcard ps = false)
    (hdot : ps.length < 3 → ∀ t ∈ ts.head?, t.lexeme ≠ .dot) :
    Tracks ⟨slot, .holding ps.length (hasWildcard ps)⟩ ts (AtEnd slot)
      (Read.finish ps last ts) := by
  have hfull := length_filterMap_number? ps
  have hle := List.length_filterMap_le Part.number? ps
  by_cases h3 : (ps.filterMap Part.number?).length = 3
  · have hps : ps.length = 3 := by omega
    have hwild : hasWildcard ps = false := hfull.1 (by omega)
    obtain ⟨major, minor, patch, hns⟩ := List.length_eq_three.1 h3
    rw [Read.finish, if_neg (Bool.eq_false_iff.1 hord), hns, hps, hwild]
    exact tracks_version slot major minor patch ts
  · have hpartial : ¬ (ps.length = 3 ∧ hasWildcard ps = false) := by
      rintro ⟨hps, hwild⟩
      exact h3 (hps ▸ hfull.2 hwild)
    rw [Read.finish_of_length_ne hord h3]
    split
    · next hattached => exact .misplaced (stuck_of_startsAttached hpartial hattached)
    · next hattached =>
      exact .stay (next_of_startsAttached hdot (Bool.eq_false_iff.2 hattached))

/-- A part, and what is read after it. -/
theorem Tracks.bind_part {β : Type} {s : State} {slot : Slot} {n : ℕ} {wild : Bool}
    {ts : List Token} {P : State → List Token → Prop}
    {f : (Part × Token) × List Token → Except Stop (β × List Token)} (hopen : s.closes = false)
    (hs : ∀ t ∈ ts.head?, step s t.lexeme = part slot n wild t.lexeme)
    (hnum : ∀ ds p rest m, ts = ⟨.num ds, p⟩ :: rest → Short [ds] →
      Tracks s ts P (f ((.number m, ⟨.num ds, p⟩), rest)))
    (hwild : ∀ c p rest, Tracks ⟨slot, .holding (n + 1) true⟩ rest P
      (f ((.wildcard, ⟨.wildcard c, p⟩), rest))) :
    Tracks s ts P (Read.part ts >>= f) := by
  cases ts with
  | nil => exact Misfit.of_stuck hopen
  | cons t ts =>
    obtain ⟨l, p⟩ := t
    have hl : step s l = part slot n wild l := hs _ rfl
    cases l with
    | num ds =>
      show Tracks s _ P ((Read.numeral ds >>= fun m => pure ((.number m, ⟨.num ds, p⟩), ts)) >>= f)
      rw [bind_assoc]
      have hds : Numeric (⟨.num ds, p⟩ : Token).lexeme.numerals (Read.numeral ds) :=
        numeric_numeral ds
      exact .bind_numeric hds fun m hshort => hnum ds p ts m rfl hshort
    | wildcard c => exact (hwild c p ts).cons hl short_nil
    | _ => exact Misfit.of_stuck hl

/-- A part is looked for at the first of the tokens. -/
theorem part_outcome (ts : List Token) :
    match Read.part ts with
    | .ok ((_, t), _) => ts.head? = some t
    | .error (.misplaced found _) => ts.head? = found
    | .error (.ofNumeral _) => ¬ Short (numerals ts)
    | .error (.ofVersion _) => False := by
  cases ts with
  | nil => rfl
  | cons t ts =>
    obtain ⟨l, p⟩ := t
    cases l with
    | num ds =>
      have hds := numeric_numeral ds
      unfold Read.part
      match hx : Read.numeral ds, hds with
      | .ok m, _ =>
        simp only [hx]
        rfl
      | .error (.ofNumeral e), hlong =>
        simp only [hx]
        intro hshort
        rw [numerals_cons, short_append] at hshort
        exact hlong hshort.1
    | _ => rfl

/-- Further parts, and what all the parts make. -/
def partsAfter (ps : List Part) (n : ℕ) (last : Token) (ts : List Token) :
    Except Stop (Target × List Token) :=
  Read.parts n last ts >>= fun x => Read.finish (ps ++ x.1.1) x.1.2 x.2

/-- No further part is read where none is asked for, or where no dot comes next. -/
theorem partsAfter_of_no_dot (ps : List Part) {n : ℕ} (last : Token) {ts : List Token}
    (h : 0 < n → ∀ t ∈ ts.head?, t.lexeme ≠ .dot) :
    partsAfter ps n last ts = Read.finish ps last ts := by
  have hparts : Read.parts n last ts = .ok (([], last), ts) := by
    cases n with
    | zero => rfl
    | succ n =>
      cases ts with
      | nil => rfl
      | cons t ts =>
        rw [Read.parts, if_neg (h n.succ_pos t rfl)]
        rfl
  rw [partsAfter, hparts]
  show Read.finish (ps ++ []) last ts = _
  rw [List.append_nil]

theorem partsAfter_dot (ps : List Part) (n : ℕ) (last : Token) (p : ℕ) (ts : List Token) :
    partsAfter ps (n + 1) last (⟨.dot, p⟩ :: ts) =
      Read.part ts >>= fun y => partsAfter (ps ++ [y.1.1]) n y.1.2 y.2 := by
  simp [partsAfter, Read.parts, bind_assoc]

/-- Either no further part is read, or one is read behind a dot. -/
theorem no_dot_or_dot (n : ℕ) (ts : List Token) :
    (0 < n → ∀ t ∈ ts.head?, t.lexeme ≠ .dot) ∨
      ∃ k p rest, n = k + 1 ∧ ts = ⟨.dot, p⟩ :: rest := by
  cases n with
  | zero => exact .inl fun h => absurd h (Nat.lt_irrefl 0)
  | succ n =>
    cases ts with
    | nil =>
      refine .inl fun _ t ht => ?_
      cases ht
    | cons t ts =>
      obtain ⟨l, p⟩ := t
      by_cases hdot : l = .dot
      · exact .inr ⟨n, p, ts, rfl, by rw [hdot]⟩
      · refine .inl fun _ u hu => ?_
        cases hu
        exact hdot

/-- After a number behind a wildcard, the target is refused at its last part, or where its next
part should be. -/
theorem tracks_partsAfter_broken {s : State} {slot : Slot} {ps : List Part} {n : ℕ}
    {ds : List Char} {p : ℕ} {ts : List Token} {P : State → List Token → Prop}
    (hs : s = ⟨slot, .awaiting ps.length true⟩) (hlen : ps.length + (n + 1) = 3)
    (hwild : hasWildcard ps = true) (m : ℕ) :
    Tracks s (⟨.num ds, p⟩ :: ts) P (partsAfter (ps ++ [.number m]) n ⟨.num ds, p⟩ ts) := by
  have hbroken : ∀ qs last us, Read.finish (ps ++ .number m :: qs) last us =
      .error (.misplaced (some last) .numberAfterWildcard) := by
    intro qs last us
    rw [Read.finish, if_pos (numberAfterWildcard_append hwild m qs)]
    rfl
  rcases no_dot_or_dot n ts with hno | ⟨k, q, rest, rfl, rfl⟩
  · -- no further part is read, so the number is the last
    rw [partsAfter_of_no_dot _ _ hno, hbroken [] _ _, hs]
    exact Misfit.of_stuck rfl
  · have hone : ps.length = 1 := by
      cases ps with
      | nil => cases hwild
      | cons _ _ =>
        simp only [List.length_cons] at hlen ⊢
        omega
    obtain rfl : k = 0 := by omega
    -- whatever stands after the dot is found there
    have hlate : ∀ found, rest.head? = found →
        Misfit s (⟨.num ds, p⟩ :: ⟨.dot, q⟩ :: rest) found := by
      intro found hfound
      rw [hs, hone]
      exact .late (List.nil_append _).symm (.refl _) hfound
    rw [partsAfter_dot]
    have houtcome := part_outcome rest
    cases hx : Read.part rest with
    | ok r =>
      obtain ⟨⟨r, t⟩, us⟩ := r
      rw [hx] at houtcome
      show Tracks s _ P (partsAfter (ps ++ [.number m] ++ [r]) 0 t us)
      rw [partsAfter_of_no_dot _ _ fun h => absurd h (Nat.lt_irrefl 0), List.append_assoc,
        List.singleton_append, hbroken]
      exact hlate (some t) houtcome
    | error e =>
      rw [hx] at houtcome
      cases e with
      | misplaced found complaint => exact hlate found houtcome
      | ofNumeral d =>
        intro hshort
        rw [numerals_cons, numerals_cons, short_append, short_append] at hshort
        exact houtcome hshort.2.2
      | ofVersion d => exact houtcome.elim

/-- Further parts after those that have been read, none of them a number after a wildcard. -/
theorem tracks_partsAfter (slot : Slot) {ps : List Part} {n : ℕ} (last : Token) (ts : List Token)
    (hlen : ps.length + n = 3) (hord : Part.numberAfterWildcard ps = false) :
    Tracks ⟨slot, .holding ps.length (hasWildcard ps)⟩ ts (AtEnd slot)
      (partsAfter ps n last ts) := by
  induction n generalizing ps last ts with
  | zero =>
    rw [partsAfter_of_no_dot _ _ fun h => absurd h (Nat.lt_irrefl 0)]
    exact tracks_finish slot last (by omega) hord (by omega)
  | succ n ih =>
    rcases no_dot_or_dot (n + 1) ts with hno | ⟨k, p, rest, hk, rfl⟩
    · rw [partsAfter_of_no_dot _ _ hno]
      exact tracks_finish slot last (by omega) hord fun _ => hno n.succ_pos
    · have hdot : step ⟨slot, .holding ps.length (hasWildcard ps)⟩ .dot =
          some ⟨slot, .awaiting ps.length (hasWildcard ps)⟩ := if_pos (by omega)
      rw [partsAfter_dot]
      refine .cons hdot short_nil (.bind_part rfl (fun _ _ => rfl) ?_ ?_)
      · intro ds q us m hrest hshort
        subst hrest
        cases hwild : hasWildcard ps with
        | true => exact tracks_partsAfter_broken rfl (by omega) hwild m
        | false =>
          have hnumbers : hasWildcard (ps ++ [.number m]) = false := by
            simpa [hasWildcard] using hwild
          have hlen' : (ps ++ [Part.number m]).length + n = 3 := by simp; omega
          have hparts := ih ⟨.num ds, q⟩ us hlen' (numberAfterWildcard_of_notMem hnumbers)
          rw [hnumbers, List.length_append] at hparts
          exact hparts.cons rfl hshort
      · intro c q us
        have hwild : hasWildcard (ps ++ [.wildcard]) = true := by simp [hasWildcard]
        have hlen' : (ps ++ [Part.wildcard]).length + n = 3 := by simp; omega
        have hparts := ih ⟨.wildcard c, q⟩ us hlen' (numberAfterWildcard_wildcard hord)
        rwa [hwild, List.length_append] at hparts

/-- The first part of a target, and the further parts. -/
theorem tracks_firstPart {s : State} {slot : Slot} {ts : List Token} (hopen : s.closes = false)
    (hs : ∀ t ∈ ts.head?, step s t.lexeme = part slot 0 false t.lexeme) :
    Tracks s ts (AtEnd slot)
      (Read.part ts >>= fun y => partsAfter [y.1.1] 2 y.1.2 y.2) := by
  refine .bind_part hopen hs ?_ ?_
  · intro ds p rest m hts hshort
    subst hts
    have hparts := tracks_partsAfter slot ⟨.num ds, p⟩ rest
      (show [Part.number m].length + 2 = 3 from rfl) rfl
    exact hparts.cons (hs _ rfl) hshort
  · intro c p rest
    exact tracks_partsAfter slot ⟨.wildcard c, p⟩ rest
      (show [Part.wildcard].length + 2 = 3 from rfl) rfl

/-- **A target is read as the automaton goes**, from any state in which a target must come. -/
theorem tracks_target {s : State} {slot : Slot} {ts : List Token} (hopen : s.closes = false)
    (hs : ∀ t ∈ ts.head?, step s t.lexeme = target slot t.lexeme) :
    Tracks s ts (AtEnd slot) (Read.target ts) := by
  show Tracks s ts (AtEnd slot)
    (Read.part (Read.skipV ts) >>= fun y => partsAfter [y.1.1] 2 y.1.2 y.2)
  unfold Read.skipV
  split
  · next c p ts =>
    refine .cons (hs _ rfl) short_nil ?_
    exact tracks_firstPart rfl fun _ _ => rfl
  · next hno =>
    refine tracks_firstPart hopen ?_
    intro t ht
    have hts := List.eq_cons_of_mem_head? ht
    rw [hs t ht]
    obtain ⟨l, p⟩ := t
    cases l with
    | v c => exact absurd hts (hno c p _)
    | _ => rfl

/-! ### Clauses and ranges -/

theorem tracks_wrapTarget {α : Type} {s : State} {slot : Slot} {ts : List Token}
    (f : SemverRange.Target → α) (hopen : s.closes = false)
    (hs : ∀ t ∈ ts.head?, step s t.lexeme = target slot t.lexeme) :
    Tracks s ts (AtEnd slot)
      (do let (t, ts) ← Read.target ts; pure (f t, ts) : Except Stop (α × List Token)) :=
  (tracks_target hopen hs).map f

/-- The slot of a clause: after an operator there is no way to a dash. -/
def clauseSlot (slot : Slot) (ts : List Token) : Slot :=
  if Read.startsOperator ts then .further else slot

theorem clauseSlot_further (ts : List Token) : clauseSlot .further ts = .further := by
  unfold clauseSlot
  split <;> rfl

theorem tracks_clause (slot : Slot) (ts : List Token) :
    Tracks ⟨slot, .clause⟩ ts (AtEnd (clauseSlot slot ts)) (Read.clause ts) := by
  unfold Read.clause
  split
  · next o p ts =>
    refine .cons rfl short_nil ?_
    exact tracks_wrapTarget _ rfl fun _ _ => rfl
  · next sh p ts =>
    refine .cons rfl short_nil ?_
    exact tracks_wrapTarget _ rfl fun _ _ => rfl
  · next hop hshorthand =>
    have hno : Read.startsOperator ts = false := by
      unfold Read.startsOperator
      split
      · exact absurd rfl (hop _ _ _)
      · exact absurd rfl (hshorthand _ _ _)
      · rfl
    rw [clauseSlot, hno]
    refine tracks_wrapTarget _ rfl ?_
    intro t ht
    have hts := List.eq_cons_of_mem_head? ht
    obtain ⟨l, p⟩ := t
    cases l with
    | op o => exact absurd hts (hop o p _)
    | shorthand sh => exact absurd hts (hshorthand sh p _)
    | _ => rfl

/-- Only bars may come next. -/
def bar : Lexeme → Option State
  | .or _ => some .start
  | _ => none

/-- A range has been read. -/
structure AtRangeEnd (s : State) (rest : List Token) : Prop where
  /-- The tokens may end here. -/
  closes : s.closes = true
  /-- Only bars may come next. -/
  next : ∀ t ∈ rest.head?, step s t.lexeme = bar t.lexeme

/-- Behind a target there may be white space and a clause, unless a dash came before the target. -/
theorem AtEnd.step_and {s : State} {slot : Slot} {b : List Char} {p : ℕ} {ts : List Token}
    (h : AtEnd slot s (⟨.and b, p⟩ :: ts)) (hslot : slot ≠ .upper) :
    step s (.and b) = some ⟨.further, .clause⟩ := by
  rw [h.next _ rfl]
  cases slot with
  | upper => exact absurd rfl hslot
  | _ => rfl

theorem tracks_clauses {s : State} {slot : Slot} {ts : List Token} (hend : AtEnd slot s ts)
    (hslot : slot ≠ .upper) (hdash : slot = .first → ∀ t ∈ ts.head?, ∀ b, t.lexeme ≠ .dash b) :
    Tracks s ts AtRangeEnd (Read.clauses ts) := by
  -- white space leads to the slot of further clauses, and there no dash may come
  induction ts using Read.clauses.induct generalizing s slot with
  | case1 b p ts e he =>
    have hclause := tracks_clause .further ts
    rw [he] at hclause
    rw [Read.clauses_and, he]
    exact hclause.error.cons (hend.step_and hslot) short_nil
  | case2 b p ts c rest hc ih =>
    have hclause := tracks_clause .further ts
    rw [hc, clauseSlot_further] at hclause
    obtain ⟨pre, s', hts, hlead, hend'⟩ := hclause
    rw [Read.clauses_and, hc]
    refine .cons (hend.step_and hslot) short_nil ?_
    rw [hts]
    exact ((ih hend' (by decide) fun h => by cases h).map _).append hlead
  | case3 ts hno =>
    rw [Read.clauses]
    · refine .stay ⟨hend.closes, ?_⟩
      intro t ht
      have hts := List.eq_cons_of_mem_head? ht
      rw [hend.next t ht]
      obtain ⟨l, p⟩ := t
      cases l with
      | and b => exact absurd hts (hno b p _)
      | dash b =>
        cases slot with
        | first => exact absurd rfl (hdash rfl _ ht b)
        | _ => rfl
      | _ => cases slot <;> rfl
    · exact hno

theorem tracks_rangeAfter {s : State} {ts : List Token} (t : SemverRange.Target)
    (hend : AtEnd .first s ts) : Tracks s ts AtRangeEnd (Read.rangeAfter t ts) := by
  unfold Read.rangeAfter
  split
  · next b p ts =>
    have hstep : step s (.dash b) = some ⟨.upper, .target⟩ := hend.next _ rfl
    refine .cons hstep short_nil ?_
    refine (tracks_target rfl fun _ _ => rfl).bind ?_
    intro u s' rest hend'
    refine .stay ⟨hend'.closes, ?_⟩
    intro k hk
    rw [hend'.next k hk]
    obtain ⟨l, q⟩ := k
    cases l <;> rfl
  · next hdash =>
    have hhead : ∀ k ∈ ts.head?, ∀ b, k.lexeme ≠ .dash b := by
      intro k hk b hb
      have hts := List.eq_cons_of_mem_head? hk
      obtain ⟨l, p⟩ := k
      obtain rfl : l = .dash b := hb
      exact hdash b p _ hts
    exact (tracks_clauses hend (by decide) fun _ => hhead).map fun cs => Range.all (.bare t :: cs)

theorem tracks_range (ts : List Token) : Tracks .start ts AtRangeEnd (Read.range ts) := by
  unfold Read.range
  split
  · next hop =>
    refine (tracks_clause .first ts).bind ?_
    intro c s rest hend
    rw [clauseSlot, if_pos hop] at hend
    exact (tracks_clauses hend (by decide) fun h => by cases h).map fun cs => Range.all (c :: cs)
  · next hno =>
    have hs : ∀ t ∈ ts.head?, step .start t.lexeme = target .first t.lexeme := by
      intro t ht
      rw [List.eq_cons_of_mem_head? ht] at hno
      obtain ⟨l, p⟩ := t
      cases l with
      | op o => exact absurd rfl hno
      | shorthand sh => exact absurd rfl hno
      | _ => rfl
    refine (tracks_target rfl hs).bind ?_
    intro t s rest hend
    exact tracks_rangeAfter t hend

/-- After all the ranges, nothing may come next. -/
theorem tracks_ranges (ts : List Token) :
    Tracks .start ts (fun s rest => s.closes = true ∧ ∀ t ∈ rest.head?, step s t.lexeme = none)
      (Read.ranges ts) := by
  have hrange := tracks_range ts
  induction ts using Read.ranges.induct with
  | case1 ts e he =>
    rw [he] at hrange
    rw [Read.ranges_of_error he]
    exact hrange.error
  | case2 ts r b p rest hr ih =>
    rw [hr] at hrange
    rw [Read.ranges_of_or hr]
    obtain ⟨pre, s, hts, hlead, hend⟩ := hrange
    rw [hts]
    refine Tracks.append ?_ hlead
    refine .cons (hend.next _ rfl) short_nil ?_
    exact (ih (tracks_range rest)).map _
  | case3 ts r rest hno hr =>
    rw [hr] at hrange
    rw [Read.ranges_of_not_or hr hno]
    obtain ⟨pre, s, hts, hlead, hend⟩ := hrange
    refine ⟨pre, s, hts, hlead, hend.closes, ?_⟩
    intro t ht
    have hrest := List.eq_cons_of_mem_head? ht
    rw [hend.next t ht]
    obtain ⟨l, p⟩ := t
    cases l with
    | or b => exact absurd hrest (hno b p _)
    | _ => rfl

/-! ### Formulas -/

/-- **What is read as a formula is accepted, and what is refused is refused where the automaton is
stuck**, but for a number after a wildcard. -/
theorem tracks_formula (ts : List Token) :
    match Read.formula ts with
    | .ok _ => Accepts ts ∧ Short (numerals ts)
    | .error (.misplaced found _) => ts ≠ [] ∧ Misfit .start ts found
    | .error (.ofNumeral _) => ¬ Short (numerals ts)
    | .error (.ofVersion _) => True := by
  cases ts with
  | nil => exact ⟨.inl rfl, short_nil⟩
  | cons t ts =>
    have hranges := tracks_ranges (t :: ts)
    have hformula : Read.formula (t :: ts) = Read.ranges (t :: ts) >>= fun x =>
      Read.done x.2 >>= fun _ => pure ⟨x.1⟩ := rfl
    rw [hformula]
    match hx : Read.ranges (t :: ts), hranges with
    | .ok (rs, []), ⟨pre, s, hts, hlead, hcloses, _⟩ =>
      rw [hts, List.append_nil]
      exact ⟨.inr ⟨s, hlead.run, hcloses⟩, hlead.short⟩
    | .ok (rs, u :: rest), ⟨pre, s, hts, hlead, _, hstuck⟩ =>
      exact ⟨List.cons_ne_nil _ _, .here hts hlead (hstuck u rfl) rfl⟩
    | .error (.misplaced _ _), hmisfit => exact ⟨List.cons_ne_nil _ _, hmisfit⟩
    | .error (.ofNumeral _), hlong => exact hlong
    | .error (.ofVersion _), _ => exact trivial

end Automaton

end SemverRange
