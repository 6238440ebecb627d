import SemverRange.Proofs.Formula.Grammar
import SemverRange.Proofs.Formula.Scan

/-!
# The tokens of a derivation

A derivation has tokens of its own, which leave out the white space that has no meaning.  The
scanner cuts the text of the derivation into exactly these, however greedy it is: after a
target stands white space, a bar or nothing, and none of these continues a token.

The run of the scanner is stated as a relation, without the places of the tokens, on which
nothing but messages depends.

## Main definitions

* `Scans prev cs ls` — after the token `prev` the text `cs` is cut into the tokens `ls`.
* `Grammar.Formula.lexemes` — the tokens of a derivation.

## Main results

* `Scans.exists_scanFrom`, `scans_of_scanFrom` — the relation is what the scanner computes.
* `Grammar.Formula.scans` — the text of a derivation is cut into its tokens.
-/

namespace SemverRange

/-! ### Runs of the scanner -/

/-- After the token `prev` the text is cut into the given tokens; white space that is dropped
is passed over. -/
inductive Scans : Option Lexeme → List Char → List Lexeme → Prop
  | stop (prev : Option Lexeme) : Scans prev [] []
  | keep {prev : Option Lexeme} {cs rest : List Char} {l : Lexeme} {ls : List Lexeme} :
    Lexeme.scan prev cs = some (l, rest) → Token.isDropped prev l rest = false →
      Scans (some l) rest ls → Scans prev cs (l :: ls)
  | drop {prev : Option Lexeme} {cs rest : List Char} {l : Lexeme} {ls : List Lexeme} :
    Lexeme.scan prev cs = some (l, rest) → Token.isDropped prev l rest = true →
      Scans prev rest ls → Scans prev cs ls

theorem scanFrom_of_scan {prev : Option Lexeme} {cs rest : List Char} {l : Lexeme}
    (h : Lexeme.scan prev cs = some (l, rest)) (pos : ℕ) :
    Token.scanFrom prev pos cs =
      if Token.isDropped prev l rest then Token.scanFrom prev (pos + l.text.length) rest
      else (⟨l, pos⟩ :: ·) <$> Token.scanFrom (some l) (pos + l.text.length) rest := by
  cases cs with
  | nil =>
    obtain ⟨hne, heq⟩ := Lexeme.text_scan h
    exact absurd (List.append_eq_nil_iff.1 heq).1 hne
  | cons c cs =>
    rw [Token.scanFrom]
    split
    · next hnone => rw [h] at hnone; cases hnone
    · next l' rest' hsome =>
      rw [h] at hsome
      cases hsome
      rfl

theorem Scans.exists_scanFrom {prev : Option Lexeme} {cs : List Char} {ls : List Lexeme}
    (h : Scans prev cs ls) :
    ∀ pos, ∃ ts, Token.scanFrom prev pos cs = .ok ts ∧ ts.map Token.lexeme = ls := by
  induction h with
  | stop prev => exact fun pos => ⟨[], by rw [Token.scanFrom], rfl⟩
  | @keep prev cs rest l ls hscan hkeep _ ih =>
    intro pos
    obtain ⟨ts, hts, hls⟩ := ih (pos + l.text.length)
    refine ⟨⟨l, pos⟩ :: ts, ?_, by rw [List.map_cons, hls]⟩
    rw [scanFrom_of_scan hscan, hkeep, hts]
    rfl
  | @drop prev cs rest l ls hscan hdrop _ ih =>
    intro pos
    rw [scanFrom_of_scan hscan, hdrop]
    exact ih (pos + l.text.length)

theorem scans_of_scanFrom {prev : Option Lexeme} {pos : ℕ} {cs : List Char} {ts : List Token}
    (h : Token.scanFrom prev pos cs = .ok ts) : Scans prev cs (ts.map Token.lexeme) := by
  -- along the scanner's own recursion, which drops or keeps one token at each step
  induction prev, pos, cs using Token.scanFrom.induct generalizing ts with
  | case1 prev pos =>
    rw [Token.scanFrom] at h
    cases h
    exact .stop prev
  | case2 prev pos c cs hnone =>
    rw [Token.scanFrom] at h
    split at h
    · cases h
    · next hsome => rw [hnone] at hsome; cases hsome
  | case3 prev pos c cs l rest hscan hdrop ih =>
    rw [scanFrom_of_scan hscan, if_pos hdrop] at h
    exact .drop hscan hdrop (ih h)
  | case4 prev pos c cs l rest hscan hkeep ih =>
    rw [scanFrom_of_scan hscan, if_neg hkeep] at h
    cases hrest : Token.scanFrom (some l) (pos + l.text.length) rest with
    | error e => rw [hrest] at h; cases h
    | ok ts' =>
      rw [hrest] at h
      cases h
      exact .keep hscan (Bool.not_eq_true _ ▸ hkeep) (ih hrest)

/-! ### What comes after a token -/

/-- White space, a bar or nothing comes next. -/
def Ends (rest : List Char) : Prop := ∀ c ∈ rest.head?, isBlank c = true ∨ c = '|'

theorem Ends.stops {rest : List Char} (h : Ends rest) : Stops isIdentifierChar rest := by
  intro c hc
  rcases h c hc with hb | rfl
  · exact isIdentifierChar_eq_false_of_isBlank hb
  · decide

theorem Ends.endsIdents {rest : List Char} (h : Ends rest) : EndsIdents rest := by
  refine ⟨h.stops, ?_⟩
  rintro cs rfl
  exact absurd (h '.' rfl) (by decide)

/-- After any token that does not take up white space, the rest is cut into the given
tokens. -/
def Follows (rest : List Char) (ls : List Lexeme) : Prop :=
  ∀ l : Lexeme, l.absorbsBlanks = false → Scans (some l) rest ls

/-- A token that is no white space is never dropped. -/
theorem Scans.keep_solid {prev : Option Lexeme} {cs rest : List Char} {l : Lexeme}
    {ls : List Lexeme} (hscan : Lexeme.scan prev cs = some (l, rest)) (hl : l.isAnd = false)
    (h : Scans (some l) rest ls) : Scans prev cs (l :: ls) :=
  .keep hscan (by rw [Token.isDropped, hl, Bool.false_and]) h

/-- White space at the end of the text is dropped. -/
theorem scans_blanks {b : List Char} (hb : ∀ c ∈ b, isBlank c = true) (prev : Option Lexeme) :
    Scans prev b [] := by
  by_cases hne : b = []
  · subst hne
    exact .stop prev
  · have hscan : Lexeme.scan prev (b ++ []) = some (.and b, []) :=
      Lexeme.scan_and hne hb (by rintro _ ⟨⟩) prev
    rw [List.append_nil] at hscan
    exact .drop hscan (by simp [Token.isDropped, Lexeme.isAnd]) (.stop prev)

/-- White space at the start of the text, or after a token that takes it up, is dropped. -/
theorem Scans.drop_blanks {prev : Option Lexeme} {b rest : List Char} {ls : List Lexeme}
    (hprev : prev.all Lexeme.absorbsBlanks = true) (hb : ∀ c ∈ b, isBlank c = true)
    (hrest : ∀ c ∈ rest.head?, IsSolid c) (h : Scans prev rest ls) : Scans prev (b ++ rest) ls := by
  by_cases hne : b = []
  · subst hne
    exact h
  · exact .drop (Lexeme.scan_and hne hb hrest prev)
      (by simp [Token.isDropped, Lexeme.isAnd, hprev]) h

/-! ### The tokens of a derivation -/

namespace Grammar

/-- The token of the part. -/
def Part.lexeme : Part → Lexeme
  | number ds => .num ds.1
  | wildcard c => .wildcard c.1

namespace Target

/-- The tokens of the prerelease and the build metadata. -/
def attachedLexemes (t : Target) : List Lexeme :=
  (t.pre.elim [] fun is => [.prerelease (is.1.map Subtype.val)]) ++
    t.build.elim [] fun is => [.build (is.1.map Subtype.val)]

/-- The tokens of the target. -/
def lexemes (t : Target) : List Lexeme :=
  (t.vee.elim [] fun c => [.v c.1]) ++ (t.first.lexeme ::
    (t.more.flatMap (fun p => [.dot, p.lexeme]) ++ t.attachedLexemes))

end Target

/-- The tokens of the clause. -/
def Clause.lexemes : Clause → List Lexeme
  | bare t => t.lexemes
  | compare o _ t => .op o :: t.lexemes
  | shorthand s _ t => .shorthand s :: t.lexemes

/-- The tokens of the range. -/
def Range.lexemes : Range → List Lexeme
  | all c more => c.lexemes ++ more.flatMap fun m => .and m.1.1 :: m.2.lexemes
  | between l before after u => l.lexemes ++ .dash (before.1 ++ '-' :: after.1) :: u.lexemes

/-- The tokens of the formula. -/
def Formula.lexemes : Formula → List Lexeme
  | blank _ => []
  | ranges _ r more _ => r.lexemes ++
    more.flatMap fun m => .or (m.1.1 ++ '|' :: '|' :: m.2.1.1) :: m.2.2.lexemes

/-! ### Heads -/

theorem Part.exists_text_eq_cons (p : Part) :
    ∃ c cs, p.text = c :: cs ∧ IsSolid c ∧ c ≠ '=' := by
  cases p with
  | number ds =>
    obtain ⟨ds, hne, hds⟩ := ds
    cases ds with
    | nil => exact absurd rfl hne
    | cons d ds =>
      have hd : d.isDigit = true := hds d List.mem_cons_self
      refine ⟨d, ds, rfl, isSolid_of_isDigit hd, ?_⟩
      rintro rfl
      exact absurd hd (by decide)
  | wildcard c =>
    refine ⟨c.1, [], rfl, ?_⟩
    rcases c.2 with h | h | h <;> rw [h] <;> decide

theorem Target.exists_text_eq_cons (t : Target) :
    ∃ c cs, t.text = c :: cs ∧ IsSolid c ∧ c ≠ '=' := by
  obtain ⟨d, ds, hd, hsolid, heq⟩ := t.first.exists_text_eq_cons
  unfold text veeText
  cases t.vee with
  | none => exact ⟨d, _, by rw [hd]; rfl, hsolid, heq⟩
  | some c =>
    refine ⟨c.1, _, rfl, ?_⟩
    rcases c.2 with h | h <;> rw [h] <;> decide

theorem Clause.exists_text_eq_cons (c : Clause) : ∃ d ds, c.text = d :: ds ∧ IsSolid d := by
  cases c with
  | bare t =>
    obtain ⟨d, ds, hd, hsolid, -⟩ := t.exists_text_eq_cons
    exact ⟨d, ds, hd, hsolid⟩
  | compare o b t => cases o <;> exact ⟨_, _, rfl, by decide⟩
  | shorthand s b t => cases s <;> exact ⟨_, _, rfl, by decide⟩

theorem Range.exists_text_eq_cons (r : Range) : ∃ d ds, r.text = d :: ds ∧ IsSolid d := by
  cases r with
  | all c more =>
    obtain ⟨d, ds, hd, hsolid⟩ := c.exists_text_eq_cons
    exact ⟨d, _, by rw [text, hd]; rfl, hsolid⟩
  | between l before after u =>
    obtain ⟨d, ds, hd, hsolid, -⟩ := l.exists_text_eq_cons
    exact ⟨d, _, by rw [text, hd]; rfl, hsolid⟩

/-! ### The text of a derivation is cut into its tokens -/

/-- The list of identifiers of the right form. -/
theorem Idents.wellformed (is : Idents) : is.1.map Subtype.val ≠ [] ∧
    ∀ i ∈ is.1.map Subtype.val, i ≠ [] ∧ ∀ c ∈ i, isIdentifierChar c = true := by
  refine ⟨fun h => is.2 (List.map_eq_nil_iff.1 h), ?_⟩
  intro i hi
  obtain ⟨j, -, rfl⟩ := List.mem_map.1 hi
  exact j.2

section Scanning

variable {rest : List Char} {ls : List Lexeme}

theorem Part.scans (p : Part) {prev : Option Lexeme} (hrest : Stops Char.isDigit rest)
    (h : Scans (some p.lexeme) rest ls) : Scans prev (p.text ++ rest) (p.lexeme :: ls) := by
  cases p with
  | number ds => exact h.keep_solid (Lexeme.scan_num ds.2.1 ds.2.2 hrest prev) rfl
  | wildcard c => exact h.keep_solid (Lexeme.scan_wildcard c.2 prev rest) rfl

theorem Part.absorbsBlanks_lexeme (p : Part) : p.lexeme.absorbsBlanks = false := by
  cases p <;> rfl

namespace Target

variable (t : Target)

/-- What is attached to a target does not continue its last number. -/
theorem stops_attached (hrest : Ends rest) :
    Stops Char.isDigit (t.preText ++ (t.buildText ++ rest)) := by
  unfold preText buildText
  cases t.pre with
  | some is => exact stops_cons.2 (by decide)
  | none =>
    cases t.build with
    | some is => exact stops_cons.2 (by decide)
    | none => exact hrest.stops.mono fun c => isIdentifierChar_of_isDigit

theorem scans_build {prev : Lexeme} (hrest : Ends rest) (h : Follows rest ls)
    (hprev : t.build.isSome → (∃ ds, prev = .num ds) ∨ ∃ is, prev = .prerelease is)
    (habsorbs : prev.absorbsBlanks = false) :
    Scans (some prev) (t.buildText ++ rest)
      ((t.build.elim [] fun is => [.build (is.1.map Subtype.val)]) ++ ls) := by
  unfold buildText
  cases hb : t.build with
  | none => exact h prev habsorbs
  | some is =>
    rw [hb] at hprev
    have hscan := Lexeme.scan_build is.wellformed.1 is.wellformed.2 hrest.endsIdents (hprev rfl)
    exact (h _ rfl).keep_solid hscan rfl

/-- Prerelease and build metadata, of which there is none unless the last token is a number. -/
theorem scans_attached {prev : Lexeme} (hrest : Ends rest) (h : Follows rest ls)
    (hprev : t.pre.isSome ∨ t.build.isSome → ∃ ds, prev = .num ds)
    (habsorbs : prev.absorbsBlanks = false) :
    Scans (some prev) (t.preText ++ (t.buildText ++ rest)) (t.attachedLexemes ++ ls) := by
  have hends : EndsIdents (t.buildText ++ rest) := by
    unfold buildText
    cases t.build with
    | none => exact hrest.endsIdents
    | some is =>
      refine ⟨stops_cons.2 (by decide), ?_⟩
      rintro cs ⟨⟩
  unfold attachedLexemes
  rw [List.append_assoc]
  cases hp : t.pre with
  | none =>
    rw [preText, hp]
    exact t.scans_build hrest h (fun hb => .inl (hprev (.inr hb))) habsorbs
  | some is =>
    obtain ⟨ds, rfl⟩ := hprev (.inl (by rw [hp]; rfl))
    rw [preText, hp]
    have hscan := Lexeme.scan_prerelease is.wellformed.1 is.wellformed.2 hends ds
    exact (t.scans_build hrest h (fun _ => .inr ⟨_, rfl⟩) rfl).keep_solid hscan rfl

/-- The parts after `p`, and what is attached to them. -/
theorem scans_more (hrest : Ends rest) (h : Follows rest ls) (more : List Part) (p : Part)
    (hnum : t.pre.isSome ∨ t.build.isSome → ∀ q ∈ p :: more, q.IsNumber) :
    Scans (some p.lexeme)
      (more.flatMap (fun q => '.' :: q.text) ++ (t.preText ++ (t.buildText ++ rest)))
      (more.flatMap (fun q => [.dot, q.lexeme]) ++ (t.attachedLexemes ++ ls)) := by
  induction more generalizing p with
  | nil =>
    refine t.scans_attached hrest h (fun ha => ?_) p.absorbsBlanks_lexeme
    have hp := hnum ha p List.mem_cons_self
    cases p with
    | number ds => exact ⟨ds.1, rfl⟩
    | wildcard c => exact hp.elim
  | cons q more ih =>
    rw [List.flatMap_cons, List.flatMap_cons, List.append_assoc, List.append_assoc]
    -- behind the part stands a dot or what is attached, and neither continues a number
    refine Scans.keep_solid (Lexeme.scan_dot _ _) rfl (Part.scans q ?_ ?_)
    · cases more with
      | nil => exact t.stops_attached hrest
      | cons r more => exact stops_cons.2 (by decide)
    · exact ih q fun ha r hr => hnum ha r (List.mem_cons_of_mem p hr)

/-- **The text of a target is cut into its tokens**, whatever stands before it. -/
theorem scans (hrest : Ends rest) (h : Follows rest ls) (prev : Option Lexeme) :
    Scans prev (t.text ++ rest) (t.lexemes ++ ls) := by
  have hmore := t.scans_more hrest h t.more t.first fun ha => (t.attached ha).2
  have hstops : Stops Char.isDigit
      (t.more.flatMap (fun q => '.' :: q.text) ++ (t.preText ++ (t.buildText ++ rest))) := by
    cases t.more with
    | nil => exact t.stops_attached hrest
    | cons r more => exact stops_cons.2 (by decide)
  have hfirst : ∀ prev, Scans prev _ _ := fun _ => t.first.scans hstops hmore
  unfold text veeText lexemes
  simp only [List.append_assoc, List.cons_append]
  cases t.vee with
  | none => exact hfirst prev
  | some c => exact (hfirst _).keep_solid (Lexeme.scan_v c.2 prev _) rfl

theorem isSolid_head (cs : List Char) : ∀ c ∈ (t.text ++ cs).head?, IsSolid c := by
  obtain ⟨d, ds, hd, hsolid, -⟩ := t.exists_text_eq_cons
  rw [hd]
  rintro c ⟨⟩
  exact hsolid

end Target

theorem Clause.scans (c : Clause) (hrest : Ends rest) (h : Follows rest ls)
    (prev : Option Lexeme) : Scans prev (c.text ++ rest) (c.lexemes ++ ls) := by
  cases c with
  | bare t => exact t.scans hrest h prev
  | compare o b t =>
    -- an equality sign behind `<` or `>` would make another operator of it
    have hhead : ∀ d ∈ (b.1 ++ (t.text ++ rest)).head?, d ≠ '=' := by
      obtain ⟨d, ds, hd, -, heq⟩ := t.exists_text_eq_cons
      obtain ⟨b, hb⟩ := b
      rw [hd]
      cases b with
      | nil =>
        rintro d ⟨⟩
        exact heq
      | cons e b =>
        rintro d ⟨⟩ rfl
        exact absurd (hb '=' List.mem_cons_self) (by decide)
    have ht := (t.scans hrest h (some (.op o))).drop_blanks rfl b.2 (t.isSolid_head rest)
    rw [text, lexemes, List.append_assoc, List.append_assoc, List.cons_append]
    exact ht.keep_solid (Lexeme.scan_op o hhead prev) rfl
  | shorthand s b t =>
    have ht := (t.scans hrest h (some (.shorthand s))).drop_blanks rfl b.2 (t.isSolid_head rest)
    rw [text, lexemes, List.append_assoc, List.append_assoc, List.cons_append]
    exact ht.keep_solid (Lexeme.scan_shorthand s prev _) rfl

theorem Clause.isSolid_head (c : Clause) (cs : List Char) :
    ∀ d ∈ (c.text ++ cs).head?, IsSolid d := by
  obtain ⟨d, ds, hd, hsolid⟩ := c.exists_text_eq_cons
  rw [hd]
  rintro c ⟨⟩
  exact hsolid

theorem Range.isSolid_head (r : Range) (cs : List Char) :
    ∀ d ∈ (r.text ++ cs).head?, IsSolid d := by
  obtain ⟨d, ds, hd, hsolid⟩ := r.exists_text_eq_cons
  rw [hd]
  rintro c ⟨⟩
  exact hsolid

theorem ends_blanks {b : List Char} (hb : ∀ c ∈ b, isBlank c = true) (hrest : Ends rest) :
    Ends (b ++ rest) := by
  cases b with
  | nil => exact hrest
  | cons c b =>
    rintro d ⟨⟩
    exact .inl (hb c List.mem_cons_self)

theorem ends_of_blanks (b : Blanks) : Ends b.1 := by
  have h : Ends (b.1 ++ []) := ends_blanks b.2 (by rintro c ⟨⟩)
  rwa [List.append_nil] at h

theorem ends_gap (g : Gap) (cs : List Char) : Ends (g.1 ++ cs) := by
  obtain ⟨b, hne, hb⟩ := g
  cases b with
  | nil => exact absurd rfl hne
  | cons c b =>
    rintro d ⟨⟩
    exact .inl (hb c List.mem_cons_self)

theorem ends_clauses (hrest : Ends rest) (more : List (Gap × Clause)) :
    Ends (more.flatMap (fun m => m.1.1 ++ m.2.text) ++ rest) := by
  cases more with
  | nil => exact hrest
  | cons m more =>
    rw [List.flatMap_cons, List.append_assoc, List.append_assoc]
    exact ends_gap m.1 _

/-- Further clauses, each with the white space before it. -/
theorem follows_clauses (hrest : Ends rest) (h : Follows rest ls) (more : List (Gap × Clause)) :
    Follows (more.flatMap (fun m => m.1.1 ++ m.2.text) ++ rest)
      (more.flatMap (fun m => .and m.1.1 :: m.2.lexemes) ++ ls) := by
  induction more with
  | nil => exact h
  | cons m more ih =>
    intro l hl
    rw [List.flatMap_cons, List.flatMap_cons, List.append_assoc, List.append_assoc,
      List.append_assoc, List.cons_append]
    refine .keep (Lexeme.scan_and m.1.2.1 m.1.2.2 (m.2.isSolid_head _) _) ?_
      (m.2.scans (ends_clauses hrest more) ih _)
    -- the white space is no last token, since a clause stands after it
    obtain ⟨d, ds, hd, -⟩ := m.2.exists_text_eq_cons
    rw [hd]
    simp [Token.isDropped, hl]

theorem Range.scans (r : Range) (hrest : Ends rest) (h : Follows rest ls)
    (prev : Option Lexeme) : Scans prev (r.text ++ rest) (r.lexemes ++ ls) := by
  cases r with
  | all c more =>
    rw [text, lexemes, List.append_assoc, List.append_assoc]
    exact c.scans (ends_clauses hrest more) (follows_clauses hrest h more) prev
  | between l before after u =>
    have hdash : Follows (before.1 ++ '-' :: (after.1 ++ (u.text ++ rest)))
        (.dash (before.1 ++ '-' :: after.1) :: (u.lexemes ++ ls)) := by
      intro k hk
      have hscan := Lexeme.scan_dash before.2.1 before.2.2 after.2.1 after.2.2
        (fun c hc => (u.isSolid_head rest c hc).1) (some k)
      exact (u.scans hrest h _).keep_solid hscan rfl
    have hl := l.scans (ends_gap before _) hdash prev
    rw [text, lexemes]
    simpa only [List.append_assoc, List.cons_append] using hl

theorem ends_ranges (hrest : Ends rest) (more : List (Blanks × Blanks × Range)) :
    Ends (more.flatMap (fun m => m.1.1 ++ '|' :: '|' :: (m.2.1.1 ++ m.2.2.text)) ++ rest) := by
  cases more with
  | nil => exact hrest
  | cons m more =>
    rw [List.flatMap_cons, List.append_assoc, List.append_assoc]
    refine ends_blanks m.1.2 ?_
    rintro d ⟨⟩
    exact .inr rfl

/-- Further ranges, each with the bars before it. -/
theorem follows_ranges (hrest : Ends rest) (h : Follows rest ls)
    (more : List (Blanks × Blanks × Range)) :
    Follows (more.flatMap (fun m => m.1.1 ++ '|' :: '|' :: (m.2.1.1 ++ m.2.2.text)) ++ rest)
      (more.flatMap (fun m => .or (m.1.1 ++ '|' :: '|' :: m.2.1.1) :: m.2.2.lexemes) ++ ls) := by
  induction more with
  | nil => exact h
  | cons m more ih =>
    intro l hl
    have hr := m.2.2.scans (ends_ranges hrest more) ih
      (some (.or (m.1.1 ++ '|' :: '|' :: m.2.1.1)))
    have hstops : Stops isBlank (m.2.2.text ++ (more.flatMap
        (fun m => m.1.1 ++ '|' :: '|' :: (m.2.1.1 ++ m.2.2.text)) ++ rest)) :=
      fun c hc => (m.2.2.isSolid_head _ c hc).1
    have hscan := Lexeme.scan_or m.1.2 m.2.1.2 hstops (some l)
    rw [List.flatMap_cons, List.flatMap_cons]
    simpa only [List.append_assoc, List.cons_append] using hr.keep_solid hscan rfl

end Scanning

/-- **The text of a derivation is cut into its tokens.** -/
theorem Formula.scans (d : Formula) : Scans none d.text d.lexemes := by
  cases d with
  | blank b => exact scans_blanks b.2 none
  | ranges before r more after =>
    have hafter := ends_of_blanks after
    have hmore := follows_ranges hafter (fun l _ => scans_blanks after.2 (some l)) more
    have hr := r.scans (ends_ranges hafter more) hmore none
    rw [List.append_nil] at hr
    exact hr.drop_blanks rfl before.2 (r.isSolid_head _)

end Grammar

end SemverRange
