import SemverRange.Proofs.Formula.Derivation

/-!
# The grammar is unambiguous

No text has two derivations.  Two derivations of one text have the same tokens, and from the
tokens each part of a derivation can be split off the front, up to the white space that is no
part of a token; that white space is found in the text.

## Main results

* `Grammar.Formula.text_injective` — a text has at most one derivation.
* `Formula.parse_eq_ok_iff` — **a text is read as a formula if and only if it has a derivation**
  without long numerals, and then the formula is what the derivation denotes.
-/

namespace SemverRange

/-- A text is cut into tokens in one way only. -/
theorem Scans.unique {prev : Option Lexeme} {cs : List Char} {ls ls' : List Lexeme}
    (h : Scans prev cs ls) (h' : Scans prev cs ls') : ls = ls' := by
  obtain ⟨ts, hts, rfl⟩ := h.exists_scanFrom 0
  obtain ⟨ts', hts', rfl⟩ := h'.exists_scanFrom 0
  rw [hts] at hts'
  cases hts'
  rfl

/-- White space at the head of a text is split off in one way only. -/
theorem blanks_append_inj {b b' cs cs' : List Char} (h : b ++ cs = b' ++ cs')
    (hb : ∀ c ∈ b, isBlank c = true) (hb' : ∀ c ∈ b', isBlank c = true)
    (hcs : Stops isBlank cs) (hcs' : Stops isBlank cs') : b = b' ∧ cs = cs' := by
  obtain rfl : b = b' := by
    rw [← takeWhile_append_of_stops hb hcs, h, takeWhile_append_of_stops hb' hcs']
  exact ⟨rfl, List.append_cancel_left h⟩

namespace Grammar

/-! ### Targets -/

theorem Part.lexeme_injective : Function.Injective Part.lexeme := by
  intro p q h
  cases p with
  | number ds =>
    cases q with
    | number es => rw [Subtype.ext (Lexeme.num.inj h)]
    | wildcard d => cases h
  | wildcard c =>
    cases q with
    | number es => cases h
    | wildcard d => rw [Subtype.ext (Lexeme.wildcard.inj h)]

theorem Idents.map_val_injective :
    Function.Injective fun is : Idents => is.1.map Subtype.val := by
  intro is js h
  exact Subtype.ext (List.map_injective_iff.2 Subtype.val_injective h)

/-- A token that need not be there is split off the front, if what follows has none of its
kind there. -/
theorem option_append_inj {α : Type} {f : α → Lexeme} (hf : Function.Injective f)
    {o o' : Option α} {ls ls' : List Lexeme}
    (h : (o.elim [] fun a => [f a]) ++ ls = (o'.elim [] fun a => [f a]) ++ ls')
    (hls : ∀ l ∈ ls.head?, ∀ a, l ≠ f a) (hls' : ∀ l ∈ ls'.head?, ∀ a, l ≠ f a) :
    o = o' ∧ ls = ls' := by
  cases o with
  | none =>
    cases o' with
    | none => exact ⟨rfl, h⟩
    | some a => exact absurd rfl (hls (f a) (by rw [show ls = _ from h]; rfl) a)
  | some a =>
    cases o' with
    | none => exact absurd rfl (hls' (f a) (by rw [← show _ = ls' from h]; rfl) a)
    | some a' =>
      obtain ⟨ha, hrest⟩ := List.cons.inj h
      exact ⟨congrArg some (hf ha), hrest⟩

/-- The parts after the first are split off the front, if no further one follows. -/
theorem parts_append_inj {more more' : List Part} {ls ls' : List Lexeme}
    (h : more.flatMap (fun p => [.dot, p.lexeme]) ++ ls =
      more'.flatMap (fun p => [.dot, p.lexeme]) ++ ls')
    (hls : ∀ l ∈ ls.head?, l ≠ .dot) (hls' : ∀ l ∈ ls'.head?, l ≠ .dot) :
    more = more' ∧ ls = ls' := by
  induction more generalizing more' with
  | nil =>
    cases more' with
    | nil => exact ⟨rfl, h⟩
    | cons q more' => exact absurd rfl (hls .dot (by rw [show ls = _ from h]; rfl))
  | cons p more ih =>
    cases more' with
    | nil => exact absurd rfl (hls' .dot (by rw [← show _ = ls' from h]; rfl))
    | cons q more' =>
      simp only [List.flatMap_cons, List.cons_append, List.nil_append, List.cons.injEq,
        true_and] at h
      obtain ⟨hpq, h⟩ := h
      obtain ⟨rfl, rfl⟩ := ih h
      exact ⟨by rw [Part.lexeme_injective hpq], rfl⟩

/-- A target is split off the front of the tokens. -/
theorem Target.append_inj {t t' : Target} {ls ls' : List Lexeme}
    (h : t.lexemes ++ ls = t'.lexemes ++ ls') (hls : EndsTarget ls) (hls' : EndsTarget ls') :
    t = t' ∧ ls = ls' := by
  have hno : ∀ (t : Target) (ls : List Lexeme), ∀ l ∈ (t.first.lexeme :: ls).head?,
      ∀ c : Vee, l ≠ .v c.1 := by
    rintro t ls l ⟨⟩ c
    cases t.first <;> exact nofun
  have hbuild : ∀ {ls : List Lexeme}, EndsTarget ls → ∀ l ∈ ls.head?, ∀ is : Idents,
      l ≠ .build (is.1.map Subtype.val) := by
    rintro ls hls l hl is rfl
    exact absurd (hls _ hl) Bool.false_ne_true
  unfold lexemes at h
  simp only [List.append_assoc, List.cons_append] at h
  -- piece by piece from the front; what follows each piece cannot be mistaken for it
  obtain ⟨hvee, h⟩ := option_append_inj
    (fun c c' hc => Subtype.ext (Lexeme.v.inj hc)) h (hno t _) (hno t' _)
  obtain ⟨hfirst, h⟩ := List.cons.inj h
  obtain ⟨hmore, h⟩ := parts_append_inj h (t.head?_attachedLexemes_ne_dot hls)
    (t'.head?_attachedLexemes_ne_dot hls')
  unfold attachedLexemes at h
  simp only [List.append_assoc] at h
  obtain ⟨hpre, h⟩ := option_append_inj
    (fun is js hi => Idents.map_val_injective (Lexeme.prerelease.inj hi)) h
    (fun l hl is => t.head?_build_ne_prerelease hls l hl _)
    (fun l hl is => t'.head?_build_ne_prerelease hls' l hl _)
  obtain ⟨hbuild, h⟩ := option_append_inj
    (fun is js hi => Idents.map_val_injective (Lexeme.build.inj hi)) h (hbuild hls) (hbuild hls')
  exact ⟨Target.ext hvee (Part.lexeme_injective hfirst) hmore hpre hbuild, h⟩

/-! ### Clauses -/

section Clauses

variable {r r' : List Char} {ls ls' : List Lexeme}

/-- A target after white space is split off the front of a text and of its tokens. -/
theorem blanks_target_append_inj {b b' : Blanks} {t t' : Target}
    (h : b.1 ++ (t.text ++ r) = b'.1 ++ (t'.text ++ r'))
    (hl : t.lexemes ++ ls = t'.lexemes ++ ls') (hls : EndsTarget ls) (hls' : EndsTarget ls') :
    b = b' ∧ t = t' ∧ r = r' ∧ ls = ls' := by
  obtain ⟨rfl, hrest⟩ := Target.append_inj hl hls hls'
  obtain ⟨hb, h⟩ := blanks_append_inj h b.2 b'.2 (fun c hc => (t.isSolid_head r c hc).1)
    (fun c hc => (t.isSolid_head r' c hc).1)
  exact ⟨Subtype.ext hb, rfl, List.append_cancel_left h, hrest⟩

/-- A clause is split off the front of a text and of its tokens. -/
theorem Clause.append_inj {c c' : Clause} (h : c.text ++ r = c'.text ++ r')
    (hl : c.lexemes ++ ls = c'.lexemes ++ ls') (hls : EndsTarget ls) (hls' : EndsTarget ls') :
    c = c' ∧ r = r' ∧ ls = ls' := by
  cases c with
  | bare t =>
    have hhead := t.head?_lexemes ls
    cases c' with
    | bare t' =>
      obtain ⟨rfl, hrest⟩ := Target.append_inj hl hls hls'
      exact ⟨rfl, List.append_cancel_left h, hrest⟩
    | compare o' b' t' => exact absurd rfl ((hhead _ (hl ▸ rfl)).1 o')
    | shorthand s' b' t' => exact absurd rfl ((hhead _ (hl ▸ rfl)).2 s')
  | compare o b t =>
    cases c' with
    | bare t' => exact absurd rfl ((t'.head?_lexemes ls' _ (hl ▸ rfl)).1 o)
    | compare o' b' t' =>
      obtain ⟨ho, htarget⟩ := List.cons.inj hl
      obtain rfl := Lexeme.op.inj ho
      simp only [text, List.append_assoc, List.append_cancel_left_eq] at h
      obtain ⟨rfl, rfl, hr, hrest⟩ := blanks_target_append_inj h htarget hls hls'
      exact ⟨rfl, hr, hrest⟩
    | shorthand s' b' t' => cases (List.cons.inj hl).1
  | shorthand s b t =>
    cases c' with
    | bare t' => exact absurd rfl ((t'.head?_lexemes ls' _ (hl ▸ rfl)).2 s)
    | compare o' b' t' => cases (List.cons.inj hl).1
    | shorthand s' b' t' =>
      obtain ⟨hs, htarget⟩ := List.cons.inj hl
      obtain rfl := Lexeme.shorthand.inj hs
      simp only [text, List.append_assoc, List.append_cancel_left_eq] at h
      obtain ⟨rfl, rfl, hr, hrest⟩ := blanks_target_append_inj h htarget hls hls'
      exact ⟨rfl, hr, hrest⟩

/-- Further clauses are split off the front, if the range ends after them. -/
theorem clauses_append_inj {more more' : List (Gap × Clause)}
    (h : more.flatMap (fun m => m.1.1 ++ m.2.text) ++ r =
      more'.flatMap (fun m => m.1.1 ++ m.2.text) ++ r')
    (hl : more.flatMap (fun m => .and m.1.1 :: m.2.lexemes) ++ ls =
      more'.flatMap (fun m => .and m.1.1 :: m.2.lexemes) ++ ls')
    (hls : EndsRange ls) (hls' : EndsRange ls') : more = more' ∧ r = r' ∧ ls = ls' := by
  have hno : ∀ {ls : List Lexeme}, EndsRange ls → ∀ l ∈ ls.head?, ∀ b, l ≠ .and b := by
    rintro ls hls l hl b rfl
    obtain ⟨cs, hcs⟩ := hls _ hl
    cases hcs
  induction more generalizing more' with
  | nil =>
    cases more' with
    | nil => exact ⟨rfl, h, hl⟩
    | cons m' more' => exact absurd rfl (hno hls _ (by rw [show ls = _ from hl]; rfl) m'.1.1)
  | cons m more ih =>
    cases more' with
    | nil => exact absurd rfl (hno hls' _ (by rw [← show _ = ls' from hl]; rfl) m.1.1)
    | cons m' more' =>
      obtain ⟨g, c⟩ := m
      obtain ⟨g', c'⟩ := m'
      simp only [List.flatMap_cons, List.cons_append, List.append_assoc, List.cons.injEq,
        Lexeme.and.injEq] at h hl
      obtain ⟨hg, hl⟩ := hl
      obtain rfl := Subtype.ext hg
      obtain ⟨rfl, hr, hrest⟩ := Clause.append_inj (List.append_cancel_left h) hl
        (endsTarget_clauses hls more) (endsTarget_clauses hls' more')
      obtain ⟨rfl, hr, hrest⟩ := ih hr hrest
      exact ⟨rfl, hr, hrest⟩

end Clauses

/-! ### Ranges and formulas -/

/-- The white space on the two sides of a sign is found in the token. -/
theorem blanks_around_inj {c : Char} (sign : List Char) {a b a' b' : List Char}
    (hc : isBlank c = false) (h : b ++ c :: (sign ++ a) = b' ++ c :: (sign ++ a'))
    (hb : ∀ c ∈ b, isBlank c = true) (hb' : ∀ c ∈ b', isBlank c = true) : b = b' ∧ a = a' := by
  obtain ⟨rfl, hsign⟩ := blanks_append_inj h hb hb' (stops_cons.2 hc) (stops_cons.2 hc)
  exact ⟨rfl, List.append_cancel_left (List.cons.inj hsign).2⟩

section Ranges

variable {r r' : List Char} {ls ls' : List Lexeme}

/-- After a clause comes no dash. -/
theorem Range.all_ne_between {c : Clause} {more : List (Gap × Clause)} {l u : Target} {b a : Gap}
    (h : (Range.all c more).text ++ r = (Range.between l b a u).text ++ r')
    (hl : (Range.all c more).lexemes ++ ls = (Range.between l b a u).lexemes ++ ls')
    (hls : EndsRange ls) : False := by
  simp only [text, lexemes, List.append_assoc, List.cons_append] at h hl
  have htext : c.text ++ _ = (Clause.bare l).text ++ _ := h
  have hdash : EndsTarget (.dash (b.1 ++ '-' :: a.1) :: (u.lexemes ++ ls')) := by
    rintro k ⟨⟩
    rfl
  obtain ⟨-, -, hrest⟩ := Clause.append_inj htext hl (endsTarget_clauses hls more) hdash
  exact head?_clauses_ne_dash hls more _ (by rw [hrest]; rfl) _ rfl

/-- A range is split off the front of a text and of its tokens. -/
theorem Range.append_inj {q q' : Range} (h : q.text ++ r = q'.text ++ r')
    (hl : q.lexemes ++ ls = q'.lexemes ++ ls') (hls : EndsRange ls) (hls' : EndsRange ls') :
    q = q' ∧ r = r' ∧ ls = ls' := by
  cases q with
  | all c more =>
    cases q' with
    | all c' more' =>
      simp only [text, lexemes, List.append_assoc] at h hl
      obtain ⟨rfl, hr, hrest⟩ := Clause.append_inj h hl (endsTarget_clauses hls more)
        (endsTarget_clauses hls' more')
      obtain ⟨rfl, hr, hrest⟩ := clauses_append_inj hr hrest hls hls'
      exact ⟨rfl, hr, hrest⟩
    | between l' b' a' u' => exact (Range.all_ne_between h hl hls).elim
  | between l b a u =>
    cases q' with
    | all c' more' => exact (Range.all_ne_between h.symm hl.symm hls').elim
    | between l' b' a' u' =>
      simp only [text, lexemes, List.append_assoc, List.cons_append] at h hl
      obtain ⟨rfl, hrest⟩ := Target.append_inj hl (by rintro k ⟨⟩; rfl) (by rintro k ⟨⟩; rfl)
      obtain ⟨hdash, hu⟩ := List.cons.inj hrest
      obtain ⟨hb, ha⟩ := blanks_around_inj [] (by decide) (Lexeme.dash.inj hdash)
        b.2.2 b'.2.2
      obtain rfl := Subtype.ext hb
      obtain rfl := Subtype.ext ha
      obtain ⟨rfl, hls⟩ := Target.append_inj hu hls.endsTarget hls'.endsTarget
      refine ⟨rfl, ?_, hls⟩
      simpa only [List.append_cancel_left_eq, List.cons.injEq, true_and] using h

theorem endsRange_ranges (more : List (Blanks × Blanks × Range)) :
    EndsRange (more.flatMap fun m => .or (m.1.1 ++ '|' :: '|' :: m.2.1.1) :: m.2.2.lexemes) := by
  cases more with
  | nil => rintro l ⟨⟩
  | cons m more =>
    rintro l ⟨⟩
    exact ⟨_, rfl⟩

/-- Further ranges are split off the front, if the text ends after them. -/
theorem ranges_append_inj {more more' : List (Blanks × Blanks × Range)}
    (h : more.flatMap (fun m => m.1.1 ++ '|' :: '|' :: (m.2.1.1 ++ m.2.2.text)) ++ r =
      more'.flatMap (fun m => m.1.1 ++ '|' :: '|' :: (m.2.1.1 ++ m.2.2.text)) ++ r')
    (hl : (more.flatMap fun m => .or (m.1.1 ++ '|' :: '|' :: m.2.1.1) :: m.2.2.lexemes) =
      more'.flatMap fun m => .or (m.1.1 ++ '|' :: '|' :: m.2.1.1) :: m.2.2.lexemes) :
    more = more' ∧ r = r' := by
  induction more generalizing more' with
  | nil =>
    cases more' with
    | nil => exact ⟨rfl, h⟩
    | cons m' more' => cases hl
  | cons m more ih =>
    cases more' with
    | nil => cases hl
    | cons m' more' =>
      obtain ⟨b, a, q⟩ := m
      obtain ⟨b', a', q'⟩ := m'
      simp only [List.flatMap_cons, List.cons_append, List.append_assoc, List.cons.injEq,
        Lexeme.or.injEq] at h hl
      obtain ⟨hor, hlexemes⟩ := hl
      obtain ⟨hb, ha⟩ := blanks_around_inj ['|'] (by decide) hor b.2 b'.2
      obtain rfl := Subtype.ext hb
      obtain rfl := Subtype.ext ha
      simp only [List.append_cancel_left_eq, List.cons.injEq, true_and] at h
      obtain ⟨rfl, hmore, hrest⟩ := Range.append_inj h hlexemes (endsRange_ranges more)
        (endsRange_ranges more')
      obtain ⟨rfl, hr⟩ := ih hmore hrest
      exact ⟨rfl, hr⟩

end Ranges

theorem Target.lexemes_ne_nil (t : Target) : t.lexemes ≠ [] := by
  simp [lexemes]

theorem Range.lexemes_ne_nil (r : Range) : r.lexemes ≠ [] := by
  cases r with
  | all c more => cases c <;> simp [lexemes, Clause.lexemes, Target.lexemes_ne_nil]
  | between l b a u => simp [lexemes]

/-- **A text has at most one derivation.** -/
theorem Formula.text_injective : Function.Injective Formula.text := by
  intro d d' h
  -- one text has one list of tokens, and white space is compared in the text itself
  have hl : d.lexemes = d'.lexemes := (h ▸ d.scans).unique d'.scans
  cases d with
  | blank b =>
    cases d' with
    | blank b' => exact congrArg blank (Subtype.ext h)
    | ranges b' q' more' a' => exact absurd (List.append_eq_nil_iff.1 hl.symm).1 q'.lexemes_ne_nil
  | ranges b q more a =>
    cases d' with
    | blank b' => exact absurd (List.append_eq_nil_iff.1 hl).1 q.lexemes_ne_nil
    | ranges b' q' more' a' =>
      obtain ⟨hb, htext⟩ := blanks_append_inj h b.2 b'.2 (fun c hc => (q.isSolid_head _ c hc).1)
        (fun c hc => (q'.isSolid_head _ c hc).1)
      obtain rfl := Subtype.ext hb
      obtain ⟨rfl, hmore, hlexemes⟩ := Range.append_inj htext hl (endsRange_ranges more)
        (endsRange_ranges more')
      obtain ⟨rfl, ha⟩ := ranges_append_inj hmore hlexemes
      rw [Subtype.ext ha]

end Grammar

/-! ### Texts and derivations -/

/-- The text of a derivation without long numerals is read. -/
theorem Formula.parse_eq_ok {d : Grammar.Formula} {text : String} (htext : d.text = text.toList)
    (hshort : Short d.numerals) : Formula.parse text = .ok d.denote := by
  obtain ⟨ts, hts, hlexemes⟩ := d.scans.exists_scanFrom 0
  have htokens : tokenize text = .ok ⟨ts, text.length⟩ := by rw [tokenize, ← htext, hts]
  rw [Formula.parse, htokens]
  simp only [Except.mapError, bind, Except.bind, d.reads hshort hlexemes]

/-- What is read has a derivation without long numerals. -/
theorem Formula.exists_derivation_of_parse {text : String} {f : Formula}
    (h : Formula.parse text = .ok f) :
    ∃ d : Grammar.Formula, d.text = text.toList ∧ Short d.numerals ∧ d.denote = f := by
  obtain ⟨tokens, htokens, hread⟩ := bind_eq_ok h
  unfold tokenize at htokens
  cases hts : Token.scanFrom none 0 text.toList with
  | error s => rw [hts] at htokens; cases htokens
  | ok ts =>
    rw [hts] at htokens
    cases htokens
    cases hformula : Read.formula ts with
    | error e => rw [hformula] at hread; cases hread
    | ok g =>
      rw [hformula] at hread
      cases hread
      exact Grammar.Formula.exists_derivation (scans_of_scanFrom hts) hformula

/-- **A text is read as a formula if and only if it has a derivation** in which no numeral has
more than 4300 digits, and then the formula is what the derivation denotes.  A text has at most
one derivation. -/
theorem Formula.parse_eq_ok_iff (text : String) :
    (∀ f, Formula.parse text = .ok f ↔ ∃ d : Grammar.Formula, d.text = text.toList ∧
      (∀ ds ∈ d.numerals, ds.length ≤ Numeral.limit) ∧ d.denote = f) ∧
    ∀ d d' : Grammar.Formula, d.text = text.toList → d'.text = text.toList → d = d' := by
  refine ⟨fun f => ⟨exists_derivation_of_parse, ?_⟩, fun d d' hd hd' => ?_⟩
  · rintro ⟨d, htext, hshort, rfl⟩
    exact parse_eq_ok htext hshort
  · exact Grammar.Formula.text_injective (hd.trans hd'.symm)

end SemverRange
