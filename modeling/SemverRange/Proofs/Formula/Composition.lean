import SemverRange.Proofs.Formula.Unambiguous

/-!
# Formulas put together as texts

Two texts with `||` between them are read as the ranges of the one and then those of the other,
and two texts that are clauses only, with a blank between them, as the clauses of the one and then
those of the other.  Neither text may be white space alone: that would be a formula by itself, but
is nothing beside another one.

A text can be split at `||` because a range has no bar in it, and no bar stands directly behind
`||`.  So the bars at the seam are those of a separator, and the halves of the derivation derive
the halves of the text, also where the text around the seam is malformed.

## Main results

* `Grammar.exists_of_text_eq_bars` — where bars stand, ranges are split.
* `Grammar.Formula.exists_or`, `Grammar.Formula.exists_of_or` — derivations are put together at
  bars, and taken apart.
* `Formula.parse_joined` — **texts are put together as what they are read as**.
-/

namespace SemverRange

namespace Grammar

/-! ### Where no bar stands -/

/-- A class of characters without the bar. -/
theorem bar_notMem_of_forall {p : Char → Bool} {cs : List Char} (hp : p '|' = false)
    (h : ∀ c ∈ cs, p c = true) : '|' ∉ cs := by
  intro hbar
  rw [h '|' hbar] at hp
  cases hp

theorem Blanks.bar_notMem (b : Blanks) : '|' ∉ b.1 := bar_notMem_of_forall (by decide) b.2

theorem Gap.bar_notMem (g : Gap) : '|' ∉ g.1 := bar_notMem_of_forall (by decide) g.2.2

theorem Idents.bar_notMem_text (is : Idents) : '|' ∉ is.text := by
  obtain ⟨is, -⟩ := is
  unfold text
  induction is with
  | nil => exact List.not_mem_nil
  | cons i is ih =>
    have hi : '|' ∉ i.1 := bar_notMem_of_forall (by decide) i.2.2
    cases is with
    | nil => simpa using hi
    | cons j is =>
      rw [List.map_cons, List.map_cons, List.intercalate_cons_cons]
      simpa [hi] using ih

theorem Part.bar_notMem_text (p : Part) : '|' ∉ p.text := by
  cases p with
  | number ds => exact bar_notMem_of_forall (by decide) ds.2.2
  | wildcard c =>
    obtain ⟨c, hc⟩ := c
    rcases hc with rfl | rfl | rfl <;> decide

theorem Target.bar_notMem_text (t : Target) : '|' ∉ t.text := by
  have hvee : '|' ∉ t.veeText := by
    unfold veeText
    rcases t.vee with _ | ⟨c, rfl | rfl⟩ <;> decide
  have hpre : '|' ∉ t.preText := by
    unfold preText
    cases t.pre with
    | none => exact List.not_mem_nil
    | some is => simpa using is.bar_notMem_text
  have hbuild : '|' ∉ t.buildText := by
    unfold buildText
    cases t.build with
    | none => exact List.not_mem_nil
    | some is => simpa using is.bar_notMem_text
  have hmore : '|' ∉ t.more.flatMap fun p => '.' :: p.text := by
    simp [Part.bar_notMem_text]
  simp [text, hvee, hpre, hbuild, hmore, Part.bar_notMem_text]

theorem Clause.bar_notMem_text (c : Clause) : '|' ∉ c.text := by
  cases c with
  | bare t => exact t.bar_notMem_text
  | compare o b t =>
    have ho : '|' ∉ o.sign := by cases o <;> decide
    simp [text, ho, b.bar_notMem, t.bar_notMem_text]
  | shorthand s b t =>
    have hs : '|' ∉ s.sign := by cases s <;> decide
    simp [text, hs, b.bar_notMem, t.bar_notMem_text]

theorem Range.bar_notMem_text (r : Range) : '|' ∉ r.text := by
  cases r with
  | all c more => simp [text, Clause.bar_notMem_text, Gap.bar_notMem]
  | between l b a u => simp [text, Target.bar_notMem_text, Gap.bar_notMem]

/-- A bar comes neither first in white space with a range behind it, nor at its end. -/
theorem head?_blanks_range_ne_bar (b : Blanks) (r : Range) (cs : List Char) :
    (b.1 ++ (r.text ++ cs)).head? ≠ some '|' := by
  obtain ⟨b, hb⟩ := b
  intro h
  cases b with
  | nil => exact (r.isSolid_head cs '|' h).2.2.2 rfl
  | cons c b =>
    obtain rfl := Option.some.inj h
    exact absurd (hb '|' List.mem_cons_self) (by decide)

/-! ### Splitting at bars -/

/-- Bars at a place of a text are the first bars of the text, or they come behind them. -/
theorem eq_or_exists_of_append_bars {p q a b : List Char} (hp : '|' ∉ p)
    (hq : q.head? ≠ some '|') (h : p ++ '|' :: '|' :: q = a ++ '|' :: '|' :: b) :
    (a = p ∧ b = q) ∨ ∃ a', a = p ++ '|' :: '|' :: a' ∧ q = a' ++ '|' :: '|' :: b := by
  rcases List.append_eq_append_iff.1 h with ⟨cs, rfl, hcs⟩ | ⟨cs, rfl, hcs⟩
  · -- the place is in `p` or behind it; the bar at its head is the first, the second or later
    rcases cs with _ | ⟨c, _ | ⟨d, cs⟩⟩
    · obtain rfl : q = b := by simpa using hcs
      exact .inl ⟨List.append_nil p, rfl⟩
    · obtain ⟨rfl, rfl⟩ : '|' = c ∧ q = '|' :: b := by simpa using hcs
      exact absurd rfl hq
    · obtain ⟨rfl, rfl, hq'⟩ : '|' = c ∧ '|' = d ∧ q = cs ++ '|' :: '|' :: b := by simpa using hcs
      exact .inr ⟨cs, rfl, hq'⟩
  · rcases cs with _ | ⟨c, cs⟩
    · obtain rfl : b = q := by simpa using hcs
      exact .inl ⟨(List.append_nil a).symm, rfl⟩
    · obtain ⟨rfl, -⟩ := List.cons.inj hcs
      exact absurd (by simp) hp

/-- **Where bars stand, ranges are split**: `p` is what comes before the first bars, `front` are
the ranges up to those at the place, and `back` those behind it. -/
theorem exists_of_text_eq_bars {p : List Char} {more : List (Blanks × Blanks × Range)}
    {after : Blanks} {a b : List Char} (hp : '|' ∉ p)
    (h : p ++ (more.flatMap (fun m => m.1.1 ++ '|' :: '|' :: (m.2.1.1 ++ m.2.2.text)) ++
      after.1) = a ++ '|' :: '|' :: b) :
    ∃ front m back, more = front ++ m :: back ∧
      a = p ++ (front.flatMap (fun m => m.1.1 ++ '|' :: '|' :: (m.2.1.1 ++ m.2.2.text)) ++
        m.1.1) ∧
      b = m.2.1.1 ++ (m.2.2.text ++
        (back.flatMap (fun m => m.1.1 ++ '|' :: '|' :: (m.2.1.1 ++ m.2.2.text)) ++ after.1)) := by
  induction more generalizing p a with
  | nil =>
    -- there is no bar at all
    have hbar : '|' ∈ p ++ after.1 := by
      rw [show p ++ after.1 = a ++ '|' :: '|' :: b from h]
      simp
    rcases List.mem_append.1 hbar with hbar | hbar
    · exact absurd hbar hp
    · exact absurd hbar after.bar_notMem
  | cons m more ih =>
    simp only [List.flatMap_cons, List.append_assoc, List.cons_append] at h
    rw [← List.append_assoc] at h
    have hfront : '|' ∉ p ++ m.1.1 := by
      rw [List.mem_append, not_or]
      exact ⟨hp, m.1.bar_notMem⟩
    rcases eq_or_exists_of_append_bars hfront (head?_blanks_range_ne_bar m.2.1 m.2.2 _) h with
      ⟨rfl, rfl⟩ | ⟨a', rfl, htail⟩
    · exact ⟨[], m, more, rfl, rfl, rfl⟩
    · have hrange : '|' ∉ m.2.1.1 ++ m.2.2.text := by
        rw [List.mem_append, not_or]
        exact ⟨m.2.1.bar_notMem, m.2.2.bar_notMem_text⟩
      obtain ⟨front, k, back, rfl, rfl, rfl⟩ := ih hrange (by rw [List.append_assoc, htail])
      refine ⟨m :: front, k, back, rfl, ?_, rfl⟩
      simp only [List.flatMap_cons, List.append_assoc, List.cons_append]

/-! ### Derivations put together -/

namespace Formula

/-- The derivation of a text that is not white space alone has a range. -/
theorem exists_eq_ranges {d : Formula} (h : ∃ c ∈ d.text, isBlank c = false) :
    ∃ before r more after, d = ranges before r more after := by
  cases d with
  | blank b =>
    obtain ⟨c, hc, hsolid⟩ := h
    rw [b.2 c hc] at hsolid
    cases hsolid
  | ranges before r more after => exact ⟨before, r, more, after, rfl⟩

variable {d e : Formula}

/-- Two derivations with ranges are put together at bars. -/
theorem exists_or (hd : ∃ c ∈ d.text, isBlank c = false) (he : ∃ c ∈ e.text, isBlank c = false) :
    ∃ k : Formula, k.text = d.text ++ '|' :: '|' :: e.text ∧
      k.numerals = d.numerals ++ e.numerals ∧
      k.denote = ⟨d.denote.ranges ++ e.denote.ranges⟩ := by
  obtain ⟨b, r, more, a, rfl⟩ := exists_eq_ranges hd
  obtain ⟨b', r', more', a', rfl⟩ := exists_eq_ranges he
  refine ⟨ranges b r (more ++ (a, b', r') :: more') a', ?_, ?_, ?_⟩
  · simp [text]
  · simp [numerals, targets]
  · simp [denote]

/-- A derivation whose text has bars in it is two derivations, of what is on their two sides. -/
theorem exists_of_or {k : Formula} {a b : List Char} (h : k.text = a ++ '|' :: '|' :: b) :
    ∃ d e : Formula, d.text = a ∧ e.text = b ∧ k.numerals = d.numerals ++ e.numerals ∧
      k.denote = ⟨d.denote.ranges ++ e.denote.ranges⟩ := by
  cases k with
  | blank b' =>
    have hbar : '|' ∈ (blank b').text := by simp [h]
    exact absurd hbar b'.bar_notMem
  | ranges before r more after =>
    have hp : '|' ∉ before.1 ++ r.text := by
      rw [List.mem_append, not_or]
      exact ⟨before.bar_notMem, r.bar_notMem_text⟩
    rw [text, ← List.append_assoc] at h
    obtain ⟨front, m, back, rfl, rfl, rfl⟩ := exists_of_text_eq_bars hp h
    refine ⟨ranges before r front m.1, ranges m.2.1 m.2.2 back after, ?_, rfl, ?_, ?_⟩
    · rw [text, List.append_assoc]
    · simp [numerals, targets]
    · simp [denote]

/-- The derivation of clauses that are the whole formula. -/
theorem exists_eq_all {ps : List SemverRange.Clause} (hd : ∃ c ∈ d.text, isBlank c = false)
    (h : d.denote = ⟨[.all ps]⟩) : ∃ (before after : Blanks) (c : Clause)
      (more : List (Gap × Clause)), d = ranges before (.all c more) [] after ∧
      c.denote :: more.map (fun m => m.2.denote) = ps := by
  obtain ⟨before, r, more, after, rfl⟩ := exists_eq_ranges hd
  simp only [denote, SemverRange.Formula.mk.injEq, List.cons.injEq, List.map_eq_nil_iff] at h
  obtain ⟨hr, rfl⟩ := h
  cases r with
  | all c more => exact ⟨before, after, c, more, rfl, SemverRange.Range.all.inj hr⟩
  | between l b a u => cases hr

/-- Two derivations of clauses only are put together at a blank, which the white space around it
becomes a part of. -/
theorem exists_and {ps qs : List SemverRange.Clause} (hd : ∃ c ∈ d.text, isBlank c = false)
    (he : ∃ c ∈ e.text, isBlank c = false) (hps : d.denote = ⟨[.all ps]⟩)
    (hqs : e.denote = ⟨[.all qs]⟩) :
    ∃ k : Formula, k.text = d.text ++ ' ' :: e.text ∧ k.numerals = d.numerals ++ e.numerals ∧
      k.denote = ⟨[.all (ps ++ qs)]⟩ := by
  obtain ⟨b, a, c, more, rfl, rfl⟩ := exists_eq_all hd hps
  obtain ⟨b', a', c', more', rfl, rfl⟩ := exists_eq_all he hqs
  have hgap : ∀ x ∈ a.1 ++ ' ' :: b'.1, isBlank x = true :=
    List.forall_mem_append.2 ⟨a.2, List.forall_mem_cons.2 ⟨rfl, b'.2⟩⟩
  refine ⟨ranges b (.all c (more ++ (⟨a.1 ++ ' ' :: b'.1, by simp, hgap⟩, c') :: more')) [] a',
    ?_, ?_, ?_⟩
  · simp [text, Range.text]
  · simp [numerals, targets, Range.targets]
  · simp [denote, Range.denote]

end Formula

end Grammar

/-! ### Texts put together -/

/-- What derivations without long numerals are put together as is read. -/
theorem Formula.parse_eq_ok_of_append {d e k : Grammar.Formula} {s : String}
    (htext : k.text = s.toList) (hnumerals : k.numerals = d.numerals ++ e.numerals)
    (hd : Short d.numerals) (he : Short e.numerals) : Formula.parse s = .ok k.denote := by
  refine parse_eq_ok htext ?_
  rw [hnumerals, short_append]
  exact ⟨hd, he⟩

/-- **Texts are put together as what they are read as.**  Two texts with `||` between them are
read if and only if both are, and then as the ranges of the first followed by those of the second;
two texts that are read as clauses, with a blank between them, are read as the clauses of the first
followed by those of the second.  White space alone is no such text. -/
theorem Formula.parse_joined {a b : String} (ha : ∃ c ∈ a.toList, isBlank c = false)
    (hb : ∃ c ∈ b.toList, isBlank c = false) :
    (∀ f, Formula.parse (a ++ "||" ++ b) = .ok f ↔ ∃ g h, Formula.parse a = .ok g ∧
      Formula.parse b = .ok h ∧ f = ⟨g.ranges ++ h.ranges⟩) ∧
    ∀ ps qs, Formula.parse a = .ok ⟨[.all ps]⟩ → Formula.parse b = .ok ⟨[.all qs]⟩ →
      Formula.parse (a ++ " " ++ b) = .ok ⟨[.all (ps ++ qs)]⟩ := by
  have hor : (a ++ "||" ++ b).toList = a.toList ++ '|' :: '|' :: b.toList := by simp
  have hand : (a ++ " " ++ b).toList = a.toList ++ ' ' :: b.toList := by simp
  refine ⟨fun f => ⟨fun h => ?_, ?_⟩, fun ps qs hps hqs => ?_⟩
  · obtain ⟨k, htext, hshort, rfl⟩ := exists_derivation_of_parse h
    obtain ⟨d, e, hd, he, hnumerals, hdenote⟩ := Grammar.Formula.exists_of_or (htext.trans hor)
    rw [hnumerals, short_append] at hshort
    exact ⟨d.denote, e.denote, parse_eq_ok hd hshort.1, parse_eq_ok he hshort.2, hdenote⟩
  · rintro ⟨g, h, hg, hh, rfl⟩
    obtain ⟨d, hd, hdshort, rfl⟩ := exists_derivation_of_parse hg
    obtain ⟨e, he, heshort, rfl⟩ := exists_derivation_of_parse hh
    obtain ⟨k, htext, hnumerals, hdenote⟩ := Grammar.Formula.exists_or (hd ▸ ha) (he ▸ hb)
    rw [← hdenote]
    exact parse_eq_ok_of_append (by rw [htext, hor, hd, he]) hnumerals hdshort heshort
  · obtain ⟨d, hd, hdshort, hps⟩ := exists_derivation_of_parse hps
    obtain ⟨e, he, heshort, hqs⟩ := exists_derivation_of_parse hqs
    obtain ⟨k, htext, hnumerals, hdenote⟩ :=
      Grammar.Formula.exists_and (hd ▸ ha) (he ▸ hb) hps hqs
    rw [← hdenote]
    exact parse_eq_ok_of_append (by rw [htext, hand, hd, he]) hnumerals hdshort heshort

/-- The texts `>=1.2.3-beta ` and ` <2`, with white space on both sides of the seam, put together in
both ways. -/
theorem Formula.parse_joined_betaBelowTwo :
    ((∃ c ∈ ">=1.2.3-beta ".toList, isBlank c = false) ∧ ∃ c ∈ " <2".toList, isBlank c = false) ∧
    Formula.parse ">=1.2.3-beta " =
      .ok ⟨[.all [.compare (some .ge) (.version ⟨1, 2, 3, [.alpha "beta"], []⟩)]]⟩ ∧
    Formula.parse " <2" = .ok ⟨[.all [.compare (some .lt) (.major 2)]]⟩ ∧
    Formula.parse (">=1.2.3-beta " ++ "||" ++ " <2") =
      .ok ⟨[.all [.compare (some .ge) (.version ⟨1, 2, 3, [.alpha "beta"], []⟩)],
        .all [.compare (some .lt) (.major 2)]]⟩ ∧
    Formula.parse (">=1.2.3-beta " ++ " " ++ " <2") =
      .ok ⟨[.all [.compare (some .ge) (.version ⟨1, 2, 3, [.alpha "beta"], []⟩),
        .compare (some .lt) (.major 2)]]⟩ := by
  have ha : ∃ c ∈ ">=1.2.3-beta ".toList, isBlank c = false := ⟨'>', by decide, by decide⟩
  have hb : ∃ c ∈ " <2".toList, isBlank c = false := ⟨'<', by decide, by decide⟩
  have hp : Formula.parse ">=1.2.3-beta " =
      .ok ⟨[.all [.compare (some .ge) (.version ⟨1, 2, 3, [.alpha "beta"], []⟩)]]⟩ := by
    decide +kernel
  have hq : Formula.parse " <2" = .ok ⟨[.all [.compare (some .lt) (.major 2)]]⟩ := by
    decide +kernel
  obtain ⟨hor, hand⟩ := parse_joined ha hb
  exact ⟨⟨ha, hb⟩, hp, hq, (hor _).2 ⟨_, _, hp, hq, rfl⟩, hand _ _ hp hq⟩

end SemverRange
